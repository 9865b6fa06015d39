import SimpleBank.Library.Rollback

/-! Statements are sound: on a schema that statements have built, whatever a
statement does to content that fits leaves content that fits. -/
namespace SimpleBank.Library.Ddl

/-- The table is there, with these columns. -/
def Schema.Has (schema : Schema) (table : String) (columns : List String) : Prop :=
  ∃ found, schema.columns? table = some found ∧ columns ⊆ found

/-- A constraint is about columns that there are. -/
def Constraint.Within (constraint : Constraint) (schema : Schema) : Prop :=
  schema.Has constraint.table constraint.columns ∧ ∀ refTable refColumns,
    constraint.kind = .foreignKey refTable refColumns → schema.Has refTable refColumns

structure Schema.WellFormed (schema : Schema) : Prop where
  names : (schema.tables.map TableDef.name).Nodup
  constraints : ∀ constraint ∈ schema.constraints, constraint.Within schema

/-- The default of a new column is one of its values. -/
def Column.defaults (column : Column) : Bool :=
  column.default.all fun default => column.type.hasValue (default.eval 0)

def Stmt.defaults : Stmt → Bool
  | .addColumn _ column => column.defaults
  | _ => true

section Schemas

variable {schema next : Schema} {stmt : Stmt} {table : String} {columns : List String}

theorem Schema.Has.mono {larger : Schema} (h : schema.Has table columns)
    (hwithin : schema.Within larger) : larger.Has table columns := by
  obtain ⟨found, hfound, hsubset⟩ := h
  obtain ⟨others, hothers, hsubset'⟩ := hwithin table found hfound
  exact ⟨others, hothers, List.Subset.trans hsubset hsubset'⟩

theorem Constraint.Within.mono {constraint : Constraint} {larger : Schema}
    (h : constraint.Within schema) (hwithin : schema.Within larger) : constraint.Within larger :=
  ⟨h.1.mono hwithin, fun refTable refColumns hkind => (h.2 refTable refColumns hkind).mono hwithin⟩

theorem Schema.has_of_missing {found : TableDef} (hfound : schema.table? table = some found)
    (hmissing : missing found columns = none) : schema.Has table columns := by
  refine ⟨_, table?_isSome hfound, fun name hname => ?_⟩
  simpa using List.find?_eq_none.mp hmissing name hname

/-- A key of this table on some of these columns. -/
def Constraint.IsNewKey (constraint : Constraint) (table : String) (names : List String) : Prop :=
  constraint.table = table ∧ constraint.isForeignKey = false ∧ constraint.columns ⊆ names

theorem Schema.addKey_new {kind : ConstraintKind} {names : List String} {base : String}
    (hkind : kind = .primaryKey ∨ kind = .unique) (hsubset : columns ⊆ names) :
    ∀ constraint ∈ (schema.addKey table kind columns base).constraints,
      constraint ∈ schema.constraints ∨ constraint.IsNewKey table names := by
  intro constraint hmem
  rcases List.mem_append.mp hmem with hold | hnew
  · exact .inl hold
  · rw [List.mem_singleton.mp hnew]
    refine .inr ⟨rfl, ?_, hsubset⟩
    rcases hkind with rfl | rfl <;> rfl

theorem Schema.foldl_addKey_new {names : List String} {base : String → String}
    (hsubset : columns ⊆ names) :
    ∀ constraint ∈ (columns.foldl (fun schema column =>
        schema.addKey table .unique [column] (base column)) schema).constraints,
      constraint ∈ schema.constraints ∨ constraint.IsNewKey table names := by
  induction columns generalizing schema with
  | nil => exact fun _ hmem => .inl hmem
  | cons column columns ih =>
    obtain ⟨hcolumn, hcolumns⟩ := List.cons_subset.mp hsubset
    intro constraint hmem
    rcases ih hcolumns constraint hmem with hkeyed | hnew
    · exact addKey_new (.inr rfl) (List.cons_subset.mpr ⟨hcolumn, List.nil_subset _⟩) _ hkeyed
    · exact .inr hnew

/-- What a new table adds to the schema. -/
theorem Schema.createTable_eq_ok {name : String} {columns : List ColumnDef}
    (h : schema.createTable name columns = .ok next) :
    name ∉ schema.tables.map TableDef.name ∧
      (∃ stored, next.tables = schema.tables ++ [⟨name, stored⟩]) ∧
      ∀ constraint ∈ next.constraints, constraint ∈ schema.constraints ∨
        constraint.IsNewKey name (columns.map fun column => column.name) := by
  unfold createTable at h
  split at h
  · cases h
  rename_i hfree
  split at h
  · cases h
  cases h
  have hkeys : ∀ kind : ColumnKey,
      ((columns.filter fun column => column.key = some kind).map fun column => column.name) ⊆
        columns.map fun column => column.name :=
    fun kind => List.map_subset _ (List.filter_subset_self _)
  generalize hstored : (columns.map fun column => column.stored (column.key = some .primaryKey)) =
    stored
  generalize hcreated : addSequences { schema with tables := schema.tables ++ [⟨name, stored⟩] } name
    stored = created
  obtain ⟨htables, hconstraints⟩ : created.tables = schema.tables ++ [⟨name, stored⟩] ∧
      created.constraints = schema.constraints := hcreated ▸ addSequences_tables _ _ _
  refine ⟨fun hmem => hfree ?_, ⟨stored, ?_⟩, fun constraint hmem => ?_⟩
  · simp only [relations, List.append_assoc, List.mem_append]
    exact .inl hmem
  · rw [(foldl_addKey name _ _ _).1]
    split
    · exact htables
    · exact htables
  · rcases foldl_addKey_new (hkeys .unique) constraint hmem with hold | hnew
    · split at hold
      · exact .inl (hconstraints ▸ hold)
      · exact (addKey_new (.inl rfl) (hkeys .primaryKey) constraint hold).imp_left
          fun hmem => hconstraints ▸ hmem
    · exact .inr hnew

theorem Schema.addForeignKey_eq_ok {refTable : String} {refColumns : List String}
    (h : schema.addForeignKey table columns refTable refColumns = .ok next) :
    schema.Has table columns ∧ schema.Has refTable refColumns ∧
      ∃ name, next = schema.addConstraint ⟨name, table, columns, .foreignKey refTable refColumns⟩ := by
  unfold addForeignKey at h
  split at h
  · cases h
  · cases h
  rename_i found referenced hfound hreferenced
  split at h
  · cases h
  rename_i hmissing
  obtain ⟨hcolumns, hrefColumns⟩ := Option.or_eq_none_iff.mp hmissing
  split at h
  · cases h
  split at h
  · cases h
  cases h
  exact ⟨has_of_missing hfound hcolumns, has_of_missing hreferenced hrefColumns, _, rfl⟩

theorem Schema.addUnique_eq_ok {name : String} (h : schema.addUnique table name columns = .ok next) :
    schema.Has table columns ∧ next = schema.addConstraint ⟨name, table, columns, .unique⟩ := by
  unfold addUnique at h
  split at h
  · cases h
  rename_i found hfound
  split at h
  · cases h
  rename_i hmissing
  split at h
  · cases h
  split at h
  · cases h
  cases h
  exact ⟨has_of_missing hfound hmissing, rfl⟩

theorem Schema.addColumn_eq_ok {column : Column} (h : schema.addColumn table column = .ok next) :
    ∃ found, schema.table? table = some found ∧ column.name ∉ found.columns.map Column.name ∧
      next.tables = (schema.mapTable table fun columns => columns ++ [column.stored false]).tables ∧
      next.constraints = schema.constraints := by
  unfold addColumn at h
  split at h
  · cases h
  rename_i found hfound
  split at h
  · cases h
  rename_i hnew
  cases h
  obtain ⟨htables, hconstraints⟩ := addSequences_tables
    (schema.mapTable table fun columns => columns ++ [column.stored false]) table [column]
  exact ⟨found, hfound, hnew, htables, hconstraints⟩

theorem Schema.createIndex_eq_ok (h : schema.createIndex table columns = .ok next) :
    next.tables = schema.tables ∧ next.constraints = schema.constraints := by
  unfold createIndex at h
  split at h
  · cases h
  split at h
  · cases h
  cases h
  exact ⟨rfl, rfl⟩

theorem Schema.commentOnColumn_eq_ok {column text : String}
    (h : schema.commentOnColumn table column text = .ok next) :
    next.tables = schema.tables ∧ next.constraints = schema.constraints := by
  unfold commentOnColumn at h
  split at h
  · cases h
  split at h
  · cases h
  cases h
  exact ⟨rfl, rfl⟩

theorem Schema.mapTable_names (schema : Schema) (name : String) (f : List Column → List Column) :
    (schema.mapTable name f).tables.map TableDef.name = schema.tables.map TableDef.name := by
  simp only [mapTable, List.map_map]
  congr 1
  funext table
  simp only [Function.comp]
  split <;> rfl

theorem Schema.WellFormed.names_exec (h : schema.WellFormed) (hexec : schema.exec stmt = .ok next) :
    (next.tables.map TableDef.name).Nodup := by
  cases stmt with
  | createTable name columns =>
    obtain ⟨hnew, ⟨stored, htables⟩, -⟩ := createTable_eq_ok hexec
    rw [htables, List.map_append, List.nodup_append]
    refine ⟨h.names, by simp, ?_⟩
    rintro other hother _ hname rfl
    cases List.mem_singleton.mp hname
    exact hnew hother
  | addForeignKey table columns refTable refColumns =>
    obtain ⟨-, -, _, rfl⟩ := addForeignKey_eq_ok hexec
    exact h.names
  | addUnique table name columns =>
    obtain ⟨-, rfl⟩ := addUnique_eq_ok hexec
    exact h.names
  | addColumn table column =>
    obtain ⟨_, -, -, htables, -⟩ := addColumn_eq_ok hexec
    rw [htables, mapTable_names]
    exact h.names
  | createIndex table columns => exact (createIndex_eq_ok hexec).1 ▸ h.names
  | commentOnColumn table column text => exact (commentOnColumn_eq_ok hexec).1 ▸ h.names
  | dropConstraint ifTableExists table ifExists name =>
    obtain ⟨_, rfl⟩ := dropConstraint_eq_ok hexec
    exact h.names
  | dropColumn table column =>
    obtain ⟨_, -, rfl, -⟩ := dropColumn_eq_ok hexec
    rw [withoutColumn, mapTable_names]
    exact h.names
  | dropTable ifExists name cascade =>
    obtain ⟨-, rfl⟩ | rfl := dropTable_eq_ok hexec
    · exact h.names
    · exact (List.filter_sublist.map _).nodup h.names

/-- What a drop keeps is still there. -/
theorem Schema.has_of_keeps (hdrops : stmt.drops = true) (hstep : schema.Step next stmt)
    (h : schema.Has table columns) (hkeeps : stmt.keeps table columns) : next.Has table columns := by
  obtain ⟨found, hfound, hsubset⟩ := h
  rw [Schema.Has, hstep.columns]
  cases stmt with
  | dropConstraint _ _ _ _ => exact ⟨found, hfound, hsubset⟩
  | dropColumn owner column =>
    by_cases howner : table = owner
    · subst howner
      refine ⟨found.filter fun name => name ≠ column, by simp [Stmt.columnsAfter, hfound], ?_⟩
      intro name hname
      refine List.mem_filter.mpr ⟨hsubset hname, ?_⟩
      simp only [decide_eq_true_eq]
      rintro rfl
      exact hkeeps rfl hname
    · exact ⟨found, by simp [Stmt.columnsAfter, Function.update_of_ne howner, hfound], hsubset⟩
  | dropTable _ name _ =>
    have hname : table ≠ name := hkeeps
    exact ⟨found, by simp [Stmt.columnsAfter, Function.update_of_ne hname, hfound], hsubset⟩
  | _ => cases hdrops

theorem Constraint.Within.of_isNewKey {constraint : Constraint} {names : List String}
    (h : constraint.IsNewKey table names) (hhas : schema.Has table names) :
    constraint.Within schema := by
  obtain ⟨rfl, hkind, hsubset⟩ := h
  obtain ⟨found, hfound, hnames⟩ := hhas
  refine ⟨⟨found, hfound, List.Subset.trans hsubset hnames⟩, fun refTable refColumns hforeign => ?_⟩
  simp [isForeignKey, hforeign] at hkind

/-- A schema that statements build is well formed. -/
theorem Schema.WellFormed.exec (h : schema.WellFormed) (hexec : schema.exec stmt = .ok next) :
    next.WellFormed := by
  refine ⟨h.names_exec hexec, fun constraint hmem => ?_⟩
  have hstep := exec_step hexec
  cases hdrops : stmt.drops with
  | true =>
    obtain ⟨hold, rfl | ⟨hkeys, href⟩⟩ := exec_kept hdrops hexec hmem
    · exact h.constraints constraint hold
    · obtain ⟨hcolumns, hrefColumns⟩ := h.constraints constraint hold
      exact ⟨has_of_keeps hdrops hstep hcolumns hkeys, fun refTable refColumns hkind =>
        has_of_keeps hdrops hstep (hrefColumns refTable refColumns hkind)
          (href refTable refColumns hkind)⟩
  | false =>
    have hwithin : schema.Within next := within_of_adds (by simp [Stmt.adds, hdrops]) hstep
    have old : constraint ∈ schema.constraints → constraint.Within next :=
      fun hold => (h.constraints constraint hold).mono hwithin
    cases stmt with
    | createTable name columns =>
      obtain ⟨-, -, hnew⟩ := createTable_eq_ok hexec
      rcases hnew constraint hmem with hold | hnew
      · exact old hold
      · exact .of_isNewKey hnew ⟨_, by rw [hstep.columns]; exact Function.update_self .., fun _ => id⟩
    | addForeignKey table columns refTable refColumns =>
      obtain ⟨hcolumns, hrefColumns, _, rfl⟩ := addForeignKey_eq_ok hexec
      rcases List.mem_append.mp hmem with hold | hnew
      · exact old hold
      · cases List.mem_singleton.mp hnew
        refine ⟨hcolumns.mono hwithin, fun _ _ hkind => ?_⟩
        cases hkind
        exact hrefColumns.mono hwithin
    | addUnique table name columns =>
      obtain ⟨hcolumns, rfl⟩ := addUnique_eq_ok hexec
      rcases List.mem_append.mp hmem with hold | hnew
      · exact old hold
      · cases List.mem_singleton.mp hnew
        exact ⟨hcolumns.mono hwithin, fun _ _ hkind => nomatch hkind⟩
    | addColumn table column =>
      obtain ⟨_, -, -, -, hsame⟩ := addColumn_eq_ok hexec
      exact old (hsame ▸ hmem)
    | createIndex table columns => exact old ((createIndex_eq_ok hexec).2 ▸ hmem)
    | commentOnColumn table column text => exact old ((commentOnColumn_eq_ok hexec).2 ▸ hmem)
    | dropConstraint _ _ _ _ | dropColumn _ _ | dropTable _ _ _ => cases hdrops

theorem Schema.WellFormed.run {stmts : List Stmt} (h : schema.WellFormed)
    (hrun : schema.run stmts = .ok next) : next.WellFormed := by
  induction stmts generalizing schema with
  | nil =>
    cases hrun
    exact h
  | cons stmt stmts ih =>
    obtain ⟨middle, hexec, hrest⟩ := run_cons_eq_ok.mp hrun
    exact ih (h.exec hexec) hrest

theorem Schema.wellFormed_empty : Schema.empty.WellFormed :=
  ⟨.nil, fun _ hmem => nomatch hmem⟩

end Schemas

section Content

variable {schema next : Schema} {stmt : Stmt} {content later : Content} {now : Int}
  {state final : State}

/-- Keys are read off columns that the schema has. -/
theorem Row.key_restrict {columns names : List String} (h : columns ⊆ names) (row : Row) :
    Row.key columns (Row.restrict names row) = Row.key columns row := by
  unfold key
  induction columns with
  | nil => rfl
  | cons name columns ih =>
    obtain ⟨hname, hcolumns⟩ := List.cons_subset.mp h
    simp only [List.mapM_cons, restrict, if_pos hname]
    have hrest := ih hcolumns
    unfold restrict at hrest
    rw [hrest]

theorem Content.keys_restrict {table : String} {columns : List String} (h : schema.Has table columns) :
    (content.restrict schema).keys table columns = content.keys table columns := by
  obtain ⟨found, hfound, hsubset⟩ := h
  simp only [keys, restrict, restrictTo, hfound, Row.restrictAll, List.filterMap_map]
  congr 1
  funext row
  exact Row.key_restrict hsubset row

/-- Content that agrees on the columns of a schema meets the same constraints on them. -/
theorem Constraint.Holds.congr {constraint : Constraint} (hholds : constraint.Holds content)
    (hwithin : constraint.Within schema) (h : later.restrict schema = content.restrict schema) :
    constraint.Holds later := by
  have hkeys : ∀ {table columns}, schema.Has table columns →
      later.keys table columns = content.keys table columns := by
    intro table columns hhas
    rw [← Content.keys_restrict hhas, h, Content.keys_restrict hhas]
  obtain ⟨hcolumns, hrefColumns⟩ := hwithin
  unfold Holds at hholds ⊢
  cases hkind : constraint.kind with
  | primaryKey | unique =>
    simp only [hkind] at hholds ⊢
    rwa [hkeys hcolumns]
  | foreignKey refTable refColumns =>
    simp only [hkind] at hholds ⊢
    rwa [hkeys hcolumns, hkeys (hrefColumns refTable refColumns hkind)]

/-- The value that a new column gets is one that it admits. -/
theorem Column.admits_fill {column : Column} (hdefaults : column.defaults = true) {number : Nat}
    (hfilled : column.notNull = true → column.fill now number ≠ .null) :
    (column.stored false).admits (column.fill now number) = true := by
  have htype : column.type.hasValue (column.fill now number) = true := by
    unfold fill
    split
    · rename_i hserial
      rw [hserial]
      rfl
    · unfold defaults at hdefaults
      cases hdefault : column.default with
      | none => cases column.type <;> rfl
      | some default =>
        rw [hdefault, Option.all_some] at hdefaults
        cases default with
        | literal value => exact hdefaults
        | now offset =>
          revert hdefaults
          cases column.type <;> simp [Default.eval, ColumnType.hasValue]
  have hnull : (column.stored false).notNull = true → column.fill now number ≠ .null := by
    simp only [stored, Bool.or_false, Bool.or_eq_true, decide_eq_true_eq]
    rintro (hnotNull | hserial)
    · exact hfilled hnotNull
    · simp [fill, hserial]
  have hstored : (column.stored false).type = column.type := rfl
  rw [admits, hstored, htype, Bool.true_and]
  simp only [Bool.not_eq_true', Bool.and_eq_false_iff, decide_eq_false_iff_not]
  cases hnotNull : (column.stored false).notNull with
  | false => exact .inl rfl
  | true => exact .inr (hnull hnotNull)

/-- Every column of every table has values of its own in every row. -/
def Typed (schema : Schema) (content : Content) : Prop :=
  ∀ table ∈ schema.tables, ∀ row ∈ content table.name, ∀ column ∈ table.columns,
    (row column.name).any column.admits = true

theorem Typed.addColumn {table : String} {column : Column} (h : Typed schema content)
    (hnames : (schema.tables.map TableDef.name).Nodup) (hdefaults : column.defaults = true)
    (hexec : schema.addColumn table column = .ok next)
    (hfilled : Stmt.unfilled now content (.addColumn table column) = none) :
    Typed next (Stmt.apply now content (.addColumn table column)) := by
  obtain ⟨found, hfound, hnew, htables, -⟩ := Schema.addColumn_eq_ok hexec
  have hname : found.name = table := by simpa using List.find?_some hfound
  intro other hother row hrow name hcolumn
  rw [htables] at hother
  obtain ⟨old, hold, rfl⟩ := List.mem_map.mp hother
  by_cases hsame : old.name = table
  · obtain rfl : old = found := List.inj_on_of_nodup_map hnames hold
      (List.mem_of_find?_eq_some hfound) (hsame.trans hname.symm)
    simp only [if_pos hsame] at hrow hcolumn
    rw [hname, Stmt.apply, Function.update_self] at hrow
    obtain ⟨number, hnumber, rfl⟩ := List.mem_mapIdx.mp hrow
    rcases List.mem_append.mp hcolumn with hcolumn | hcolumn
    · have hne : name.name ≠ column.name := fun heq => hnew (heq ▸ List.mem_map_of_mem hcolumn)
      rw [Function.update_of_ne hne]
      exact h old hold _ (hname ▸ List.getElem_mem hnumber) name hcolumn
    · cases List.mem_singleton.mp hcolumn
      rw [show (column.stored false).name = column.name from rfl, Function.update_self, Option.any_some]
      refine Column.admits_fill hdefaults fun hnotNull hnull => ?_
      have hzip : ((content table)[number], number) ∈ (content table).zipIdx :=
        List.mem_zipIdx_iff_getElem?.mpr (by simp [hnumber])
      simp only [Stmt.unfilled, hnotNull, Bool.true_and] at hfilled
      split at hfilled
      · cases hfilled
      · rename_i hany
        exact hany (List.any_eq_true.mpr ⟨_, hzip, by simpa using hnull⟩)
  · simp only [if_neg hsame] at hrow hcolumn
    rw [Stmt.apply, Function.update_of_ne hsame] at hrow
    exact h old hold row hrow name hcolumn

/-- A statement that goes through leaves content that fits. -/
theorem Satisfies.exec (h : Satisfies state.schema state.content) (hwell : state.schema.WellFormed)
    (hdefaults : stmt.defaults = true) (hexec : exec now state stmt = .ok final) :
    Satisfies final.schema final.content := by
  obtain ⟨schema, content⟩ := state
  obtain ⟨next, later⟩ := final
  obtain ⟨hschema, hcontent, hnew, hfilled⟩ := exec_eq_ok.mp hexec
  dsimp only at h hwell hschema hcontent hnew hfilled ⊢
  cases hdrops : stmt.drops with
  | true =>
    rw [hcontent, apply_eq_restrict hdrops hschema h.shaped]
    exact h.exec_of_drops hdrops hschema
  | false =>
    have hadds : stmt.adds = true := by simp [Stmt.adds, hdrops]
    have hstep := Schema.exec_step hschema
    have hback : (stmt.apply now content).restrictTo schema.columns? = content :=
      (apply_of_adds hadds hstep.fresh h.shaped).1
    have hshaped : (stmt.apply now content).restrictTo (stmt.columnsAfter schema.columns?) =
        stmt.apply now content := (apply_of_adds hadds hstep.fresh h.shaped).2
    rw [← hcontent] at hback
    rw [← hcontent, ← hstep.columns] at hshaped
    refine ⟨hshaped, ?_, fun constraint hmem => ?_⟩
    · show Typed next later
      have htyped : Typed schema content := h.typed
      have same : next.tables = schema.tables → stmt.apply now content = content →
          Typed next later := by
        intro htables happly
        rw [hcontent, happly, Typed, htables]
        exact htyped
      cases stmt with
      | createTable name columns =>
        obtain ⟨hfresh, ⟨stored, htables⟩, -⟩ := Schema.createTable_eq_ok hschema
        rw [hcontent, Typed, htables]
        intro other hother row hrow column hcolumn
        rcases List.mem_append.mp hother with hother | hother
        · have hne : other.name ≠ name := fun heq => hfresh (heq ▸ List.mem_map_of_mem hother)
          rw [Stmt.apply, Function.update_of_ne hne] at hrow
          exact htyped other hother row hrow column hcolumn
        · cases List.mem_singleton.mp hother
          rw [Stmt.apply, Function.update_self] at hrow
          cases hrow
      | addColumn table column =>
        rw [hcontent]
        exact htyped.addColumn hwell.names hdefaults hschema hfilled
      | addForeignKey table columns refTable refColumns =>
        obtain ⟨-, -, _, rfl⟩ := Schema.addForeignKey_eq_ok hschema
        exact same rfl rfl
      | addUnique table name columns =>
        obtain ⟨-, rfl⟩ := Schema.addUnique_eq_ok hschema
        exact same rfl rfl
      | createIndex table columns => exact same (Schema.createIndex_eq_ok hschema).1 rfl
      | commentOnColumn table column text =>
        exact same (Schema.commentOnColumn_eq_ok hschema).1 rfl
      | dropConstraint _ _ _ _ | dropColumn _ _ | dropTable _ _ _ => cases hdrops
    · by_cases hold : constraint ∈ schema.constraints
      · exact (h.constraints constraint hold).congr (hwell.constraints constraint hold)
          (hback.trans h.shaped.symm)
      · exact hnew constraint hmem hold

/-- So does a script. -/
theorem Satisfies.run {stmts : List Stmt} (h : Satisfies state.schema state.content)
    (hwell : state.schema.WellFormed) (hdefaults : ∀ stmt ∈ stmts, stmt.defaults = true)
    (hrun : run now state stmts = .ok final) :
    Satisfies final.schema final.content ∧ final.schema.WellFormed := by
  induction stmts generalizing state with
  | nil =>
    cases hrun
    exact ⟨h, hwell⟩
  | cons stmt stmts ih =>
    obtain ⟨middle, hexec, hrest⟩ := run_cons_eq_ok.mp hrun
    exact ih (h.exec hwell (hdefaults stmt List.mem_cons_self) hexec)
      (hwell.exec (exec_eq_ok.mp hexec).1)
      (fun other hmem => hdefaults other (List.mem_cons_of_mem _ hmem)) hrest

theorem satisfies_empty : Satisfies .empty fun _ => [] :=
  ⟨rfl, fun _ hmem => (nomatch hmem), fun _ hmem => nomatch hmem⟩

/-- The content has what the statement would write into it. -/
def Stmt.Writes (now : Int) (content : Content) : Stmt → Prop
  | .createTable name _ => content name = []
  | .addColumn table column =>
    ∀ row ∈ content table, ∀ number, row column.name = some (column.fill now number)
  | _ => True

theorem Stmt.writes_empty (now : Int) (stmt : Stmt) : stmt.Writes now fun _ => [] := by
  cases stmt with
  | createTable _ _ => rfl
  | addColumn _ _ => exact fun _ hmem => nomatch hmem
  | _ => trivial

theorem Row.restrict_congr {columns : List String} {row other : Row}
    (h : ∀ name ∈ columns, row name = other name) :
    Row.restrict columns row = Row.restrict columns other := by
  funext name
  unfold restrict
  split
  · rename_i hname
    exact h name hname
  · rfl

theorem Row.update_restrict {columns : List String} {row : Row} {column : String} {value : Value}
    (h : row column = some value) : Function.update (Row.restrict columns row) column (some value) =
      Row.restrict (columns ++ [column]) row := by
  funext name
  by_cases hname : name = column
  · subst hname
    simp [restrict, h]
  · simp [restrict, hname]

theorem apply_restrictTo {columns? : String → Option (List String)} (hadds : stmt.adds = true)
    (hwrites : stmt.Writes now content) :
    stmt.apply now (content.restrictTo columns?) = content.restrictTo (stmt.columnsAfter columns?) := by
  cases stmt with
  | createTable name columns =>
    rw [Stmt.columnsAfter, Content.restrictTo_update_columns, show content name = [] from hwrites]
    rfl
  | addColumn table column =>
    rw [Stmt.columnsAfter, Content.restrictTo_update_columns, Stmt.apply]
    congr 1
    rw [Content.restrictTo]
    cases columns? table with
    | none => rfl
    | some names =>
      refine List.ext_getElem (by simp [Row.restrictAll]) fun number hlt _ => ?_
      have hrow : number < (content table).length := by simpa [Row.restrictAll] using hlt
      simp only [Row.restrictAll, Option.map_some, List.getElem_map, List.getElem_mapIdx]
      exact Row.update_restrict (hwrites _ (List.getElem_mem hrow) number)
  | dropConstraint _ _ _ _ | dropColumn _ _ | dropTable _ _ _ => cases hadds
  | _ => rfl

/-- A script of additions that starts from what its schema has room for ends
with what the schema that it builds has room for. -/
theorem run_restrict {stmts : List Stmt} (hadds : ∀ stmt ∈ stmts, stmt.adds = true)
    (hwrites : ∀ stmt ∈ stmts, stmt.Writes now content)
    (hrun : run now ⟨schema, content.restrict schema⟩ stmts = .ok final) :
    final.content = content.restrict final.schema := by
  induction stmts generalizing schema with
  | nil =>
    cases hrun
    rfl
  | cons stmt stmts ih =>
    obtain ⟨⟨middle, rows⟩, hexec, hrest⟩ := run_cons_eq_ok.mp hrun
    obtain ⟨hschema, hrows, -, -⟩ := exec_eq_ok.mp hexec
    dsimp only at hschema hrows
    rw [Content.restrict, apply_restrictTo (hadds stmt List.mem_cons_self)
      (hwrites stmt List.mem_cons_self), ← (Schema.exec_step hschema).columns] at hrows
    subst hrows
    exact ih (fun other hmem => hadds other (List.mem_cons_of_mem _ hmem))
      (fun other hmem => hwrites other (List.mem_cons_of_mem _ hmem)) hrest

end Content
end SimpleBank.Library.Ddl
