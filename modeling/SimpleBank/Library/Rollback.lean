import SimpleBank.Library.Ddl

/-! Scripts that only add to a schema, and scripts that only drop from it.  What
a script drops is all that it takes from the rows, so one that brings back the
schema from before an addition brings back the rows as well. -/
namespace SimpleBank.Library.Ddl

/-- The values in these columns. -/
def Row.restrict (columns : List String) (row : Row) : Row :=
  fun name => if name ∈ columns then row name else none

/-- Rows as far as their columns go, and none without a table. -/
def Row.restrictAll : Option (List String) → List Row → List Row
  | none, _ => []
  | some columns, rows => rows.map (restrict columns)

def Content.restrictTo (columns? : String → Option (List String)) (content : Content) : Content :=
  fun table => Row.restrictAll (columns? table) (content table)

/-- The rows of the tables of a schema, restricted to its columns. -/
def Content.restrict (schema : Schema) (content : Content) : Content :=
  content.restrictTo schema.columns?

/-- The content fits the schema: no rows elsewhere, no values elsewhere, each
value one that its column admits, and every constraint met. -/
structure Satisfies (schema : Schema) (content : Content) : Prop where
  shaped : content.restrict schema = content
  typed : ∀ table ∈ schema.tables, ∀ row ∈ content table.name, ∀ column ∈ table.columns,
    (row column.name).any column.admits = true
  constraints : ∀ constraint ∈ schema.constraints, constraint.Holds content

namespace Stmt

def drops : Stmt → Bool
  | .dropConstraint _ _ _ _ | .dropColumn _ _ | .dropTable _ _ _ => true
  | _ => false

def adds (stmt : Stmt) : Bool := !stmt.drops

/-- The columns of the tables after a statement. -/
def columnsAfter (columns? : String → Option (List String)) :
    Stmt → String → Option (List String)
  | .createTable name columns =>
    Function.update columns? name (some (columns.map fun column => column.name))
  | .addColumn table column =>
    Function.update columns? table ((columns? table).map fun columns => columns ++ [column.name])
  | .dropColumn table column =>
    Function.update columns? table
      ((columns? table).map fun columns => columns.filter fun name => name ≠ column)
  | .dropTable _ name _ => Function.update columns? name none
  | _ => columns?

/-- The table that a statement puts new constraints on. -/
def constrains : Stmt → Option String
  | .createTable table _ | .addForeignKey table _ _ _ | .addUnique table _ _ => some table
  | _ => none

/-- What a statement adds to the tables was not there before. -/
def Fresh (columns? : String → Option (List String)) : Stmt → Prop
  | .createTable name _ => columns? name = none
  | .addColumn table column => ∀ columns, columns? table = some columns → column.name ∉ columns
  | _ => True

end Stmt

/-- What a statement makes of a schema. -/
structure Schema.Step (schema next : Schema) (stmt : Stmt) : Prop where
  columns : next.columns? = stmt.columnsAfter schema.columns?
  constraints : ∀ constraint ∈ next.constraints,
    constraint ∈ schema.constraints ∨ stmt.constrains = some constraint.table
  fresh : stmt.Fresh schema.columns?

section Columns

variable {schema next : Schema} {stmt : Stmt}

theorem Schema.columns?_eq {left right : Schema} (h : left.tables = right.tables) :
    left.columns? = right.columns? := by
  funext table
  rw [columns?, table?, h, columns?, table?]

theorem Schema.table?_isSome {name : String} {found : TableDef}
    (h : schema.table? name = some found) :
    schema.columns? name = some (found.columns.map Column.name) := by
  rw [columns?, h]
  rfl

theorem Schema.columns?_mapTable (schema : Schema) (name : String) (f : List Column → List Column)
    {found : TableDef} (h : schema.table? name = some found) :
    (schema.mapTable name f).columns? =
      Function.update schema.columns? name (some ((f found.columns).map Column.name)) := by
  funext table
  have hfind : (schema.mapTable name f).table? table = (schema.table? table).map fun found =>
      if found.name = name then { found with columns := f found.columns } else found := by
    simp only [mapTable, table?, List.find?_map]
    congr 2
    funext other
    simp only [Function.comp]
    split <;> rfl
  rw [columns?, hfind]
  by_cases htable : table = name
  · subst htable
    have hname : found.name = table := by simpa using List.find?_some h
    simp [h, hname]
  · rw [Function.update_of_ne htable, columns?]
    cases hother : schema.table? table with
    | none => rfl
    | some other =>
      have hname : other.name = table := by simpa using List.find?_some hother
      simp [hname, htable]

theorem Schema.addSequences_tables (schema : Schema) (table : String) (columns : List Column) :
    (schema.addSequences table columns).tables = schema.tables ∧
      (schema.addSequences table columns).constraints = schema.constraints := by
  unfold addSequences
  generalize columns.filter _ = serial
  induction serial generalizing schema with
  | nil => exact ⟨rfl, rfl⟩
  | cons column serial ih => exact ih _

/-- Keys only add constraints to their own table. -/
theorem Schema.foldl_addKey (table : String) (columns : List String) (base : String → String)
    (schema : Schema) :
    (columns.foldl (fun schema column => schema.addKey table .unique [column] (base column))
        schema).tables = schema.tables ∧
      ∀ constraint ∈ (columns.foldl (fun schema column =>
        schema.addKey table .unique [column] (base column)) schema).constraints,
        constraint ∈ schema.constraints ∨ constraint.table = table := by
  induction columns generalizing schema with
  | nil => exact ⟨rfl, fun _ hmem => .inl hmem⟩
  | cons column columns ih =>
    obtain ⟨htables, hconstraints⟩ := ih (schema.addKey table .unique [column] (base column))
    refine ⟨htables, fun constraint hmem => ?_⟩
    rcases hconstraints constraint hmem with hold | htable
    · rcases List.mem_append.mp hold with hold | hnew
      · exact .inl hold
      · rw [List.mem_singleton.mp hnew]
        exact .inr rfl
    · exact .inr htable

theorem Schema.createTable_step {name : String} {columns : List ColumnDef}
    (h : schema.createTable name columns = .ok next) :
    schema.Step next (.createTable name columns) := by
  unfold createTable at h
  split at h
  · cases h
  rename_i hfree
  split at h
  · cases h
  cases h
  have hnone : schema.table? name = none := by
    refine List.find?_eq_none.mpr fun table hmem hname => hfree ?_
    have hname : table.name = name := by simpa using hname
    simp only [relations, List.append_assoc, List.mem_append]
    exact .inl (List.mem_map.mpr ⟨table, hmem, hname⟩)
  generalize hstored : (columns.map fun column => column.stored (column.key = some .primaryKey)) =
    stored
  generalize hcreated : addSequences { schema with tables := schema.tables ++ [⟨name, stored⟩] } name
    stored = created
  generalize hkeyed : (if (columns.filter fun column => column.key = some .primaryKey).map
      (fun column => column.name) = [] then created
    else created.addKey name .primaryKey _ (objectName name [] "pkey")) = keyed
  have htables : created.tables = schema.tables ++ [⟨name, stored⟩] ∧
      created.constraints = schema.constraints := hcreated ▸ addSequences_tables _ _ _
  have hkeys : keyed.tables = created.tables ∧ ∀ constraint ∈ keyed.constraints,
      constraint ∈ schema.constraints ∨ constraint.table = name := by
    rw [← hkeyed]
    split
    · exact ⟨rfl, fun constraint hmem => .inl (htables.2 ▸ hmem)⟩
    · refine ⟨rfl, fun constraint hmem => ?_⟩
      rcases List.mem_append.mp hmem with hold | hnew
      · exact .inl (htables.2 ▸ hold)
      · rw [List.mem_singleton.mp hnew]
        exact .inr rfl
  obtain ⟨hfolded, hconstraints⟩ := foldl_addKey name ((columns.filter fun column =>
    column.key = some .unique).map fun column => column.name)
    (fun column => objectName name [column] "key") keyed
  refine ⟨?_, fun constraint hmem => ?_, by rw [Stmt.Fresh, columns?, hnone]; rfl⟩
  · refine (columns?_eq (hfolded.trans (hkeys.1.trans htables.1)) :
      _ = columns? { schema with tables := schema.tables ++ [⟨name, stored⟩] }).trans ?_
    funext table
    by_cases htable : table = name
    · subst htable
      have hfind : List.find? (fun other => decide (other.name = table)) schema.tables = none := hnone
      simp [Stmt.columnsAfter, columns?, table?, List.find?_append, hfind, ← hstored, Column.stored]
    · simp [Stmt.columnsAfter, columns?, table?, List.find?_append, Function.update_of_ne htable,
        Ne.symm htable]
  · rcases hconstraints constraint hmem with hkeyed | htable
    · exact (hkeys.2 constraint hkeyed).imp_right fun htable => congrArg some htable.symm
    · exact .inr (congrArg some htable.symm)

theorem Schema.addConstraint_step {stmt : Stmt} {constraint : Constraint}
    (hcolumns : stmt.columnsAfter schema.columns? = schema.columns?)
    (hconstrains : stmt.constrains = some constraint.table) (hfresh : stmt.Fresh schema.columns?) :
    schema.Step (schema.addConstraint constraint) stmt := by
  refine ⟨hcolumns.symm, fun other hmem => ?_, hfresh⟩
  rcases List.mem_append.mp hmem with hold | hnew
  · exact .inl hold
  · rw [List.mem_singleton.mp hnew]
    exact .inr hconstrains

theorem Schema.addColumn_step {table : String} {column : Column}
    (h : schema.addColumn table column = .ok next) : schema.Step next (.addColumn table column) := by
  unfold addColumn at h
  split at h
  · cases h
  rename_i found hfound
  split at h
  · cases h
  rename_i hnew
  cases h
  have hcolumns := table?_isSome hfound
  obtain ⟨htables, hconstraints⟩ := addSequences_tables
    (schema.mapTable table fun columns => columns ++ [column.stored false]) table [column]
  refine ⟨?_, fun constraint hmem => .inl (hconstraints ▸ hmem), fun columns hother => ?_⟩
  · rw [columns?_eq htables, columns?_mapTable schema table _ hfound]
    simp [Stmt.columnsAfter, hcolumns, Column.stored]
  · cases hcolumns.symm.trans hother
    exact hnew

/-! What each drop leaves, once it goes through. -/

theorem Schema.dropConstraint_eq_ok {ifTableExists ifExists : Bool} {table name : String}
    (h : schema.dropConstraint ifTableExists table ifExists name = .ok next) :
    ∃ kept, next = { schema with constraints := schema.constraints.filter kept } := by
  have hall : schema = { schema with constraints := schema.constraints.filter fun _ => true } := by
    rw [List.filter_eq_self.mpr fun _ _ => rfl]
  unfold dropConstraint at h
  split at h
  · split at h <;> cases h
    exact ⟨_, hall⟩
  split at h
  · split at h <;> cases h
    exact ⟨_, hall⟩
  split at h <;> cases h
  exact ⟨_, rfl⟩

theorem Schema.dropColumn_eq_ok {table column : String}
    (h : schema.dropColumn table column = .ok next) :
    ∃ found, schema.table? table = some found ∧ next = schema.withoutColumn table column ∧
      ∀ constraint ∈ schema.constraints,
        (constraint.refersTo table fun columns => column ∈ columns) = true →
        onColumn table column constraint.table constraint.columns = true := by
  unfold dropColumn at h
  split at h
  · cases h
  rename_i found hfound
  split at h
  · cases h
  split at h
  · cases h
  rename_i hdependents
  cases h
  refine ⟨found, hfound, rfl, fun constraint hmem hrefers => ?_⟩
  simp only [List.any_eq_true, not_exists, not_and, Bool.and_eq_true] at hdependents
  simpa using hdependents constraint hmem hrefers

theorem Schema.dropTable_eq_ok {ifExists cascade : Bool} {name : String}
    (h : schema.dropTable ifExists name cascade = .ok next) :
    (schema.table? name = none ∧ next = schema) ∨ next = schema.withoutTable name := by
  unfold dropTable at h
  split at h
  · rename_i hnone
    split at h <;> cases h
    exact .inl ⟨hnone, rfl⟩
  split at h <;> cases h
  exact .inr rfl

theorem Schema.dropColumn_step {table column : String}
    (h : schema.dropColumn table column = .ok next) : schema.Step next (.dropColumn table column) := by
  obtain ⟨found, hfound, rfl, -⟩ := dropColumn_eq_ok h
  refine ⟨?_, fun constraint hmem => .inl (List.mem_of_mem_filter hmem), trivial⟩
  refine (columns?_mapTable schema table _ hfound).trans ?_
  rw [Stmt.columnsAfter, table?_isSome hfound, Option.map_some, List.filter_map]
  rfl

theorem Schema.dropTable_step {ifExists cascade : Bool} {name : String}
    (h : schema.dropTable ifExists name cascade = .ok next) :
    schema.Step next (.dropTable ifExists name cascade) := by
  obtain ⟨hnone, rfl⟩ | rfl := dropTable_eq_ok h
  · have hcolumns : next.columns? name = none := by rw [columns?, hnone]; rfl
    exact ⟨(Function.update_eq_self_iff.mpr hcolumns.symm).symm, fun _ hmem => .inl hmem, trivial⟩
  refine ⟨?_, fun constraint hmem => .inl (List.mem_of_mem_filter hmem), trivial⟩
  funext table
  by_cases htable : table = name
  · subst htable
    simp [withoutTable, Stmt.columnsAfter, columns?, table?, List.find?_filter]
  · simp only [withoutTable, Stmt.columnsAfter, Function.update_of_ne htable, columns?, table?,
      List.find?_filter]
    congr 2
    funext other
    grind

/-- The effect of every statement on the columns and the constraints. -/
theorem Schema.exec_step (h : schema.exec stmt = .ok next) : schema.Step next stmt := by
  cases stmt with
  | createTable name columns => exact createTable_step h
  | addForeignKey table columns refTable refColumns =>
    change schema.addForeignKey table columns refTable refColumns = .ok next at h
    unfold addForeignKey at h
    split at h
    · cases h
    · cases h
    split at h
    · cases h
    split at h
    · cases h
    split at h
    · cases h
    cases h
    exact addConstraint_step rfl rfl trivial
  | addUnique table name columns =>
    change schema.addUnique table name columns = .ok next at h
    unfold addUnique at h
    split at h
    · cases h
    split at h
    · cases h
    split at h
    · cases h
    split at h
    · cases h
    cases h
    exact addConstraint_step rfl rfl trivial
  | addColumn table column => exact addColumn_step h
  | createIndex table columns =>
    change schema.createIndex table columns = .ok next at h
    unfold createIndex at h
    split at h
    · cases h
    split at h
    · cases h
    cases h
    exact ⟨rfl, fun _ hmem => .inl hmem, trivial⟩
  | commentOnColumn table column text =>
    change schema.commentOnColumn table column text = .ok next at h
    unfold commentOnColumn at h
    split at h
    · cases h
    split at h
    · cases h
    cases h
    exact ⟨rfl, fun _ hmem => .inl hmem, trivial⟩
  | dropConstraint ifTableExists table ifExists name =>
    obtain ⟨kept, rfl⟩ := dropConstraint_eq_ok h
    exact ⟨rfl, fun _ hmem => .inl (List.mem_of_mem_filter hmem), trivial⟩
  | dropColumn table column => exact dropColumn_step h
  | dropTable ifExists name cascade => exact dropTable_step h

end Columns

/-- The second schema has every table and column of the first. -/
def Schema.Within (small large : Schema) : Prop :=
  ∀ table columns, small.columns? table = some columns →
    ∃ others, large.columns? table = some others ∧ columns ⊆ others

section Content

variable {now : Int} {content : Content} {columns? : String → Option (List String)} {stmt : Stmt}
  {schema next : Schema} {stmts : List Stmt} {state final : State}

theorem Schema.Within.refl (schema : Schema) : schema.Within schema :=
  fun _ columns h => ⟨columns, h, List.Subset.refl _⟩

theorem Schema.Within.trans {a b c : Schema} (hab : a.Within b) (hbc : b.Within c) : a.Within c := by
  intro table columns h
  obtain ⟨middle, hmiddle, hsubset⟩ := hab table columns h
  obtain ⟨others, hothers, hsubset'⟩ := hbc table middle hmiddle
  exact ⟨others, hothers, List.Subset.trans hsubset hsubset'⟩

theorem Row.restrict_restrict {columns others : List String} (h : columns ⊆ others) (row : Row) :
    Row.restrict columns (Row.restrict others row) = Row.restrict columns row := by
  funext name
  unfold restrict
  split
  · rename_i hmem
    exact if_pos (h hmem)
  · rfl

theorem Row.erase_restrict (columns : List String) (column : String) (row : Row) :
    Function.update (Row.restrict columns row) column none =
      Row.restrict (columns.filter fun name => name ≠ column) row := by
  funext name
  by_cases hname : name = column
  · simp [restrict, hname]
  · simp [restrict, hname]

theorem Row.restrict_update {columns : List String} {column : String} (h : column ∉ columns)
    (row : Row) (value : Option Value) :
    Row.restrict columns (Function.update row column value) = Row.restrict columns row := by
  funext name
  unfold restrict
  split
  · rename_i hmem
    exact Function.update_of_ne (ne_of_mem_of_not_mem hmem h) ..
  · rfl

theorem Row.restrict_append {columns : List String} {column : String} {row : Row}
    (h : Row.restrict columns row = row) (value : Option Value) :
    Row.restrict (columns ++ [column]) (Function.update row column value) =
      Function.update row column value := by
  funext name
  by_cases hname : name = column
  · simp [restrict, hname]
  · rw [restrict, Function.update_of_ne hname, ← h]
    by_cases hmem : name ∈ columns <;> simp [restrict, hmem, hname]

/-- Rows that lie within these columns. -/
theorem Row.restrict_of_mem {columns : List String} {rows : List Row}
    (h : rows.map (Row.restrict columns) = rows) {row : Row} (hmem : row ∈ rows) :
    Row.restrict columns row = row := by
  obtain ⟨other, -, rfl⟩ := List.mem_map.mp (h ▸ hmem)
  exact Row.restrict_restrict (List.Subset.refl _) other

/-- Rows from which a column is dropped. -/
theorem Row.map_erase {columns : Option (List String)} {rows : List Row}
    (h : Row.restrictAll columns rows = rows) (column : String) :
    rows.map (fun row => Function.update row column none) =
      Row.restrictAll (columns.map fun names => names.filter fun name => name ≠ column) rows := by
  cases columns with
  | none =>
    rw [← h]
    rfl
  | some names =>
    refine List.map_congr_left fun row hmem => ?_
    rw [← Row.erase_restrict, Row.restrict_of_mem h hmem]

/-- Rows to which a column is added. -/
theorem Row.mapIdx_fill {columns : Option (List String)} {rows : List Row}
    (h : Row.restrictAll columns rows = rows) {column : String}
    (hnew : ∀ names, columns = some names → column ∉ names) (fill : Nat → Option Value) :
    Row.restrictAll columns (rows.mapIdx fun number row => Function.update row column (fill number)) =
        rows ∧
      Row.restrictAll (columns.map fun names => names ++ [column])
          (rows.mapIdx fun number row => Function.update row column (fill number)) =
        rows.mapIdx fun number row => Function.update row column (fill number) := by
  cases columns with
  | none =>
    rw [← h]
    exact ⟨rfl, rfl⟩
  | some names =>
    have hrow : ∀ number (hlt : number < rows.length), Row.restrict names rows[number] = rows[number] :=
      fun number hlt => Row.restrict_of_mem h (List.getElem_mem hlt)
    constructor
    · refine List.ext_getElem (by simp [restrictAll]) fun number _ hlt => ?_
      simp only [restrictAll, List.getElem_map, List.getElem_mapIdx]
      exact (Row.restrict_update (hnew names rfl) _ _).trans (hrow number hlt)
    · refine List.ext_getElem (by simp [restrictAll]) fun number _ hlt => ?_
      simp only [restrictAll, Option.map_some, List.getElem_map, List.getElem_mapIdx]
      exact Row.restrict_append (hrow number (by simpa using hlt)) _

theorem Content.restrictTo_update (columns? : String → Option (List String)) (content : Content)
    (table : String) (columns : Option (List String)) (rows : List Row) :
    Content.restrictTo (Function.update columns? table columns) (Function.update content table rows) =
      Function.update (content.restrictTo columns?) table (Row.restrictAll columns rows) := by
  funext other
  by_cases hother : other = table
  · subst hother
    simp [restrictTo]
  · simp [restrictTo, hother]

theorem Content.restrictTo_update_rows (columns? : String → Option (List String)) (content : Content)
    (table : String) (rows : List Row) :
    Content.restrictTo columns? (Function.update content table rows) =
      Function.update (content.restrictTo columns?) table (Row.restrictAll (columns? table) rows) := by
  rw [← restrictTo_update, Function.update_eq_self]

theorem Content.restrictTo_update_columns (columns? : String → Option (List String))
    (content : Content) (table : String) (columns : Option (List String)) :
    Content.restrictTo (Function.update columns? table columns) content =
      Function.update (content.restrictTo columns?) table
        (Row.restrictAll columns (content table)) := by
  rw [← restrictTo_update, Function.update_eq_self]

theorem Content.restrict_restrict (h : next.Within schema) :
    (content.restrict schema).restrict next = content.restrict next := by
  funext table
  simp only [restrict, restrictTo]
  cases hcolumns : next.columns? table with
  | none => rfl
  | some columns =>
    obtain ⟨others, hothers, hsubset⟩ := h table columns hcolumns
    simp only [hothers, Row.restrictAll, List.map_map]
    exact List.map_congr_left fun row _ => Row.restrict_restrict hsubset row

theorem within_of_drops (hdrops : stmt.drops = true) (hstep : schema.Step next stmt) :
    next.Within schema := by
  intro table columns hcolumns
  rw [hstep.columns] at hcolumns
  cases stmt with
  | dropConstraint _ _ _ _ => exact ⟨columns, hcolumns, List.Subset.refl _⟩
  | dropColumn owner column =>
    by_cases htable : table = owner
    · subst htable
      simp only [Stmt.columnsAfter, Function.update_self, Option.map_eq_some_iff] at hcolumns
      obtain ⟨others, hothers, rfl⟩ := hcolumns
      exact ⟨others, hothers, fun _ hmem => List.mem_of_mem_filter hmem⟩
    · simp only [Stmt.columnsAfter, Function.update_of_ne htable] at hcolumns
      exact ⟨columns, hcolumns, List.Subset.refl _⟩
  | dropTable _ name _ =>
    by_cases htable : table = name
    · subst htable
      simp [Stmt.columnsAfter] at hcolumns
    · simp only [Stmt.columnsAfter, Function.update_of_ne htable] at hcolumns
      exact ⟨columns, hcolumns, List.Subset.refl _⟩
  | _ => cases hdrops

theorem within_of_adds (hadds : stmt.adds = true) (hstep : schema.Step next stmt) :
    schema.Within next := by
  intro table columns hcolumns
  rw [hstep.columns]
  have hfresh := hstep.fresh
  cases stmt with
  | createTable name _ =>
    have htable : table ≠ name := by
      rintro rfl
      cases hcolumns.symm.trans hfresh
    exact ⟨columns, (Function.update_of_ne htable ..).trans hcolumns, List.Subset.refl _⟩
  | addColumn owner column =>
    by_cases htable : table = owner
    · subst htable
      exact ⟨columns ++ [column.name], by simp [Stmt.columnsAfter, hcolumns],
        List.subset_append_left ..⟩
    · exact ⟨columns, (Function.update_of_ne htable ..).trans hcolumns, List.Subset.refl _⟩
  | dropConstraint _ _ _ _ | dropColumn _ _ | dropTable _ _ _ => cases hadds
  | _ => exact ⟨columns, hcolumns, List.Subset.refl _⟩

/-- A dropped column or table is all that goes. -/
theorem apply_of_drops (hdrops : stmt.drops = true) (hshaped : content.restrictTo columns? = content) :
    stmt.apply now content = content.restrictTo (stmt.columnsAfter columns?) := by
  cases stmt with
  | dropConstraint _ _ _ _ => exact hshaped.symm
  | dropColumn table column =>
    rw [Stmt.columnsAfter, Content.restrictTo_update_columns, hshaped,
      ← Row.map_erase (congrFun hshaped table)]
    rfl
  | dropTable _ name _ =>
    rw [Stmt.columnsAfter, Content.restrictTo_update_columns, hshaped]
    rfl
  | _ => cases hdrops

/-- What was there before an addition is still there. -/
theorem apply_of_adds (hadds : stmt.adds = true) (hfresh : stmt.Fresh columns?)
    (hshaped : content.restrictTo columns? = content) :
    (stmt.apply now content).restrictTo columns? = content ∧
      (stmt.apply now content).restrictTo (stmt.columnsAfter columns?) = stmt.apply now content := by
  cases stmt with
  | createTable name columns =>
    have hempty : content name = [] := by
      rw [← hshaped, Content.restrictTo, show columns? name = none from hfresh]
      rfl
    rw [Stmt.apply, Stmt.columnsAfter, Content.restrictTo_update_rows, Content.restrictTo_update,
      hshaped, show columns? name = none from hfresh]
    exact ⟨Function.update_eq_self_iff.mpr hempty.symm, rfl⟩
  | addColumn table column =>
    obtain ⟨hback, hfilled⟩ := Row.mapIdx_fill (congrFun hshaped table) hfresh
      fun number => some (column.fill now number)
    rw [Stmt.apply, Stmt.columnsAfter, Content.restrictTo_update_rows, Content.restrictTo_update,
      hshaped, hback, hfilled]
    exact ⟨Function.update_eq_self table content, rfl⟩
  | dropConstraint _ _ _ _ | dropColumn _ _ | dropTable _ _ _ => cases hadds
  | _ => exact ⟨hshaped, hshaped⟩

/-- A statement goes through if the schema allows it, the rows meet the
constraints it adds, and its new column has a value in each of them. -/
theorem exec_eq_ok : exec now state stmt = .ok final ↔
    state.schema.exec stmt = .ok final.schema ∧ final.content = stmt.apply now state.content ∧
      (∀ constraint ∈ final.schema.constraints, constraint ∉ state.schema.constraints →
        constraint.Holds final.content) ∧ stmt.unfilled now state.content = none := by
  unfold exec
  cases hschema : state.schema.exec stmt with
  | error err => simp
  | ok schema =>
  dsimp only
  cases hfind : schema.constraints.find? fun constraint => constraint ∉ state.schema.constraints &&
      ¬constraint.Holds (stmt.apply now state.content) with
  | some constraint =>
    have hbroken := List.find?_some hfind
    simp only [decide_not, Bool.and_eq_true, Bool.not_eq_true', decide_eq_false_iff_not] at hbroken
    refine ⟨fun h => (by cases h), ?_⟩
    rintro ⟨hok, hcontent, hholds, -⟩
    cases hok
    exact (hbroken.2 (hcontent ▸ hholds constraint (List.mem_of_find?_eq_some hfind) hbroken.1)).elim
  | none =>
    have hholds : ∀ constraint ∈ schema.constraints, constraint ∉ state.schema.constraints →
        constraint.Holds (stmt.apply now state.content) := by
      simpa using List.find?_eq_none.mp hfind
    dsimp only
    cases hunfilled : stmt.unfilled now state.content with
    | some column => simp
    | none =>
      obtain ⟨finalSchema, finalContent⟩ := final
      simp only [Except.ok.injEq, State.mk.injEq, and_true]
      constructor
      · rintro ⟨rfl, rfl⟩
        exact ⟨rfl, rfl, hholds⟩
      · rintro ⟨rfl, rfl, -⟩
        exact ⟨rfl, rfl⟩

theorem Schema.run_cons_eq_ok : schema.run (stmt :: stmts) = .ok next ↔
    ∃ middle, schema.exec stmt = .ok middle ∧ middle.run stmts = .ok next := by
  rw [run]
  cases schema.exec stmt with
  | error err => exact ⟨nofun, nofun⟩
  | ok middle => exact ⟨fun h => ⟨middle, rfl, h⟩, fun ⟨_, hmiddle, h⟩ => by cases hmiddle; exact h⟩

theorem run_cons_eq_ok : run now state (stmt :: stmts) = .ok final ↔
    ∃ middle, exec now state stmt = .ok middle ∧ run now middle stmts = .ok final := by
  rw [run]
  cases exec now state stmt with
  | error err => exact ⟨nofun, nofun⟩
  | ok middle => exact ⟨fun h => ⟨middle, rfl, h⟩, fun ⟨_, hmiddle, h⟩ => by cases hmiddle; exact h⟩

theorem Stmt.constrains_of_drops (hdrops : stmt.drops = true) : stmt.constrains = none := by
  cases stmt with
  | dropConstraint _ _ _ _ | dropColumn _ _ | dropTable _ _ _ => rfl
  | _ => cases hdrops

theorem Stmt.unfilled_of_drops (hdrops : stmt.drops = true) : stmt.unfilled now content = none := by
  cases stmt with
  | dropConstraint _ _ _ _ | dropColumn _ _ | dropTable _ _ _ => rfl
  | _ => cases hdrops

/-- Nothing stands in the way of a drop but the schema. -/
theorem exec_of_drops (hdrops : stmt.drops = true) (h : schema.exec stmt = .ok next) :
    exec now ⟨schema, content⟩ stmt = .ok ⟨next, stmt.apply now content⟩ := by
  refine exec_eq_ok.mpr ⟨h, rfl, fun constraint hmem hnew => ?_, Stmt.unfilled_of_drops hdrops⟩
  rcases (Schema.exec_step h).constraints constraint hmem with hold | hconstrains
  · exact (hnew hold).elim
  · rw [Stmt.constrains_of_drops hdrops] at hconstrains
    cases hconstrains

theorem Schema.within_of_run_drops (hdrops : ∀ stmt ∈ stmts, stmt.drops = true)
    (hrun : schema.run stmts = .ok next) : next.Within schema := by
  induction stmts generalizing schema with
  | nil =>
    cases hrun
    exact .refl _
  | cons stmt stmts ih =>
    obtain ⟨middle, hexec, hrest⟩ := run_cons_eq_ok.mp hrun
    have hwithin := ih (fun other hmem => hdrops other (List.mem_cons_of_mem _ hmem)) hrest
    exact hwithin.trans (within_of_drops (hdrops stmt List.mem_cons_self) (exec_step hexec))

/-- Whether a drop leaves these columns alone. -/
def Stmt.keeps (table : String) (columns : List String) : Stmt → Prop
  | .dropColumn owner column => table = owner → column ∉ columns
  | .dropTable _ name _ => table ≠ name
  | _ => True

def Constraint.kept (constraint : Constraint) (stmt : Stmt) : Prop :=
  stmt.keeps constraint.table constraint.columns ∧ ∀ refTable refColumns,
    constraint.kind = .foreignKey refTable refColumns → stmt.keeps refTable refColumns

theorem Row.key_update {columns : List String} {column : String} (h : column ∉ columns) (row : Row)
    (value : Option Value) : Row.key columns (Function.update row column value) = Row.key columns row := by
  unfold key
  induction columns with
  | nil => rfl
  | cons name columns ih =>
    obtain ⟨hname, hcolumns⟩ := List.ne_and_not_mem_of_not_mem_cons h
    simp only [List.mapM_cons, Function.update_of_ne (Ne.symm hname), ih hcolumns]

theorem keys_of_keeps {table : String} {columns : List String} (hdrops : stmt.drops = true)
    (h : stmt.keeps table columns) :
    (stmt.apply now content).keys table columns = content.keys table columns := by
  cases stmt with
  | dropConstraint _ _ _ _ => rfl
  | dropColumn owner column =>
    unfold Content.keys
    by_cases howner : table = owner
    · subst howner
      simp only [Stmt.apply, Function.update_self, List.filterMap_map]
      congr 1
      funext row
      exact Row.key_update (h rfl) row none
    · simp only [Stmt.apply, Function.update_of_ne howner]
  | dropTable _ name _ => simp only [Content.keys, Stmt.apply, Function.update_of_ne h]
  | _ => cases hdrops

theorem holds_of_kept {constraint : Constraint} (hdrops : stmt.drops = true)
    (h : constraint.kept stmt) (hholds : constraint.Holds content) :
    constraint.Holds (stmt.apply now content) := by
  obtain ⟨hkeys, href⟩ := h
  unfold Constraint.Holds at hholds ⊢
  cases hkind : constraint.kind with
  | primaryKey | unique =>
    simp only [hkind] at hholds ⊢
    rwa [keys_of_keeps hdrops hkeys]
  | foreignKey refTable refColumns =>
    simp only [hkind] at hholds ⊢
    rwa [keys_of_keeps hdrops hkeys, keys_of_keeps hdrops (href refTable refColumns hkind)]

/-- A constraint that a drop would break goes with it, or stands in its way. -/
theorem exec_kept (hdrops : stmt.drops = true) (h : schema.exec stmt = .ok next)
    {constraint : Constraint} (hmem : constraint ∈ next.constraints) :
    constraint ∈ schema.constraints ∧ (next = schema ∨ constraint.kept stmt) := by
  have hold : constraint ∈ schema.constraints := by
    refine ((Schema.exec_step h).constraints constraint hmem).resolve_right fun hconstrains => ?_
    rw [Stmt.constrains_of_drops hdrops] at hconstrains
    cases hconstrains
  refine ⟨hold, ?_⟩
  cases stmt with
  | dropConstraint _ _ _ _ => exact .inr ⟨trivial, fun _ _ _ => trivial⟩
  | dropColumn table column =>
    obtain ⟨found, -, rfl, hdependents⟩ := Schema.dropColumn_eq_ok h
    obtain ⟨-, hown⟩ := List.mem_filter.mp hmem
    have hown : Schema.onColumn table column constraint.table constraint.columns = false := by
      simpa using hown
    refine .inr ⟨fun htable hcolumn => ?_, fun refTable refColumns hkind htable hcolumn => ?_⟩
    · simp [Schema.onColumn, htable, hcolumn] at hown
    · have hrefers := hdependents constraint hold (by simp [Constraint.refersTo, hkind, htable, hcolumn])
      cases hown.symm.trans hrefers
  | dropTable ifExists name cascade =>
    obtain ⟨-, rfl⟩ | rfl := Schema.dropTable_eq_ok h
    · exact .inl rfl
    obtain ⟨-, hkept⟩ := List.mem_filter.mp hmem
    obtain ⟨htable, hrefers⟩ := Bool.and_eq_true_iff.mp hkept
    have htable : constraint.table ≠ name := of_decide_eq_true htable
    refine .inr ⟨htable, fun refTable refColumns hkind hname => ?_⟩
    simp [Constraint.refersTo, hkind, hname] at hrefers
  | _ => cases hdrops

/-- The tables that a drop leaves, and the columns it leaves them. -/
theorem exec_tables (hdrops : stmt.drops = true) (h : schema.exec stmt = .ok next)
    {table : TableDef} (hmem : table ∈ next.tables) :
    ∃ old ∈ schema.tables, old.name = table.name ∧ ∀ column ∈ table.columns, column ∈ old.columns ∧
      (next = schema ∨ stmt.keeps table.name [column.name]) := by
  cases stmt with
  | dropConstraint ifTableExists owner ifExists name =>
    obtain ⟨kept, rfl⟩ := Schema.dropConstraint_eq_ok h
    exact ⟨table, hmem, rfl, fun column hcolumn => ⟨hcolumn, .inr trivial⟩⟩
  | dropColumn owner column =>
    obtain ⟨found, -, rfl, -⟩ := Schema.dropColumn_eq_ok h
    obtain ⟨old, hold, rfl⟩ := List.mem_map.mp hmem
    refine ⟨old, hold, by split <;> rfl, fun other hother => ?_⟩
    split at hother
    · obtain ⟨hcolumn, hne⟩ := List.mem_filter.mp hother
      refine ⟨hcolumn, .inr fun _ hdropped => ?_⟩
      simp [List.mem_singleton.mp hdropped] at hne
    · rename_i hname
      rw [if_neg hname]
      exact ⟨hother, .inr fun howner => (hname howner).elim⟩
  | dropTable ifExists name cascade =>
    obtain ⟨-, rfl⟩ | rfl := Schema.dropTable_eq_ok h
    · exact ⟨table, hmem, rfl, fun column hcolumn => ⟨hcolumn, .inl rfl⟩⟩
    obtain ⟨hold, hname⟩ := List.mem_filter.mp hmem
    have hname : table.name ≠ name := of_decide_eq_true hname
    exact ⟨table, hold, rfl, fun column hcolumn => ⟨hcolumn, .inr hname⟩⟩
  | _ => cases hdrops

theorem exists_row_of_keeps (hdrops : stmt.drops = true) {table name : String}
    (h : stmt.keeps table [name]) {row : Row} (hrow : row ∈ stmt.apply now content table) :
    ∃ other ∈ content table, other name = row name := by
  cases stmt with
  | dropConstraint _ _ _ _ => exact ⟨row, hrow, rfl⟩
  | dropColumn owner column =>
    by_cases howner : table = owner
    · subst howner
      simp only [Stmt.apply, Function.update_self] at hrow
      obtain ⟨other, hother, rfl⟩ := List.mem_map.mp hrow
      have hname : name ≠ column := fun hname => h rfl (List.mem_singleton.mpr hname.symm)
      exact ⟨other, hother, (Function.update_of_ne hname ..).symm⟩
    · simp only [Stmt.apply, Function.update_of_ne howner] at hrow
      exact ⟨row, hrow, rfl⟩
  | dropTable _ owner _ =>
    simp only [Stmt.apply, Function.update_of_ne h] at hrow
    exact ⟨row, hrow, rfl⟩
  | _ => cases hdrops

theorem apply_eq_restrict (hdrops : stmt.drops = true) (h : schema.exec stmt = .ok next)
    (hshaped : content.restrict schema = content) :
    stmt.apply now content = content.restrict next := by
  rw [Content.restrict, (Schema.exec_step h).columns]
  exact apply_of_drops hdrops hshaped

/-- What is left after a drop fits the schema that is left. -/
theorem Satisfies.exec_of_drops (hsat : Satisfies schema content) (hdrops : stmt.drops = true)
    (h : schema.exec stmt = .ok next) : Satisfies next (content.restrict next) := by
  have happly : stmt.apply 0 content = content.restrict next := apply_eq_restrict hdrops h hsat.shaped
  refine ⟨Content.restrict_restrict (.refl next), ?_, fun constraint hmem => ?_⟩
  · intro table htable row hrow column hcolumn
    obtain ⟨old, hold, hname, hcolumns⟩ := exec_tables hdrops h htable
    obtain ⟨hmem, rfl | hkeeps⟩ := hcolumns column hcolumn
    · rw [hsat.shaped] at hrow
      exact hsat.typed table htable row hrow column hcolumn
    · rw [← happly] at hrow
      obtain ⟨other, hother, hvalue⟩ := exists_row_of_keeps hdrops hkeeps hrow
      rw [← hvalue]
      exact hsat.typed old hold other (hname ▸ hother) column hmem
  · obtain ⟨hold, rfl | hkept⟩ := exec_kept hdrops h hmem
    · rw [hsat.shaped]
      exact hsat.constraints constraint hold
    · rw [← happly]
      exact holds_of_kept hdrops hkept (hsat.constraints constraint hold)

/-- A script of drops that the schema allows goes through on any content, and
leaves it as far as the schema that is left goes. -/
theorem run_drops (hdrops : ∀ stmt ∈ stmts, stmt.drops = true)
    (hshaped : content.restrict schema = content) (hrun : schema.run stmts = .ok next) :
    run now ⟨schema, content⟩ stmts = .ok ⟨next, content.restrict next⟩ := by
  induction stmts generalizing schema content with
  | nil =>
    cases hrun
    rw [hshaped]
    rfl
  | cons stmt stmts ih =>
    obtain ⟨middle, hexec, hrest⟩ := Schema.run_cons_eq_ok.mp hrun
    have hstmt := hdrops stmt List.mem_cons_self
    have hothers : ∀ other ∈ stmts, other.drops = true :=
      fun other hmem => hdrops other (List.mem_cons_of_mem _ hmem)
    refine run_cons_eq_ok.mpr ⟨_, exec_of_drops hstmt hexec, ?_⟩
    rw [apply_eq_restrict hstmt hexec hshaped, ih hothers (Content.restrict_restrict (.refl middle)) hrest,
      Content.restrict_restrict (Schema.within_of_run_drops hothers hrest)]

/-- What they leave fits the schema that is left. -/
theorem Satisfies.run_drops (hsat : Satisfies schema content)
    (hdrops : ∀ stmt ∈ stmts, stmt.drops = true) (hrun : schema.run stmts = .ok next) :
    Satisfies next (content.restrict next) := by
  induction stmts generalizing schema content with
  | nil =>
    cases hrun
    rw [hsat.shaped]
    exact hsat
  | cons stmt stmts ih =>
    obtain ⟨middle, hexec, hrest⟩ := Schema.run_cons_eq_ok.mp hrun
    have hothers : ∀ other ∈ stmts, other.drops = true :=
      fun other hmem => hdrops other (List.mem_cons_of_mem _ hmem)
    rw [← Content.restrict_restrict (Schema.within_of_run_drops hothers hrest)]
    exact ih (hsat.exec_of_drops (hdrops stmt List.mem_cons_self) hexec) hothers hrest

/-- A script of additions that goes through leaves what was there before. -/
theorem run_adds (hadds : ∀ stmt ∈ stmts, stmt.adds = true)
    (hshaped : state.content.restrict state.schema = state.content)
    (hrun : run now state stmts = .ok final) :
    state.schema.run stmts = .ok final.schema ∧ state.schema.Within final.schema ∧
      final.content.restrict state.schema = state.content ∧
      final.content.restrict final.schema = final.content := by
  induction stmts generalizing state with
  | nil =>
    cases hrun
    exact ⟨rfl, .refl _, hshaped, hshaped⟩
  | cons stmt stmts ih =>
    obtain ⟨next, hexec, hrest⟩ := run_cons_eq_ok.mp hrun
    obtain ⟨hschema, hcontent, -, -⟩ := exec_eq_ok.mp hexec
    have hstmt := hadds stmt List.mem_cons_self
    have hstep := Schema.exec_step hschema
    obtain ⟨hback, hnext⟩ := apply_of_adds hstmt hstep.fresh hshaped
    rw [← hcontent, ← hstep.columns] at hnext
    rw [← hcontent] at hback
    obtain ⟨hschemas, hwithin, hsame, hfinal⟩ :=
      ih (fun other hmem => hadds other (List.mem_cons_of_mem _ hmem)) hnext hrest
    have hfirst := within_of_adds hstmt hstep
    refine ⟨Schema.run_cons_eq_ok.mpr ⟨_, hschema, hschemas⟩, hfirst.trans hwithin, ?_, hfinal⟩
    rw [← Content.restrict_restrict hfirst, hsame]
    exact hback

end Content

/-- A default that is not null. -/
def Column.filled (column : Column) : Bool :=
  column.type = .bigserial || column.default.any fun default => default ≠ .literal .null

/-- Whether a statement goes through whatever the rows are, some tables being empty. -/
def Stmt.safe (empty : List String) : Stmt → Bool
  | .addForeignKey table _ _ _ | .addUnique table _ _ => table ∈ empty
  | .addColumn _ column => !column.notNull || column.filled
  | _ => true

/-- A statement leaves empty what was empty, and what it creates. -/
def Stmt.emptyAfter (empty : List String) : Stmt → List String
  | .createTable name _ => name :: empty
  | _ => empty

/-- A script puts constraints on empty tables only, and no null where none may be. -/
def safe : List String → List Stmt → Bool
  | _, [] => true
  | empty, stmt :: stmts => stmt.safe empty && safe (stmt.emptyAfter empty) stmts

section Safe

variable {now : Int} {content : Content} {empty : List String} {stmt : Stmt} {schema next : Schema}
  {stmts : List Stmt}

theorem Constraint.holds_of_empty {constraint : Constraint} (h : content constraint.table = []) :
    constraint.Holds content := by
  obtain ⟨name, table, columns, kind⟩ := constraint
  have hkeys : content.keys table columns = [] := by rw [Content.keys, h]; rfl
  cases kind with
  | primaryKey | unique =>
    show (content.keys table columns).Nodup
    rw [hkeys]
    exact .nil
  | foreignKey refTable refColumns =>
    intro key hmem
    rw [hkeys] at hmem
    cases hmem

theorem Column.fill_ne_null {column : Column} (h : column.filled = true) (number : Nat) :
    column.fill now number ≠ .null := by
  unfold fill
  split
  · simp
  rename_i htype
  simp only [filled, htype, decide_false, Bool.false_or] at h
  cases hdefault : column.default with
  | none => simp [hdefault] at h
  | some default =>
    cases default with
    | literal value => simpa [hdefault, Default.eval] using h
    | now offset => simp [Default.eval]

theorem Stmt.empty_apply (hempty : ∀ table ∈ empty, content table = []) :
    ∀ table ∈ stmt.emptyAfter empty, stmt.apply now content table = [] := by
  intro table hmem
  have hupdate : ∀ owner rows, (content owner = [] → rows = []) → table ∈ empty →
      Function.update content owner rows table = [] := by
    intro owner rows hrows hmem
    by_cases howner : table = owner
    · subst howner
      rw [Function.update_self]
      exact hrows (hempty table hmem)
    · rw [Function.update_of_ne howner]
      exact hempty table hmem
  cases stmt with
  | createTable name _ =>
    rcases List.mem_cons.mp hmem with rfl | hmem
    · exact Function.update_self ..
    · exact hupdate name [] (fun _ => rfl) hmem
  | dropTable _ name _ => exact hupdate name [] (fun _ => rfl) hmem
  | addColumn owner column => exact hupdate owner _ (fun h => by rw [h]; rfl) hmem
  | dropColumn owner column => exact hupdate owner _ (fun h => by rw [h]; rfl) hmem
  | _ => exact hempty table hmem

theorem exec_of_safe (hempty : ∀ table ∈ empty, content table = [])
    (hsafe : stmt.safe empty = true) (h : schema.exec stmt = .ok next) :
    exec now ⟨schema, content⟩ stmt = .ok ⟨next, stmt.apply now content⟩ := by
  refine exec_eq_ok.mpr ⟨h, rfl, fun constraint hmem hnew => ?_, ?_⟩
  · rcases (Schema.exec_step h).constraints constraint hmem with hold | hconstrains
    · exact (hnew hold).elim
    refine Constraint.holds_of_empty (Stmt.empty_apply hempty _ ?_)
    cases stmt with
    | createTable name _ =>
      cases hconstrains
      exact List.mem_cons_self
    | addForeignKey _ _ _ _ | addUnique _ _ _ =>
      cases hconstrains
      exact of_decide_eq_true hsafe
    | _ => cases hconstrains
  · cases stmt with
    | addColumn table column =>
      simp only [Stmt.safe, Bool.or_eq_true, Bool.not_eq_true'] at hsafe
      rcases hsafe with hnull | hfilled
      · simp [Stmt.unfilled, hnull]
      · simp [Stmt.unfilled, Column.fill_ne_null hfilled]
    | _ => rfl

/-- Then nothing stands in its way but the schema. -/
theorem run_safe (hempty : ∀ table ∈ empty, content table = []) (hsafe : safe empty stmts = true)
    (hrun : schema.run stmts = .ok next) :
    ∃ final, run now ⟨schema, content⟩ stmts = .ok ⟨next, final⟩ := by
  induction stmts generalizing schema content empty with
  | nil =>
    cases hrun
    exact ⟨content, rfl⟩
  | cons stmt stmts ih =>
    obtain ⟨middle, hexec, hrest⟩ := Schema.run_cons_eq_ok.mp hrun
    obtain ⟨hstmt, hstmts⟩ := Bool.and_eq_true_iff.mp hsafe
    obtain ⟨final, hfinal⟩ := ih (Stmt.empty_apply hempty) hstmts hrest
    exact ⟨final, run_cons_eq_ok.mpr ⟨_, exec_of_safe hempty hstmt hexec, hfinal⟩⟩

end Safe
end SimpleBank.Library.Ddl
