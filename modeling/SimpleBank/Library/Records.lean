import SimpleBank.Library.Rollback

/-! Records as the rows of a table: what each column reads, and the round trip
between records and the rows that fit the columns. -/
namespace SimpleBank.Library.Ddl

namespace Row

/-- A row written out column by column. -/
def of (values : List (String × Value)) : Row := fun name => values.lookup name

def text (row : Row) (name : String) : Option String :=
  match row name with
  | some (.varchar text) => some text
  | _ => none

def number (row : Row) (name : String) : Option Int64 :=
  match row name with
  | some (.bigint number) => some number
  | _ => none

def time (row : Row) (name : String) : Option Int :=
  match row name with
  | some (.timestamptz time) => some time
  | _ => none

def flag (row : Row) (name : String) : Option Bool :=
  match row name with
  | some (.boolean flag) => some flag
  | _ => none

def bits (row : Row) (name : String) : Option (BitVec 128) :=
  match row name with
  | some (.uuid bits) => some bits
  | _ => none

section Reads

variable {row : Row} {name : String}

@[simp] theorem text_eq_some {text : String} :
    row.text name = some text ↔ row name = some (.varchar text) := by
  unfold Row.text
  split <;> simp_all

@[simp] theorem number_eq_some {number : Int64} :
    row.number name = some number ↔ row name = some (.bigint number) := by
  unfold Row.number
  split <;> simp_all

@[simp] theorem time_eq_some {time : Int} :
    row.time name = some time ↔ row name = some (.timestamptz time) := by
  unfold Row.time
  split <;> simp_all

@[simp] theorem flag_eq_some {flag : Bool} :
    row.flag name = some flag ↔ row name = some (.boolean flag) := by
  unfold Row.flag
  cases flag <;> split <;> simp_all

@[simp] theorem bits_eq_some {bits : BitVec 128} :
    row.bits name = some bits ↔ row name = some (.uuid bits) := by
  unfold Row.bits
  split <;> simp_all

end Reads

/-- A row has no values but those of these columns. -/
theorem restrict_of {values : List (String × Value)} :
    restrict (values.map Prod.fst) (of values) = of values := by
  funext name
  unfold restrict
  split
  · rfl
  · rename_i hname
    refine (List.lookup_eq_none_iff.mpr fun value hmem => ?_).symm
    refine bne_iff_ne.mpr ?_
    rintro rfl
    exact hname (List.mem_map_of_mem hmem)

/-- A row is what it has in its columns. -/
theorem eq_of {values : List (String × Value)} {row : Row}
    (hshaped : restrict (values.map Prod.fst) row = row)
    (hvalues : ∀ value ∈ values, row value.1 = some value.2) : of values = row := by
  funext name
  unfold of
  cases hlookup : values.lookup name with
  | some value =>
    obtain ⟨before, after, rfl, -⟩ := List.lookup_eq_some_iff.mp hlookup
    exact (hvalues (name, value) (List.mem_append_right _ List.mem_cons_self)).symm
  | none =>
    have hname : name ∉ values.map Prod.fst := by
      intro hmem
      obtain ⟨value, hvalue, rfl⟩ := List.mem_map.mp hmem
      simpa using List.lookup_eq_none_iff.mp hlookup value hvalue
    rw [← hshaped, restrict, if_neg hname]

end Row

/-- The row has a value of this type in the column. -/
def Row.Reads (row : Row) (name : String) : ColumnType → Prop
  | .varchar => ∃ text, row name = some (.varchar text)
  | .bigint | .bigserial => ∃ number, row name = some (.bigint number)
  | .timestamptz => ∃ time, row name = some (.timestamptz time)
  | .boolean => ∃ flag, row name = some (.boolean flag)
  | .uuid => ∃ bits, row name = some (.uuid bits)

/-- A column that is never null. -/
theorem Row.reads_of_admits {column : Column} {row : Row} (hnotNull : column.notNull = true)
    (h : (row column.name).any column.admits = true) : row.Reads column.name column.type := by
  obtain ⟨value, hvalue, hadmits⟩ := (Option.any_eq_true ..).mp h
  obtain ⟨htype, hnull⟩ := Bool.and_eq_true_iff.mp hadmits
  have hnull : value ≠ .null := by
    rintro rfl
    simp [hnotNull] at hnull
  revert htype
  cases column.type <;> cases value <;>
    first | exact absurd rfl hnull | exact fun _ => ⟨_, hvalue⟩ | simp [ColumnType.hasValue]

theorem Row.admits_of_reads {column : Column} {row : Row} (h : row.Reads column.name column.type) :
    (row column.name).any column.admits = true := by
  obtain ⟨name, type, notNull, default⟩ := column
  dsimp only at h ⊢
  cases type <;> obtain ⟨value, hvalue⟩ := h <;> rw [hvalue] <;>
    simp [Column.admits, ColumnType.hasValue]

theorem Schema.table?_of_mem {schema : Schema} {table : TableDef}
    (hnames : (schema.tables.map TableDef.name).Nodup) (hmem : table ∈ schema.tables) :
    schema.table? table.name = some table := by
  cases hfind : schema.table? table.name with
  | none => simpa using List.find?_eq_none.mp hfind table hmem
  | some found =>
    have hname : found.name = table.name := by simpa using List.find?_some hfind
    rw [List.inj_on_of_nodup_map hnames (List.mem_of_find?_eq_some hfind) hmem hname]

/-- A table that the schema does not have is empty. -/
theorem Satisfies.empty_of_not_mem {schema : Schema} {content : Content} {table : String}
    (h : Satisfies schema content) (hmem : table ∉ schema.tables.map TableDef.name) :
    content table = [] := by
  have hnone : schema.table? table = none :=
    List.find?_eq_none.mpr fun found hfound => by
      simpa using fun hname : found.name = table => hmem (hname ▸ List.mem_map_of_mem hfound)
  rw [← h.shaped]
  show Row.restrictAll ((schema.table? table).map _) (content table) = []
  rw [hnone]
  rfl

/-- How the rows of a table stand for records. -/
structure RowCodec (ρ : Type) where
  columns : List (String × ColumnType)
  values : ρ → List (String × Value)
  decode : Row → Option ρ
  /-- The records that the columns have room for. -/
  valid : ρ → Prop
  names : ∀ record, (values record).map Prod.fst = columns.map Prod.fst
  reads : ∀ record, ∀ column ∈ columns, (Row.of (values record)).Reads column.1 column.2
  decode_encode : ∀ record, valid record → decode (Row.of (values record)) = some record
  exists_record : ∀ row, Row.restrict (columns.map Prod.fst) row = row →
    (∀ column ∈ columns, row.Reads column.1 column.2) →
    ∃ record, valid record ∧ Row.of (values record) = row

namespace RowCodec

variable {ρ : Type} (codec : RowCodec ρ)

def encode (record : ρ) : Row := Row.of (codec.values record)

/-- The table has the columns of the codec, and none of them may be null. -/
def Describes (table : TableDef) : Prop :=
  table.columns.map (fun column => (column.name, column.type)) = codec.columns ∧
    ∀ column ∈ table.columns, column.notNull = true

instance (table : TableDef) : Decidable (codec.Describes table) := inferInstanceAs (Decidable (_ ∧ _))

/-- The schema has such a table under this name. -/
def Fits (schema : Schema) (name : String) : Prop :=
  (schema.table? name).any fun table => codec.Describes table

instance (schema : Schema) (name : String) : Decidable (codec.Fits schema name) :=
  inferInstanceAs (Decidable (_ = true))

theorem map_inj {records others : List ρ} (hrecords : ∀ record ∈ records, codec.valid record)
    (hothers : ∀ record ∈ others, codec.valid record)
    (h : records.map codec.encode = others.map codec.encode) : records = others := by
  have decoded : ∀ {records : List ρ}, (∀ record ∈ records, codec.valid record) →
      (records.map codec.encode).map codec.decode = records.map some := by
    intro records hvalid
    rw [List.map_map]
    exact List.map_congr_left fun record hmem => codec.decode_encode record (hvalid record hmem)
  have hsome : records.map some = others.map some := by rw [← decoded hrecords, h, decoded hothers]
  exact List.map_injective_iff.mpr (fun _ _ => Option.some.inj) hsome

theorem restrictAll_map (records : List ρ) :
    Row.restrictAll (some (codec.columns.map Prod.fst)) (records.map codec.encode) =
      records.map codec.encode := by
  rw [Row.restrictAll, List.map_map]
  refine List.map_congr_left fun record _ => ?_
  rw [Function.comp, ← codec.names record]
  exact Row.restrict_of

variable {codec} {table : TableDef}

theorem Describes.names (h : codec.Describes table) :
    table.columns.map Column.name = codec.columns.map Prod.fst := by
  rw [← h.1, List.map_map]
  rfl

theorem Describes.typed (h : codec.Describes table) (record : ρ) :
    ∀ column ∈ table.columns, (codec.encode record column.name).any column.admits = true := by
  intro column hmem
  have hcolumn : (column.name, column.type) ∈ codec.columns := h.1 ▸ List.mem_map_of_mem hmem
  exact Row.admits_of_reads (codec.reads record _ hcolumn)

variable {schema : Schema} {name : String}

theorem Fits.exists_table (h : codec.Fits schema name) : ∃ table, schema.table? name = some table ∧
    codec.Describes table := by
  obtain ⟨table, htable, hdescribes⟩ := (Option.any_eq_true ..).mp h
  exact ⟨table, htable, of_decide_eq_true hdescribes⟩

theorem Fits.columns (h : codec.Fits schema name) :
    schema.columns? name = some (codec.columns.map Prod.fst) := by
  obtain ⟨table, htable, hdescribes⟩ := h.exists_table
  rw [Schema.columns?, htable, Option.map_some, hdescribes.names]

/-- Records fit their table. -/
theorem Fits.typed (hnames : (schema.tables.map TableDef.name).Nodup) (hmem : table ∈ schema.tables)
    (h : codec.Fits schema table.name) (records : List ρ) :
    ∀ row ∈ records.map codec.encode, ∀ column ∈ table.columns,
      (row column.name).any column.admits = true := by
  obtain ⟨found, hfound, hdescribes⟩ := h.exists_table
  cases (Schema.table?_of_mem hnames hmem).symm.trans hfound
  intro row hrow column hcolumn
  obtain ⟨record, -, rfl⟩ := List.mem_map.mp hrow
  exact hdescribes.typed record column hcolumn

/-- What fits a schema is records, table by table. -/
theorem Fits.exists_records (h : codec.Fits schema name) {content : Content}
    (hsat : Satisfies schema content) :
    ∃ records : List ρ, (∀ record ∈ records, codec.valid record) ∧
      content name = records.map codec.encode := by
  have hshaped : Row.restrictAll (some (codec.columns.map Prod.fst)) (content name) = content name := by
    rw [← h.columns]
    exact congrFun hsat.shaped name
  obtain ⟨table, htable, hdescribes⟩ := h.exists_table
  have hname : table.name = name := by simpa using List.find?_some htable
  have hrecord : ∀ row ∈ content name, ∃ record, codec.valid record ∧ codec.encode record = row := by
    intro row hmem
    refine codec.exists_record row (Row.restrict_of_mem hshaped hmem) fun other hother => ?_
    rw [← hdescribes.1] at hother
    obtain ⟨column, hcolumn, rfl⟩ := List.mem_map.mp hother
    exact Row.reads_of_admits (hdescribes.2 column hcolumn) (hsat.typed table
      (List.mem_of_find?_eq_some htable) row (hname ▸ hmem) column hcolumn)
  generalize content name = rows at hrecord
  induction rows with
  | nil => exact ⟨[], fun _ hmem => (nomatch hmem), rfl⟩
  | cons row rows ih =>
    obtain ⟨records, hvalid, hmap⟩ := ih fun other hmem => hrecord other (List.mem_cons_of_mem _ hmem)
    obtain ⟨record, hfirst, hencode⟩ := hrecord row List.mem_cons_self
    refine ⟨record :: records, List.forall_mem_cons.mpr ⟨hfirst, hvalid⟩, ?_⟩
    rw [List.map_cons, hencode, hmap]

end RowCodec

/-- The keys of a table of records. -/
theorem Content.keys_map {ρ : Type} {content : Content} {table : String} {columns : List String}
    {records : List ρ} {encode : ρ → Row} {k : ρ → List Value}
    (htable : content table = records.map encode)
    (hkey : ∀ record, Row.key columns (encode record) = some (k record)) :
    content.keys table columns = records.map k := by
  rw [keys, htable, List.filterMap_map, ← List.filterMap_eq_map]
  congr 1
  funext record
  exact hkey record

section Constraints

variable {ρ σ : Type} {content : Content} {name table : String} {columns : List String}
  {records : List ρ} {k : ρ → List Value}

/-- A key on records. -/
theorem Constraint.holds_key_iff {kind : ConstraintKind} (hkind : kind = .primaryKey ∨ kind = .unique)
    (hkeys : content.keys table columns = records.map k) :
    Constraint.Holds ⟨name, table, columns, kind⟩ content ↔ (records.map k).Nodup := by
  rw [← hkeys]
  rcases hkind with rfl | rfl <;> rfl

/-- A foreign key on records. -/
theorem Constraint.holds_foreignKey_iff {refTable : String} {refColumns : List String} {others : List σ}
    {l : σ → List Value} (hkeys : content.keys table columns = records.map k)
    (hothers : content.keys refTable refColumns = others.map l) :
    Constraint.Holds ⟨name, table, columns, .foreignKey refTable refColumns⟩ content ↔
      ∀ record ∈ records, ∃ other ∈ others, l other = k record := by
  show (∀ key ∈ content.keys table columns, key ∈ content.keys refTable refColumns) ↔ _
  simp [hkeys, hothers]

/-- The records of a table that fits, with the key that the schema gives it. -/
theorem RowCodec.Fits.exists_keyed {κ : Type} {codec : RowCodec ρ} {schema : Schema}
    (h : codec.Fits schema table) (hsat : Satisfies schema content)
    (hkey : ⟨name, table, columns, .primaryKey⟩ ∈ schema.constraints) {v : ρ → κ}
    {f : κ → List Value}
    (hkeyed : ∀ record, Row.key columns (codec.encode record) = some (f (v record))) :
    ∃ records : List ρ, (∀ record ∈ records, codec.valid record) ∧
      content table = records.map codec.encode ∧ (records.map v).Nodup := by
  obtain ⟨records, hvalid, hcontent⟩ := h.exists_records hsat
  have hnodup := (Constraint.holds_key_iff (.inl rfl) (Content.keys_map hcontent hkeyed)).mp
    (hsat.constraints _ hkey)
  refine ⟨records, hvalid, hcontent, .of_map f ?_⟩
  rw [List.map_map]
  exact hnodup

end Constraints
end SimpleBank.Library.Ddl
