import Mathlib.Data.List.Nodup
import Mathlib.Logic.Function.Basic

/-! A fragment of PostgreSQL's data definition language: schemas, the contents
of their tables, and what a statement does to both.  Names that a statement
leaves out are generated as the server does it. -/
namespace SimpleBank.Library.Ddl

inductive ColumnType where
  | varchar
  | bigint
  | bigserial
  | timestamptz
  | boolean
  | uuid
  deriving DecidableEq, Repr

/-- A `timestamptz` counts microseconds. -/
inductive Value where
  | null
  | varchar (text : String)
  | bigint (number : Int64)
  | timestamptz (time : Int)
  | boolean (flag : Bool)
  | uuid (bits : BitVec 128)
  deriving DecidableEq, Repr

/-- A literal, or `now()` and some microseconds. -/
inductive Default where
  | literal (value : Value)
  | now (offset : Int)
  deriving DecidableEq, Repr

structure Column where
  name : String
  type : ColumnType
  notNull : Bool := false
  default : Option Default := none
  deriving DecidableEq, Repr

inductive ColumnKey where
  | primaryKey
  | unique
  deriving DecidableEq, Repr

/-- A column as `CREATE TABLE` lists it. -/
structure ColumnDef extends Column where
  key : Option ColumnKey := none
  deriving DecidableEq, Repr

structure TableDef where
  name : String
  columns : List Column
  deriving DecidableEq, Repr

inductive ConstraintKind where
  | primaryKey
  | unique
  | foreignKey (refTable : String) (refColumns : List String)
  deriving DecidableEq, Repr

structure Constraint where
  name : String
  table : String
  columns : List String
  kind : ConstraintKind
  deriving DecidableEq, Repr

structure Index where
  name : String
  table : String
  columns : List String
  deriving DecidableEq, Repr

/-- The sequence behind a `bigserial` column. -/
structure Sequence where
  name : String
  table : String
  column : String
  deriving DecidableEq, Repr

structure Comment where
  table : String
  column : String
  text : String
  deriving DecidableEq, Repr

structure Schema where
  tables : List TableDef
  constraints : List Constraint
  indexes : List Index
  sequences : List Sequence
  comments : List Comment
  deriving DecidableEq, Repr

inductive Err where
  | undefinedTable (name : String)
  | duplicateTable (name : String)
  | undefinedColumn (name : String)
  | duplicateColumn (name : String)
  | undefinedObject (name : String)
  | duplicateObject (name : String)
  | datatypeMismatch
  | invalidForeignKey
  | dependentObjectsStillExist (name : String)
  | constraintViolation (name : String)
  | notNullViolation (column : String)
  deriving DecidableEq, Repr

inductive Stmt where
  | createTable (name : String) (columns : List ColumnDef)
  | addForeignKey (table : String) (columns : List String) (refTable : String)
      (refColumns : List String)
  | addUnique (table name : String) (columns : List String)
  | addColumn (table : String) (column : Column)
  | createIndex (table : String) (columns : List String)
  | commentOnColumn (table column text : String)
  | dropConstraint (ifTableExists : Bool) (table : String) (ifExists : Bool) (name : String)
  | dropColumn (table column : String)
  | dropTable (ifExists : Bool) (name : String) (cascade : Bool)
  deriving DecidableEq, Repr

/-- `bigserial` is `bigint` with a default of its own. -/
def ColumnType.base : ColumnType → ColumnType
  | .bigserial => .bigint
  | type => type

/-- What the catalog keeps of a column: keys and serial columns are `NOT NULL`. -/
def Column.stored (column : Column) (primary : Bool) : Column :=
  { column with notNull := column.notNull || primary || column.type = .bigserial }

def Constraint.isForeignKey (constraint : Constraint) : Bool :=
  match constraint.kind with
  | .foreignKey _ _ => true
  | _ => false

/-- A foreign key to `columns` of `table`. -/
def Constraint.refersTo (constraint : Constraint) (table : String)
    (columns : List String → Bool) : Bool :=
  match constraint.kind with
  | .foreignKey refTable refColumns => refTable = table && columns refColumns
  | _ => false

/-- A primary key or unique constraint on exactly these columns. -/
def Constraint.isKeyOn (constraint : Constraint) (table : String) (columns : List String) : Bool :=
  !constraint.isForeignKey && constraint.table = table && constraint.columns = columns

/-- The generated name: the first of `base`, `base1`, `base2`, … that is free. -/
def freshName (taken : List String) (base : String) : String :=
  ((base :: (List.range taken.length).map fun i => base ++ toString (i + 1)).find?
    fun name => name ∉ taken).getD base

def objectName (table : String) (columns : List String) (label : String) : String :=
  "_".intercalate (table :: columns ++ [label])

namespace Schema

def empty : Schema := ⟨[], [], [], [], []⟩

def table? (schema : Schema) (name : String) : Option TableDef :=
  schema.tables.find? fun table => table.name = name

/-- The names of a table's columns. -/
def columns? (schema : Schema) (table : String) : Option (List String) :=
  (schema.table? table).map fun found => found.columns.map Column.name

/-- Tables, sequences and indexes share their names, and a key is an index. -/
def relations (schema : Schema) : List String :=
  schema.tables.map TableDef.name ++ schema.sequences.map Sequence.name ++
    schema.indexes.map Index.name ++
    (schema.constraints.filter fun constraint => !constraint.isForeignKey).map Constraint.name

def typesOf (table : TableDef) (columns : List String) : List (Option ColumnType) :=
  columns.map fun name =>
    (table.columns.find? fun column => column.name = name).map fun column => column.type.base

/-- The first column that the table does not have. -/
def missing (table : TableDef) (columns : List String) : Option String :=
  columns.find? fun name => name ∉ table.columns.map Column.name

def addConstraint (schema : Schema) (constraint : Constraint) : Schema :=
  { schema with constraints := schema.constraints ++ [constraint] }

/-- A key whose name is generated. -/
def addKey (table : String) (kind : ConstraintKind) (schema : Schema) (columns : List String)
    (base : String) : Schema :=
  schema.addConstraint
    ⟨freshName (schema.relations ++ schema.constraints.map Constraint.name) base, table, columns,
      kind⟩

def addSequences (schema : Schema) (table : String) (columns : List Column) : Schema :=
  (columns.filter fun column => column.type = .bigserial).foldl
    (fun schema column => { schema with sequences := schema.sequences ++
      [⟨freshName schema.relations (objectName table [column.name] "seq"), table, column.name⟩] })
    schema

def mapTable (schema : Schema) (name : String) (f : List Column → List Column) : Schema :=
  { schema with tables := schema.tables.map fun table =>
      if table.name = name then { table with columns := f table.columns } else table }

def createTable (schema : Schema) (name : String) (columns : List ColumnDef) : Except Err Schema :=
  if name ∈ schema.relations then .error (.duplicateTable name)
  else if ¬(columns.map fun column => column.name).Nodup then .error (.duplicateColumn name)
  else
    let stored := columns.map fun column => column.stored (column.key = some .primaryKey)
    let primary := (columns.filter fun column => column.key = some .primaryKey).map
      fun column => column.name
    let unique := (columns.filter fun column => column.key = some .unique).map
      fun column => column.name
    let created := addSequences { schema with tables := schema.tables ++ [⟨name, stored⟩] } name stored
    let keyed := if primary = [] then created
      else created.addKey name .primaryKey primary (objectName name [] "pkey")
    .ok (unique.foldl (fun schema column =>
      schema.addKey name .unique [column] (objectName name [column] "key")) keyed)

def addForeignKey (schema : Schema) (table : String) (columns : List String) (refTable : String)
    (refColumns : List String) : Except Err Schema :=
  match schema.table? table, schema.table? refTable with
  | none, _ => .error (.undefinedTable table)
  | _, none => .error (.undefinedTable refTable)
  | some found, some referenced =>
    match (missing found columns).or (missing referenced refColumns) with
    | some name => .error (.undefinedColumn name)
    | none =>
      if !schema.constraints.any fun constraint => constraint.isKeyOn refTable refColumns then
        .error .invalidForeignKey
      else if typesOf found columns ≠ typesOf referenced refColumns then .error .datatypeMismatch
      else .ok (schema.addConstraint
        ⟨freshName (schema.constraints.map Constraint.name) (objectName table columns "fkey"), table,
          columns, .foreignKey refTable refColumns⟩)

def addUnique (schema : Schema) (table name : String) (columns : List String) : Except Err Schema :=
  match schema.table? table with
  | none => .error (.undefinedTable table)
  | some found =>
    match missing found columns with
    | some column => .error (.undefinedColumn column)
    | none =>
      if name ∈ schema.relations then .error (.duplicateTable name)
      else if schema.constraints.any fun constraint =>
          constraint.table = table && constraint.name = name then .error (.duplicateObject name)
      else .ok (schema.addConstraint ⟨name, table, columns, .unique⟩)

def addColumn (schema : Schema) (table : String) (column : Column) : Except Err Schema :=
  match schema.table? table with
  | none => .error (.undefinedTable table)
  | some found =>
    if column.name ∈ found.columns.map Column.name then .error (.duplicateColumn column.name)
    else .ok (addSequences (schema.mapTable table fun columns => columns ++ [column.stored false])
      table [column])

def createIndex (schema : Schema) (table : String) (columns : List String) : Except Err Schema :=
  match schema.table? table with
  | none => .error (.undefinedTable table)
  | some found =>
    match missing found columns with
    | some column => .error (.undefinedColumn column)
    | none => .ok { schema with indexes := schema.indexes ++
        [⟨freshName schema.relations (objectName table columns "idx"), table, columns⟩] }

def commentOnColumn (schema : Schema) (table column text : String) : Except Err Schema :=
  match schema.table? table with
  | none => .error (.undefinedTable table)
  | some found =>
    match missing found [column] with
    | some column => .error (.undefinedColumn column)
    | none => .ok { schema with comments := (schema.comments.filter fun comment =>
        !(comment.table = table && comment.column = column)) ++ [⟨table, column, text⟩] }

def dropConstraint (schema : Schema) (ifTableExists : Bool) (table : String) (ifExists : Bool)
    (name : String) : Except Err Schema :=
  match schema.table? table with
  | none => if ifTableExists then .ok schema else .error (.undefinedTable table)
  | some _ =>
    match schema.constraints.find? fun constraint =>
      constraint.table = table && constraint.name = name with
    | none => if ifExists then .ok schema else .error (.undefinedObject name)
    | some found =>
      -- a foreign key depends on the key it refers to
      if !found.isForeignKey && schema.constraints.any fun constraint =>
          constraint.refersTo table fun columns => columns = found.columns then
        .error (.dependentObjectsStillExist name)
      else .ok { schema with constraints := schema.constraints.filter fun constraint =>
        !(constraint.table = table && constraint.name = name) }

def onColumn (table column owner : String) (columns : List String) : Bool :=
  owner = table && column ∈ columns

/-- Whatever the table has on the column goes with it. -/
def withoutColumn (schema : Schema) (table column : String) : Schema :=
  { (schema.mapTable table fun columns => columns.filter fun other => other.name ≠ column) with
    constraints := schema.constraints.filter fun constraint =>
      !onColumn table column constraint.table constraint.columns
    indexes := schema.indexes.filter fun index => !onColumn table column index.table index.columns
    sequences := schema.sequences.filter fun sequence =>
      !onColumn table column sequence.table [sequence.column]
    comments := schema.comments.filter fun comment =>
      !onColumn table column comment.table [comment.column] }

def dropColumn (schema : Schema) (table column : String) : Except Err Schema :=
  match schema.table? table with
  | none => .error (.undefinedTable table)
  | some found =>
    if column ∉ found.columns.map Column.name then .error (.undefinedColumn column)
    else if schema.constraints.any fun constraint =>
        (constraint.refersTo table fun columns => column ∈ columns) &&
          !onColumn table column constraint.table constraint.columns then
      .error (.dependentObjectsStillExist column)
    else .ok (schema.withoutColumn table column)

/-- The foreign keys to the table go with it. -/
def withoutTable (schema : Schema) (name : String) : Schema :=
  { tables := schema.tables.filter fun table => table.name ≠ name
    constraints := schema.constraints.filter fun constraint =>
      constraint.table ≠ name && !constraint.refersTo name fun _ => true
    indexes := schema.indexes.filter fun index => index.table ≠ name
    sequences := schema.sequences.filter fun sequence => sequence.table ≠ name
    comments := schema.comments.filter fun comment => comment.table ≠ name }

/-- Without `CASCADE` the foreign keys of other tables stand in the way. -/
def dropTable (schema : Schema) (ifExists : Bool) (name : String) (cascade : Bool) :
    Except Err Schema :=
  match schema.table? name with
  | none => if ifExists then .ok schema else .error (.undefinedTable name)
  | some _ =>
    if !cascade && schema.constraints.any fun constraint =>
        (constraint.refersTo name fun _ => true) && constraint.table ≠ name then
      .error (.dependentObjectsStillExist name)
    else .ok (schema.withoutTable name)

def exec (schema : Schema) : Stmt → Except Err Schema
  | .createTable name columns => schema.createTable name columns
  | .addForeignKey table columns refTable refColumns =>
    schema.addForeignKey table columns refTable refColumns
  | .addUnique table name columns => schema.addUnique table name columns
  | .addColumn table column => schema.addColumn table column
  | .createIndex table columns => schema.createIndex table columns
  | .commentOnColumn table column text => schema.commentOnColumn table column text
  | .dropConstraint ifTableExists table ifExists name =>
    schema.dropConstraint ifTableExists table ifExists name
  | .dropColumn table column => schema.dropColumn table column
  | .dropTable ifExists name cascade => schema.dropTable ifExists name cascade

def run (schema : Schema) : List Stmt → Except Err Schema
  | [] => .ok schema
  | stmt :: stmts => schema.exec stmt >>= fun next => next.run stmts

end Schema

/-- The values of a row, one for each column of its table. -/
abbrev Row := String → Option Value

/-- The rows of every table. -/
abbrev Content := String → List Row

def ColumnType.hasValue : ColumnType → Value → Bool
  | _, .null | .varchar, .varchar _ | .bigint, .bigint _ | .bigserial, .bigint _
  | .timestamptz, .timestamptz _ | .boolean, .boolean _ | .uuid, .uuid _ => true
  | _, _ => false

def Column.admits (column : Column) (value : Value) : Bool :=
  column.type.hasValue value && !(column.notNull && value = .null)

def Default.eval (now : Int) : Default → Value
  | .literal value => value
  | .now offset => .timestamptz (now + offset)

/-- The value that a new column has in the row with this number. -/
def Column.fill (column : Column) (now : Int) (number : Nat) : Value :=
  if column.type = .bigserial then .bigint (Int64.ofNat (number + 1))
  else
    match column.default with
    | some default => default.eval now
    | none => .null

/-- The values in these columns, unless one of them is null. -/
def Row.key (columns : List String) (row : Row) : Option (List Value) :=
  columns.mapM fun name => (row name).filter fun value => value ≠ .null

def Content.keys (content : Content) (table : String) (columns : List String) :
    List (List Value) :=
  (content table).filterMap (Row.key columns)

def Constraint.Holds (constraint : Constraint) (content : Content) : Prop :=
  match constraint.kind with
  | .primaryKey | .unique => (content.keys constraint.table constraint.columns).Nodup
  | .foreignKey refTable refColumns => ∀ key ∈ content.keys constraint.table constraint.columns,
      key ∈ content.keys refTable refColumns

instance : ∀ (constraint : Constraint) (content : Content), Decidable (constraint.Holds content)
  | ⟨_, table, columns, .primaryKey⟩, content | ⟨_, table, columns, .unique⟩, content =>
    inferInstanceAs (Decidable (content.keys table columns).Nodup)
  | ⟨_, table, columns, .foreignKey refTable refColumns⟩, content =>
    inferInstanceAs (Decidable (∀ key ∈ content.keys table columns,
      key ∈ content.keys refTable refColumns))

structure State where
  schema : Schema
  content : Content

/-- What a statement does to the rows. -/
def Stmt.apply (now : Int) (content : Content) : Stmt → Content
  | .createTable name _ | .dropTable _ name _ => Function.update content name []
  | .addColumn table column => Function.update content table ((content table).mapIdx
      fun number row => Function.update row column.name (some (column.fill now number)))
  | .dropColumn table column => Function.update content table ((content table).map
      fun row => Function.update row column none)
  | _ => content

/-- The new column that is left null where it must not be. -/
def Stmt.unfilled (now : Int) (content : Content) : Stmt → Option String
  | .addColumn table column =>
    if column.notNull && (content table).zipIdx.any fun (_, number) =>
        column.fill now number = .null then some column.name
    else none
  | _ => none

/-- A constraint is checked on all rows when it is added. -/
def exec (now : Int) (state : State) (stmt : Stmt) : Except Err State :=
  match state.schema.exec stmt with
  | .error err => .error err
  | .ok schema =>
    let content := stmt.apply now state.content
    match schema.constraints.find? fun constraint =>
      constraint ∉ state.schema.constraints && ¬constraint.Holds content with
    | some constraint => .error (.constraintViolation constraint.name)
    | none =>
      match stmt.unfilled now state.content with
      | some column => .error (.notNullViolation column)
      | none => .ok ⟨schema, content⟩

/-- A script is one transaction. -/
def run (now : Int) (state : State) : List Stmt → Except Err State
  | [] => .ok state
  | stmt :: stmts => exec now state stmt >>= fun next => run now next stmts

end SimpleBank.Library.Ddl
