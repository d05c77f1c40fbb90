import SchemaDrift.Grammar.Definition
import SchemaDrift.Schema.Model

/-!
The schema of a live database, built from the rows of its catalog. The texts in the rows are read
like those in a script, so that a database and the script that made it compare equal.
-/

namespace SchemaDrift

namespace Catalog

structure TableRow where
  schema : String
  name : String
  tablespace : Option String
  partitionKey : Option String
  options : List String
deriving DecidableEq, Repr, Inhabited

/-- A column. The default of a generated column is the expression that generates it. -/
structure ColumnRow where
  schema : String
  table : String
  name : String
  dataType : String
  nullable : Bool
  default : Option String
  identity : Bool
  generated : Bool
deriving DecidableEq, Repr, Inhabited

structure ConstraintRow where
  schema : String
  table : String
  name : String
  definition : String
deriving DecidableEq, Repr, Inhabited

/-- An index that stands for itself and backs no constraint, as a statement that creates it. -/
structure IndexRow where
  schema : String
  name : String
  definition : String
deriving DecidableEq, Repr, Inhabited

end Catalog

structure Catalog where
  tables : List Catalog.TableRow
  columns : List Catalog.ColumnRow
  constraints : List Catalog.ConstraintRow
  indexes : List Catalog.IndexRow
deriving DecidableEq, Repr, Inhabited

namespace Catalog

def liveSource : String := "live database"

/-- A catalog gives names as they are. -/
def qualify (d : Dialect) (schema name : String) : QualifiedName :=
  ⟨if schema.isEmpty || some schema = d.defaultSchema then none else some schema, name⟩

structure Entry where
  schema : String
  name : String
  table : Table

def Entry.ofRow (d : Dialect) (r : TableRow) : Except Fault Entry := do
  let partition ← match r.partitionKey with
    | some key => Grammar.partitionOfText d key
    | none => pure none
  let t := Table.new (qualify d r.schema r.name)
  let withOptions := if r.options.isEmpty then t.options
    else t.options.insert "WITH" (canonicalSql d (commaList r.options).toList)
  return ⟨r.schema, r.name, { t with
    storage := { t.storage with placement := r.tablespace, partition := partition }
    options := withOptions }⟩

def changeLast (meant : Entry → Bool) (f : Table → Table) : List Entry → List Entry
  | [] => []
  | e :: es =>
      if es.any meant then e :: changeLast meant f es
      else if meant e then { e with table := f e.table } :: es
      else e :: es

def named (schema name : String) (e : Entry) : Bool := e.schema == schema && e.name == name

def columnGeneration (d : Dialect) (r : ColumnRow) : Option String × Generation :=
  if r.generated then (none, .computed (canonicalExpr d (r.default.getD "").toList))
  else
    let v := (r.default.map (fun s => Grammar.DefaultValue.ofText d s.toList)).getD .none
    (v.text?, if r.identity || v = .identity then .identity else .plain)

def columnOfRow (d : Dialect) (r : ColumnRow) (ordinal : Nat) : Except Fault Column := do
  let t ← Grammar.typeOfText d r.dataType
  let (default, generation) := columnGeneration d r
  return ⟨r.name, t, r.nullable, default, generation, ordinal, []⟩

/-- Adds a column at the end of its table. Rows of unknown tables do not count. -/
def addColumn (d : Dialect) (es : List Entry) (r : ColumnRow) : Except Fault (List Entry) := do
  if es.any (named r.schema r.table) then
    let c ← columnOfRow d r 0
    return changeLast (named r.schema r.table)
      (fun t => { t with columns := t.columns ++ [{ c with ordinal := t.columns.length + 1 }] }) es
  else return es

def unreadConstraint (r : ConstraintRow) : String :=
  s!"constraint {r.name} on {r.table} could not be read: {r.definition}"

/-- Adds a constraint to its table. One that cannot be read gives a warning. -/
def addConstraint (d : Dialect) (s : List Entry × List String) (r : ConstraintRow) :
    Except Fault (List Entry × List String) := do
  if s.1.any (named r.schema r.table) then
    match ← Grammar.constraintOfText d r.definition (some r.name) with
    | some c =>
        return (changeLast (named r.schema r.table)
          (fun t => { t with constraints := t.constraints ++ [c] }) s.1, s.2)
    | none => return (s.1, s.2 ++ [unreadConstraint r])
  else return s

def unreadIndex (r : IndexRow) : String :=
  s!"index {r.name} could not be read: {r.definition}"

def addIndex (d : Dialect) (tables : List QualifiedName) (m : Model) (r : IndexRow) :
    Except Fault Model := do
  match ← Object.ofStatement? d r.definition with
  | some (.index i) => return if tables.contains i.table then m.insert (.index i) else m
  | _ => return m.warn liveSource (unreadIndex r)

/-- The tables that the rows describe, and the warnings about rows that cannot be read. -/
def entries (d : Dialect) (c : Catalog) : Except Fault (List Entry × List String) := do
  let es ← c.tables.mapM (Entry.ofRow d)
  let es ← c.columns.foldlM (addColumn d) es
  c.constraints.foldlM (addConstraint d) (es, [])

def model (d : Dialect) (c : Catalog) : Except Fault Model := do
  let (es, unread) ← c.entries d
  let warned := unread.foldl (fun m s => m.warn liveSource s) Model.empty
  let filled := es.foldl (fun m e => m.insert (.table e.table.enforcePrimaryKey)) warned
  c.indexes.foldlM (addIndex d (es.map (·.table.name))) filled

/-- The kinds that a catalog tells of. -/
def kinds : List Kind := [.table, .index]

/-- The kinds that a catalog does not tell of, statements kept as text apart. -/
def omittedKinds : List Kind := Kind.all.filter (fun k => !kinds.contains k && k ≠ .raw)

/-- The omitted kinds among those compared. No kinds stand for all of them. -/
def omittedAmong (compared : List Kind) : List Kind :=
  omittedKinds.filter (fun k => compared.isEmpty || compared.contains k)

end Catalog

end SchemaDrift
