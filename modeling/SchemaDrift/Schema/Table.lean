import SchemaDrift.Schema.Column
import SchemaDrift.Schema.Options
import SchemaDrift.Schema.Storage

/-!
Tables and indexes.
-/

namespace SchemaDrift

inductive IndexKind
  | default
  | fulltext
  | spatial
deriving DecidableEq, Repr, Inhabited

def IndexKind.text : IndexKind → String
  | default => "default"
  | fulltext => "fulltext"
  | spatial => "spatial"

/-- `columns` holds key columns or expressions, followed by `DESC` where they descend. -/
structure Index where
  name : QualifiedName
  table : QualifiedName
  columns : List String
  unique : Bool
  kind : IndexKind
  modifiers : List String
  storage : Storage
  options : Options
deriving DecidableEq, Inhabited

namespace Index

def new (name table : QualifiedName) : Index :=
  ⟨name, table, [], false, .default, [], .empty, .empty⟩

def text (i : Index) : String :=
  (if i.unique then "UNIQUE " else "") ++
    (match i.kind with
      | .default => ""
      | .fulltext => "FULLTEXT "
      | .spatial => "SPATIAL ") ++
    i.name.text ++ " ON " ++ i.table.text ++ " (" ++ commaList i.columns ++ ")" ++
    String.join (i.modifiers.map (" " ++ ·))

end Index

/-- `systemTime` names the columns of `PERIOD FOR SYSTEM_TIME`. -/
structure Versioning where
  systemTime : Option (String × String)
  systemVersioned : Bool
deriving DecidableEq, Repr, Inhabited

/-- `indexes` holds the keys declared inside the table, `options` the clauses that have no field
of their own. -/
structure Table where
  name : QualifiedName
  columns : List Column
  constraints : List Constraint
  indexes : List Index
  storage : Storage
  versioning : Versioning
  options : Options
deriving DecidableEq, Inhabited

namespace Table

def new (name : QualifiedName) : Table := ⟨name, [], [], [], .empty, ⟨none, false⟩, .empty⟩

def unspelled (t : Table) : Table := { t with columns := t.columns.map Column.unspelled }

def sameAs (a b : Table) : Bool := a.unspelled = b.unspelled

def column? (t : Table) (name : String) : Option Column := t.columns.find? (·.name == name)

def keyTarget : Rule → Option QualifiedName
  | .foreignKey k => some k.table
  | _ => none

/-- The tables that foreign keys name, each once and without the table itself. -/
def referencedTables (t : Table) : List QualifiedName :=
  (t.constraints.filterMap (fun c => keyTarget c.rule)).foldl
    (fun seen q => if q = t.name || seen.contains q then seen else seen ++ [q]) []

/-- The first word of a key column: its name, without direction or length. -/
def keyWord (column : String) : Option String := (Text.words column.toList).head?.map String.ofList

def primaryKeyColumns (t : Table) : List String :=
  ((t.constraints.filter (fun c => c.rule = .primaryKey)).flatMap (·.columns)).filterMap keyWord

/-- Columns of a primary key are never nullable. -/
def enforcePrimaryKey (t : Table) : Table :=
  { t with columns := t.columns.map (fun c =>
      if t.primaryKeyColumns.contains c.name then { c with nullable := false } else c) }

end Table

end SchemaDrift
