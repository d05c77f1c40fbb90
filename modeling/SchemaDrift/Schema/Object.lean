import SchemaDrift.Schema.Table

/-!
The objects of a schema.
-/

namespace SchemaDrift

/-- `references` lists the relations that the query names, as far as they can be told. -/
structure View where
  name : QualifiedName
  query : String
  materialized : Bool
  columns : List String
  references : List QualifiedName
deriving DecidableEq, Repr, Inhabited

inductive Timing
  | before
  | after
  | insteadOf
deriving DecidableEq, Repr, Inhabited

def Timing.text : Timing → String
  | before => "BEFORE"
  | after => "AFTER"
  | insteadOf => "INSTEAD OF"

inductive Event
  | insert
  | update
  | delete
  | truncate
deriving DecidableEq, Repr, Inhabited

def Event.text : Event → String
  | insert => "INSERT"
  | update => "UPDATE"
  | delete => "DELETE"
  | truncate => "TRUNCATE"

/-- `events` is in the order of `Event`, each once; `body` is all that follows the table. -/
structure Trigger where
  name : QualifiedName
  table : QualifiedName
  timing : Timing
  events : List Event
  body : String
deriving DecidableEq, Repr, Inhabited

inductive RoutineKind
  | procedure
  | function
deriving DecidableEq, Repr, Inhabited

def RoutineKind.text : RoutineKind → String
  | procedure => "PROCEDURE"
  | function => "FUNCTION"

structure Routine where
  name : QualifiedName
  kind : RoutineKind
  body : String
deriving DecidableEq, Repr, Inhabited

structure Synonym where
  name : QualifiedName
  target : QualifiedName
deriving DecidableEq, Repr, Inhabited

structure VirtualTable where
  name : QualifiedName
  module : String
  args : List String
deriving DecidableEq, Repr, Inhabited

/-- A table that stores a column of large objects of `baseTable`. -/
structure AuxiliaryTable where
  name : QualifiedName
  placement : Option String
  baseTable : QualifiedName
  column : String
  part : Option Nat
deriving DecidableEq, Repr, Inhabited

/-- A statement kept as text. Its label is the type and name of what it creates, where they can be
told, and otherwise the text itself. -/
structure RawStatement where
  label : QualifiedName
  verb : String
  text : String
deriving DecidableEq, Repr, Inhabited

inductive Object
  | table (t : Table)
  | view (v : View)
  | index (i : Index)
  | trigger (t : Trigger)
  | routine (r : Routine)
  | synonym (a : Synonym)
  | virtualTable (t : VirtualTable)
  | auxiliaryTable (t : AuxiliaryTable)
  | raw (r : RawStatement)
deriving DecidableEq, Inhabited

namespace Object

def kind : Object → Kind
  | table _ => .table
  | view _ => .view
  | index _ => .index
  | trigger _ => .trigger
  | routine _ => .procedure
  | synonym _ => .synonym
  | virtualTable _ => .virtualTable
  | auxiliaryTable _ => .auxiliaryTable
  | raw _ => .raw

def name : Object → QualifiedName
  | table t => t.name
  | view v => v.name
  | index i => i.name
  | trigger t => t.name
  | routine r => r.name
  | synonym a => a.name
  | virtualTable t => t.name
  | auxiliaryTable t => t.name
  | raw r => r.label

def key (o : Object) : ObjectKey := ⟨o.kind, o.name⟩

/-- The relations that must be there before the object is. -/
def dependencies : Object → List QualifiedName
  | table t => t.referencedTables
  | view v => v.references.filter (fun r => r ≠ v.name)
  | index i => [i.table]
  | trigger t => [t.table]
  | synonym a => [a.target]
  | auxiliaryTable t => [t.baseTable]
  | routine _ | virtualTable _ | raw _ => []

def unspelled : Object → Object
  | table t => table t.unspelled
  | o => o

def sameAs (a b : Object) : Bool := a.unspelled = b.unspelled

end Object

end SchemaDrift
