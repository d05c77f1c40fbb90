import SchemaDrift.Schema.Model

/-!
Plans: the operations that lead from one schema to another, in order.
-/

namespace SchemaDrift

inductive Action
  | drop
  | alter
  | create
deriving DecidableEq, Repr, Inhabited

namespace Action

def text : Action → String
  | drop => "Drop"
  | alter => "Alter"
  | create => "Create"

def tag : Action → String
  | drop => "drop"
  | alter => "alter"
  | create => "create"

/-- Drops go first and creations last. -/
def rank : Action → Nat
  | drop => 0
  | alter => 1
  | create => 2

end Action

/-- `details` says what changed, for a reader. -/
structure Operation where
  action : Action
  kind : Kind
  name : QualifiedName
  details : List String
deriving DecidableEq, Repr, Inhabited

namespace Operation

def key (o : Operation) : ObjectKey := ⟨o.kind, o.name⟩

def text (o : Operation) : String := o.action.text ++ " " ++ o.key.text

end Operation

structure Plan where
  operations : List Operation
deriving DecidableEq, Repr, Inhabited

namespace Plan

def isEmpty (p : Plan) : Bool := p.operations.isEmpty

def count (p : Plan) (a : Action) : Nat := p.operations.countP (fun o => o.action = a)

def lines (p : Plan) : List String := p.operations.map Operation.text

def text (p : Plan) : String :=
  if p.isEmpty then "No changes detected" else String.intercalate "\n" p.lines

end Plan

end SchemaDrift
