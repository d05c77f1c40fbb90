import SchemaDrift.Schema.Kind

/-!
Names of objects, and the keys that tell the objects of a schema apart.
-/

namespace SchemaDrift

/-- A name with the schema it is in, where one is written and not implied. -/
structure QualifiedName where
  schema : Option String
  name : String
deriving DecidableEq, Repr, Inhabited

namespace QualifiedName

def unqualified (name : String) : QualifiedName := ⟨none, name⟩

def text (q : QualifiedName) : String :=
  match q.schema with
  | some s => s ++ "." ++ q.name
  | none => q.name

end QualifiedName

structure ObjectKey where
  kind : Kind
  name : QualifiedName
deriving DecidableEq, Repr, Inhabited

def ObjectKey.text (k : ObjectKey) : String := k.kind.displayName ++ ": " ++ k.name.text

end SchemaDrift
