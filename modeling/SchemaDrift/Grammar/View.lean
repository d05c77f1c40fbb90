import SchemaDrift.Grammar.KeyColumns
import SchemaDrift.Grammar.Value
import SchemaDrift.Schema.Object
import SchemaDrift.Text.References

/-!
Views: `VIEW [IF NOT EXISTS] name [(column, …)] [WITH (…)] AS query`.
-/

namespace SchemaDrift.Grammar

open Reader

/-- Words that may follow `FROM` and name no relation. -/
def noRelation : List String := ["LATERAL", "ONLY", "UNNEST", "TABLE", "SELECT"]

def reference : Reader QualifiedName := do
  match ← peekUpper with
  | some word => if noRelation.contains word then fail else qualifiedName
  | none => qualifiedName

/-- The relations that a query names, each once and without the view itself. -/
def viewReferences (d : Dialect) (view : QualifiedName) :
    List (List Char) → Except Fault (List QualifiedName)
  | [] => .ok []
  | s :: rest => do
      let found ← run? reference d s
      let others ← viewReferences d view rest
      match found with
      | some q => if q = view then return others else return q :: others.filter (· ≠ q)
      | none => return others

def view (materialized : Bool) : Reader View := do
  let _ ← keywords ["IF", "NOT", "EXISTS"]
  let name ← qualifiedName
  let columns ← keyColumns
  if ← keyword "WITH" then skipGroup
  if !(← keyword "AS") then fail
  let source ← rest
  let references ← ofExcept (viewReferences (← dialect) name (Text.References.names source))
  return ⟨name, ← canonical source, materialized, columns, references⟩

end SchemaDrift.Grammar
