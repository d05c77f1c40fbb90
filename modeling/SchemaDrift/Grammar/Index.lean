import SchemaDrift.Grammar.Clauses
import SchemaDrift.Grammar.KeyColumns
import SchemaDrift.Grammar.Value
import SchemaDrift.Text.Alphanumeric

/-!
Indexes: `INDEX [name] [USING method] ON table [USING method] (column, …) clause …`.
-/

namespace SchemaDrift.Grammar

open Reader

structure IndexDraft where
  index : Index
  method : Option String

/-- The letters and digits that a key column begins with. -/
def stem (column : String) : String :=
  String.ofList (column.toList.takeWhile (fun c => Text.isAlphanumeric c || c == '_'))

def impliedIndexName (table : QualifiedName) (columns : List String) : QualifiedName :=
  .unqualified (table.name ++ "_" ++ String.intercalate "_" (columns.map stem) ++ "_idx")

/-- An index is in the schema of its table, unless its name says otherwise. -/
def placeIndex (name table : QualifiedName) : QualifiedName :=
  ⟨name.schema.orElse (fun _ => table.schema), name.name⟩

def startsIndexParameters (ts : List Token) : Bool :=
  atKeyword "WITH" ts && headIs (fun t => t.text == ['(']) ts.tail

def indexStep (clauses : Clauses) (r : IndexDraft) : Reader IndexDraft := do
  let i := r.index
  let modifier (m : String) : IndexDraft :=
    { r with index := { i with modifiers := i.modifiers ++ [m] } }
  match ← clauses.indexClause i with
  | some i => return { r with index := i }
  | none =>
      if ← keyword "INCLUDE" then return modifier ("INCLUDE (" ++ commaList (← keyColumns) ++ ")")
      else if ← keyword "WHERE" then
        return modifier ("WHERE " ++ (← canonicalExpression (← rest)))
      else if ← peek startsIndexParameters then
        skip
        let s ← canonical ((← optional groupText).getD [])
        return { r with index := { i with options := i.options.insert "WITH" s } }
      else if ← keyword "TABLESPACE" then
        let space ← optional identifier
        return { r with index := { i with storage := { i.storage with placement := space } } }
      else if ← keyword "USING" then return { r with method := ← optional identifier }
      else return { r with index := { i with options := ← looseOption i.options } }

/-- A balanced tree is what every index is, and goes unsaid. -/
def IndexDraft.finish (r : IndexDraft) : Index :=
  match r.method with
  | none => r.index
  | some m =>
      if sameKeyword m "btree" then r.index
      else { r.index with modifiers := ("USING " ++ lowerCase m) :: r.index.modifiers }

def methodOr (method : Option String) : Reader (Option String) := do
  if ← keyword "USING" then optional identifier else return method

def index (clauses : Clauses) (unique : Bool) (kind : IndexKind) : Reader Index := do
  let _ ← keyword "CONCURRENTLY"
  let _ ← keywords ["IF", "NOT", "EXISTS"]
  let name ← if ← peek (atKeyword "ON") then pure none else some <$> qualifiedName
  let method ← methodOr none
  if !(← keyword "ON") then fail
  let _ ← keyword "ONLY"
  let table ← qualifiedName
  let method ← methodOr method
  let columns ← keyColumns
  if columns.isEmpty then fail
  let name := placeIndex (name.getD (impliedIndexName table columns)) table
  let i : Index := { Index.new name table with columns := columns, unique := unique, kind := kind }
  return (← untilEnd (indexStep clauses) ⟨i, method⟩).finish

end SchemaDrift.Grammar
