import SchemaDrift.Reader

/-!
Lists of key columns: `(id, created_at DESC, lower(name))`.
-/

namespace SchemaDrift.Grammar

open Reader

/-- A plain column, with its length and direction. Ascending order is implied. -/
def plainKeyColumn : Reader String := do
  let name ← identifier
  let length ← optional groupText
  let d ← dialect
  let sized := match length with
    | some s => name ++ "(" ++ canonicalSql d s ++ ")"
    | none => name
  let descends ← keyword "DESC"
  let _ ← if descends then pure true else keyword "ASC"
  if ← atEnd then return if descends then sized ++ " DESC" else sized
  else fail

def dropAscending (s : String) : String :=
  let cs := s.toList
  if cs.drop (cs.length - 4) = " asc".toList then String.ofList (cs.take (cs.length - 4)) else s

def keyColumn : Reader String := do
  match ← attempt plainKeyColumn with
  | some column => return column
  | none => return dropAscending (canonicalSql (← dialect) (← rest))

/-- The columns of a list in parentheses. Where no list is, there are none. -/
def keyColumns : Reader (List String) := do
  match ← optional group with
  | some ts => eachOf keyColumn (Token.splitCommas ts)
  | none => return []

end SchemaDrift.Grammar
