import SchemaDrift.Grammar.Clauses
import SchemaDrift.Grammar.Value

/-!
Clauses of SQLite: virtual tables, `WITHOUT ROWID`, `STRICT` and what happens on a conflict.
-/

namespace SchemaDrift.Grammar.Sqlite

open Reader

def arguments : Reader (List String) := do
  let d ← dialect
  match ← optional group with
  | some ts => return (Token.splitCommas ts).map (fun a => canonicalSql d (Token.span a))
  | none => return []

def createForm : Reader Object := do
  let _ ← oneOf ["TEMP", "TEMPORARY"]
  if ← keywords ["VIRTUAL", "TABLE"] then
    let _ ← keywords ["IF", "NOT", "EXISTS"]
    let name ← qualifiedName
    if ← keyword "USING" then
      let module ← identifier
      return .virtualTable ⟨name, module, ← arguments⟩
    else fail
  else fail

def tableClause (t : Table) : Reader (Option Table) := do
  if ← keywords ["WITHOUT", "ROWID"] then
    return some { t with options := t.options.insert "WITHOUT ROWID" "" }
  else if ← keyword "STRICT" then
    return some { t with options := t.options.insert "STRICT" "" }
  else return none

def columnClause (c : Column) : Reader (Option Column) := do
  if ← keywords ["ON", "CONFLICT"] then
    match ← peekUpper with
    | some action =>
        skip
        return some { c with attributes := c.attributes ++ ["ON CONFLICT " ++ action] }
    | none => return some c
  else return none

def clauses : Clauses :=
  { Clauses.common with
    createForm := createForm
    tableClause := tableClause
    columnClause := columnClause }

end SchemaDrift.Grammar.Sqlite
