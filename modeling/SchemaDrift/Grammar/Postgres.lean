import SchemaDrift.Grammar.Clauses
import SchemaDrift.Grammar.Partition

/-!
Clauses of PostgreSQL. The common grammar is shaped after it, so these follow tables and indexes
only.
-/

namespace SchemaDrift.Grammar.Postgres

open Reader

def startsParameters (ts : List Token) : Bool :=
  atKeyword "WITH" ts && headIs (fun t => t.text == ['(']) ts.tail

def parents : Reader String := do
  match ← optional group with
  | some ts =>
      let names ← eachOf (optional qualifiedName) (Token.splitCommas ts)
      return commaList (names.filterMap (·.map QualifiedName.text))
  | none => return ""

def tableClause (t : Table) : Reader (Option Table) := do
  let option (key value : String) : Option Table :=
    some { t with options := t.options.insert key value }
  if ← keywords ["PARTITION", "BY"] then
    return some { t with storage := { t.storage with partition := ← optional partition } }
  else if ← keyword "INHERITS" then return option "INHERITS" (← parents)
  else if ← keyword "TABLESPACE" then
    return some { t with storage := { t.storage with placement := ← optional identifier } }
  else if ← peek startsParameters then
    skip
    return option "WITH" (← canonical ((← optional groupText).getD []))
  else if ← keywords ["WITHOUT", "OIDS"] then return some t
  else if ← keywords ["WITH", "OIDS"] then return some t
  else if ← keywords ["ON", "COMMIT"] then
    return option "ON COMMIT" (upperCase (← canonical (← sourceUntil [])))
  else if ← keyword "USING" then
    let method := (← optional identifier).getD ""
    return if method = "heap" then some t else option "USING" method
  else return none

def indexClause (i : Index) : Reader (Option Index) := do
  if ← keywords ["NULLS", "NOT", "DISTINCT"] then
    return some { i with modifiers := i.modifiers ++ ["NULLS NOT DISTINCT"] }
  else if ← keywords ["NULLS", "DISTINCT"] then return some i
  else return none

def clauses : Clauses :=
  { Clauses.common with tableClause := tableClause, indexClause := indexClause }

end SchemaDrift.Grammar.Postgres
