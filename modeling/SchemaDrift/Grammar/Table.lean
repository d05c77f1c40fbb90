import SchemaDrift.Grammar.Column
import SchemaDrift.Grammar.Partition

/-!
Tables: `TABLE [IF NOT EXISTS] name (element, …) clause …`.
-/

namespace SchemaDrift.Grammar

open Reader

/-- `PERIOD FOR SYSTEM_TIME` counts only with two columns. -/
def period (t : Table) : List String → Table
  | [start, stop] => { t with versioning := { t.versioning with systemTime := some (start, stop) } }
  | _ => t

/-- One element of a table, read from tokens of its own. `LIKE` is not understood. -/
def tableElement (clauses : Clauses) (t : Table) : Reader Table := do
  if ← atEnd then return t
  else if ← peek (atKeyword "LIKE") then fail
  else match ← clauses.tableElement t with
    | some t => return t
    | none =>
        if ← keywords ["PERIOD", "FOR", "SYSTEM_TIME"] then return period t (← keyColumns)
        else if ← peek startsConstraint then
          if ← peek (atKeyword "EXCLUDE") then
            return { t with options := t.options.insert "EXCLUDE" (← canonical (← rest)) }
          else return { t with constraints := t.constraints ++ [← tableConstraint] }
        else
          let (c, lifted) ← column clauses (t.columns.length + 1)
          return { t with columns := t.columns ++ [c], constraints := t.constraints ++ lifted }

def tableElements (clauses : Clauses) (t : Table) : List (List Token) → Reader Table
  | [] => pure t
  | ts :: rest => do tableElements clauses (← within ts (tableElement clauses t)) rest

def tableStep (clauses : Clauses) (t : Table) : Reader Table := do
  if ← symbol "," then return t
  else match ← clauses.tableClause t with
    | some t => return t
    | none => return { t with options := ← looseOption t.options }

def table (clauses : Clauses) : Reader Table := do
  let _ ← keywords ["IF", "NOT", "EXISTS"]
  let name ← qualifiedName
  let body ← group
  let t ← tableElements clauses (.new name) (Token.splitCommas body)
  untilEnd (tableStep clauses) t.enforcePrimaryKey

end SchemaDrift.Grammar
