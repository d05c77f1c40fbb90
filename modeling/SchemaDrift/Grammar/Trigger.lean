import SchemaDrift.Grammar.Value
import SchemaDrift.Schema.Object

/-!
Triggers, routines, and synonyms, which some dialects call aliases.
-/

namespace SchemaDrift.Grammar

open Reader

/-- A trigger that does not say when it fires does so before. -/
def timing : Reader Timing := do
  if ← keywords ["NO", "CASCADE", "BEFORE"] then return .before
  else if ← keyword "BEFORE" then return .before
  else if ← keyword "AFTER" then return .after
  else if ← keywords ["INSTEAD", "OF"] then return .insteadOf
  else return .before

def event? : Reader (Option Event) := do
  match ← oneOf ["INSERT", "UPDATE", "DELETE", "TRUNCATE"] with
  | some "INSERT" => return some .insert
  | some "UPDATE" => return some .update
  | some "DELETE" => return some .delete
  | some _ => return some .truncate
  | none => return none

def skipColumns : Reader Unit := fun _ ts =>
  .ok (some (), ts.dropWhile (fun t => !t.isKeyword "ON" && !t.isKeyword "OR"))

/-- Events with `OR` or commas between them. `more` tells whether another may follow. -/
def eventStep (found : List Event × Bool) : Reader (Option (List Event × Bool)) := do
  if !found.2 then return none
  else match ← event? with
    | none => return none
    | some event =>
        if event = .update then
          if ← keyword "OF" then skipColumns
        let or ← keyword "OR"
        let more ← if or then pure true else symbol ","
        return some (found.1 ++ [event], more)

/-- The events of a list in their own order, each once. -/
def sortEvents (found : List Event) : List Event :=
  [Event.insert, .update, .delete, .truncate].filter found.contains

def trigger : Reader Trigger := do
  let _ ← keywords ["IF", "NOT", "EXISTS"]
  let name ← qualifiedName
  let timing ← timing
  let (events, _) ← iterate eventStep ([], true)
  if events.isEmpty then fail
  if !(← keyword "ON") then fail
  let table ← qualifiedName
  return ⟨name, table, timing, sortEvents events, ← canonical (← rest)⟩

def routine (kind : RoutineKind) : Reader Routine := do
  let _ ← keywords ["IF", "NOT", "EXISTS"]
  let name ← qualifiedName
  return ⟨name, kind, ← canonical (← rest)⟩

/-- `ALIAS name FOR [TABLE | SEQUENCE] target`, with either word. -/
def synonym : Reader Synonym := do
  let _ ← keywords ["IF", "NOT", "EXISTS"]
  let name ← qualifiedName
  if !(← keyword "FOR") then fail
  let _ ← oneOf ["TABLE", "SEQUENCE"]
  return ⟨name, ← qualifiedName⟩

end SchemaDrift.Grammar
