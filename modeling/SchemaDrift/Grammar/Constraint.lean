import SchemaDrift.Grammar.KeyColumns
import SchemaDrift.Grammar.Value
import SchemaDrift.Schema.Constraint

/-!
Constraints written as elements of a table: `[CONSTRAINT name] PRIMARY KEY (…)` and its like.
-/

namespace SchemaDrift.Grammar

open Reader

/-- `NO ACTION` is what happens anyway. -/
def referentialAction : Reader (Option String) := do
  if ← keywords ["NO", "ACTION"] then return none
  else if ← keywords ["SET", "NULL"] then return some "SET NULL"
  else if ← keywords ["SET", "DEFAULT"] then return some "SET DEFAULT"
  else oneOf ["CASCADE", "RESTRICT"]

def referenceStep (k : ForeignKey) : Reader (Option ForeignKey) := do
  if ← keywords ["ON", "DELETE"] then return some { k with onDelete := ← referentialAction }
  else if ← keywords ["ON", "UPDATE"] then return some { k with onUpdate := ← referentialAction }
  else if ← keyword "MATCH" then
    skip
    return some k
  else return none

/-- `REFERENCES table [(columns)] [ON DELETE a] [ON UPDATE a] [MATCH m]` -/
def references : Reader ForeignKey := do
  if ← keyword "REFERENCES" then
    let table ← qualifiedName
    let columns ← keyColumns
    iterate referenceStep ⟨table, columns, none, none⟩
  else fail

def startsConstraint (ts : List Token) : Bool :=
  atKeyword "CONSTRAINT" ts || atKeywords ["PRIMARY", "KEY"] ts ||
    atKeywords ["FOREIGN", "KEY"] ts || atKeyword "CHECK" ts || atKeyword "EXCLUDE" ts ||
    (atKeyword "UNIQUE" ts &&
      (headIs (fun t => t.text == ['(']) ts.tail || atKeyword "KEY" ts.tail ||
        atKeyword "INDEX" ts.tail))

/-- `USING BTREE` and `USING HASH` do not count. -/
def skipIndexMethod : Reader Unit := do
  if !(← keywords ["USING", "BTREE"]) then
    let _ ← keywords ["USING", "HASH"]

def givenName : Reader (Option String) := do
  if ← keyword "CONSTRAINT" then
    let unnamed := fun ts => ["PRIMARY", "UNIQUE", "FOREIGN", "CHECK"].any (atKeyword · ts)
    if ← peek unnamed then return none else optional identifier
  else return none

/-- The name of an index, which names a constraint that has no name of its own. -/
def indexName (isAbsent : List Token → Bool) : Reader (Option String) := do
  if ← peek isAbsent then return none else optional identifier

/-- The rule of a constraint with its columns, and the name of its index. -/
def rule : Reader (Option String × Rule × List String) := do
  if ← keywords ["PRIMARY", "KEY"] then
    skipIndexMethod
    return (none, .primaryKey, ← keyColumns)
  else if ← keyword "UNIQUE" then
    let _ ← oneOf ["KEY", "INDEX"]
    let name ← indexName (fun ts => atSymbol "(" ts || atKeyword "USING" ts)
    skipIndexMethod
    return (name, .unique, ← keyColumns)
  else if ← keywords ["FOREIGN", "KEY"] then
    let name ← indexName (atSymbol "(")
    let columns ← keyColumns
    return (name, .foreignKey (← references), columns)
  else if ← keyword "CHECK" then
    return (none, .check (← canonicalExpression (← groupText)), [])
  else fail

/-- All that is left, in capitals. -/
def modifiers : Reader (List String) := do
  let s ← rest
  if s.isEmpty then return [] else return [upperCase (← canonical s)]

def tableConstraint : Reader Constraint := do
  let name ← givenName
  let (index, rule, columns) ← rule
  skipIndexMethod
  return ⟨name.orElse (fun _ => index), rule, columns, ← modifiers⟩

/-- A constraint as a catalog writes it. `name` is for one that does not give its own. -/
def constraintOfText (d : Dialect) (s : String) (name : Option String) :
    Except Fault (Option Constraint) := do
  return (← run? tableConstraint d s.toList).map
    (fun c => { c with name := c.name.orElse (fun _ => name) })

end SchemaDrift.Grammar
