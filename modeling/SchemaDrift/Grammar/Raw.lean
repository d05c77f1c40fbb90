import SchemaDrift.Reader
import SchemaDrift.Schema.Object

/-!
Statements kept as text.
-/

namespace SchemaDrift.Grammar

open Reader

/-- Words that may stand between `CREATE` and the type of an object. -/
def createModifiers : List String :=
  ["OR", "REPLACE", "TEMP", "TEMPORARY", "UNLOGGED", "GLOBAL", "LOCAL", "PUBLIC", "UNIQUE",
    "FULLTEXT", "SPATIAL", "MATERIALIZED", "RECURSIVE", "VIRTUAL", "AUX", "AUXILIARY", "LOB",
    "TRUSTED", "PROCEDURAL", "DEFAULT"]

/-- Types of objects that take two words. -/
def twoWordTypes : List String := ["FOREIGN", "EVENT", "TEXT", "ACCESS"]

def skipModifiers : Reader Unit := fun _ ts =>
  .ok (some (), ts.dropWhile (fun t =>
    t.isWord && createModifiers.contains (String.ofList (Text.upper t.text))))

def upperWord : Reader String := do
  let word ← ofOption (← peekUpper)
  skip
  return word

def objectType : Reader String := do
  let first ← upperWord
  if twoWordTypes.contains first then
    match ← attempt upperWord with
    | some second => return first ++ " " ++ second
    | none => return first
  else return first

/-- `SEQUENCE app.order_seq` for `CREATE … SEQUENCE [IF NOT EXISTS] app.order_seq …` -/
def createLabel : Reader String := do
  skip
  skipModifiers
  let type ← objectType
  let _ ← keywords ["IF", "NOT", "EXISTS"]
  return type ++ " " ++ (← qualifiedName).text

def rawStatement (d : Dialect) (s : List Char) : Except Fault RawStatement := do
  let text := canonicalSql d s
  let verb := (upperWord? (Token.lex d s)).getD ""
  let label ← if verb = "CREATE" then run? createLabel d s else pure none
  return ⟨.unqualified (label.getD text), verb, text⟩

end SchemaDrift.Grammar
