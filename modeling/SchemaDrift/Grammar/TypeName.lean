import SchemaDrift.Reader
import SchemaDrift.Schema.Column

/-!
Column types: the words of a type, its parameters, and the family that they name.
-/

namespace SchemaDrift.Grammar

open Reader

def continuations : List (List String) :=
  [["VARYING"], ["PRECISION"], ["WITH", "TIME", "ZONE"], ["WITHOUT", "TIME", "ZONE"],
    ["WITH", "LOCAL", "TIME", "ZONE"], ["LARGE", "OBJECT"], ["UNSIGNED"], ["SIGNED"],
    ["ZEROFILL"], ["FOR", "BIT", "DATA"], ["FOR", "SBCS", "DATA"], ["FOR", "MIXED", "DATA"]]

/-- Words that go on a type directly after its first word only. -/
def leadingContinuations : List (String × String) :=
  [("LONG", "VARCHAR"), ("LONG", "VARGRAPHIC"), ("NATIONAL", "CHARACTER"), ("NATIONAL", "CHAR")]

/-- Words kept as parameters, apart from the family. -/
def typeModifiers : List String :=
  ["UNSIGNED", "SIGNED", "ZEROFILL", "FOR BIT DATA", "FOR SBCS DATA", "FOR MIXED DATA"]

/-- The names of each family. -/
def familyNames : List (TypeFamily × List String) := [
  (.tinyInt, ["TINYINT", "INT1"]),
  (.smallInt, ["SMALLINT", "INT2", "SMALLSERIAL", "SERIAL2"]),
  (.integer, ["INT", "INTEGER", "INT4", "MEDIUMINT", "SERIAL", "SERIAL4"]),
  (.bigInt, ["BIGINT", "INT8", "BIGSERIAL", "SERIAL8"]),
  (.decimal, ["DECIMAL", "DEC", "NUMERIC"]),
  (.real, ["REAL", "FLOAT4"]),
  (.float, ["FLOAT"]),
  (.double, ["DOUBLE", "DOUBLE PRECISION", "FLOAT8"]),
  (.boolean, ["BOOL", "BOOLEAN"]),
  (.char, ["CHAR", "CHARACTER", "NCHAR", "NATIONAL CHARACTER", "NATIONAL CHAR", "BPCHAR"]),
  (.varchar, ["VARCHAR", "CHARACTER VARYING", "CHAR VARYING", "NVARCHAR", "VARCHAR2"]),
  (.text, ["TEXT"]),
  (.binary, ["BINARY"]),
  (.varbinary, ["VARBINARY", "BINARY VARYING"]),
  (.blob, ["BLOB", "BYTEA", "BINARY LARGE OBJECT"]),
  (.clob, ["CLOB", "CHARACTER LARGE OBJECT", "CHAR LARGE OBJECT"]),
  (.date, ["DATE"]),
  (.time, ["TIME", "TIME WITHOUT TIME ZONE"]),
  (.timestamp, ["TIMESTAMP", "TIMESTAMP WITHOUT TIME ZONE"]),
  (.timestampTz, ["TIMESTAMPTZ", "TIMESTAMP WITH TIME ZONE"]),
  (.interval, ["INTERVAL"]),
  (.json, ["JSON"]),
  (.uuid, ["UUID"]),
  (.xml, ["XML"])]

def serialNames : List String :=
  ["SMALLSERIAL", "SERIAL2", "SERIAL", "SERIAL4", "BIGSERIAL", "SERIAL8"]

def familyOf (name : String) : TypeFamily :=
  match familyNames.find? (fun f => f.2.contains name) with
  | some f => f.1
  | none => .other name

structure TypeDraft where
  words : List String
  params : List String

/-- Takes one continuation, list of parameters or pair of brackets. A list after the first counts
only if the first was empty. -/
def typeStep (t : TypeDraft) : Reader (Option TypeDraft) := do
  let ts ← peek id
  match continuations.find? (fun ks => atKeywords ks ts) with
  | some ks =>
      let _ ← keywords ks
      return some { t with words := t.words ++ [String.intercalate " " ks] }
  | none =>
      if t.params.isEmpty && atSymbol "(" ts then
        let d ← dialect
        let params := (Token.splitCommas (← group)).map (fun p => canonicalSql d (Token.span p))
        return some { t with params := params }
      else if atSymbol "[" ts && headIs (fun u => u.text == [']']) ts.tail then
        skip
        skip
        return some { t with words := t.words ++ ["[]"] }
      else return none

/-- The first word of a type, without quotes around it. -/
def firstTypeWord (s : List Char) : String :=
  let bare := ((s.dropWhile (· == '"')).reverse.dropWhile (· == '"')).reverse
  String.ofList (Text.upper bare)

def typeWords : Reader TypeDraft := do
  let first ← advance
  if !first.isName then fail
  else
    let word := firstTypeWord first.text
    match ← peekUpper with
    | some next =>
        if leadingContinuations.contains (word, next) then
          skip
          iterate typeStep ⟨[word, next], []⟩
        else iterate typeStep ⟨[word], []⟩
    | none => iterate typeStep ⟨[word], []⟩

/-- Brackets stand directly after what they follow. -/
def closeBrackets : List Char → List Char
  | ' ' :: '[' :: ']' :: cs => '[' :: ']' :: closeBrackets cs
  | c :: cs => c :: closeBrackets cs
  | [] => []

def joinTypeWords (words : List String) : String :=
  String.ofList (closeBrackets (String.intercalate " " words).toList)

structure ParsedType where
  dataType : DataType
  serial : Bool
deriving DecidableEq, Repr

def TypeDraft.finish (t : TypeDraft) (source : List Char) : ParsedType :=
  let base := joinTypeWords (t.words.filter (fun w => !typeModifiers.contains w))
  ⟨⟨familyOf base, t.params ++ t.words.filter typeModifiers.contains, String.ofList source⟩,
    serialNames.contains base⟩

def typeName : Reader ParsedType := do
  let (t, source) ← withSource typeWords
  return t.finish source

/-- A type given as a text of its own. What follows the type does not count. -/
def typeOfText (d : Dialect) (s : String) : Except Fault DataType := do
  match ← run? typeName d s.toList with
  | some t => return t.dataType
  | none => return ⟨.other (upperCase (trimmed s)), [], trimmed s⟩

end SchemaDrift.Grammar
