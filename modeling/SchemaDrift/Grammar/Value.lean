import SchemaDrift.Reader
import SchemaDrift.Schema.Options

/-!
Values of clauses, and clauses that nothing models: those are kept by name.
-/

namespace SchemaDrift.Grammar

open Reader

def canonical (s : List Char) : Reader String := do return canonicalSql (← dialect) s

def canonicalExpression (s : List Char) : Reader String := do
  return canonicalExpr (← dialect) s

/-- A string literal stays as it is. All else is in capitals. -/
def optionValue (s : List Char) : Reader String := do
  let text ← canonical s
  return if text.toList.head? = some '\'' then text else upperCase text

/-- `[=] value` -/
def assigned : Reader String := do
  let _ ← symbol "="
  optionValue (← value)

/-- Options whose value is a bare word. After any other option, a bare word is an option of its
own. -/
def wordValued : List String :=
  ["BUFFERPOOL", "CLOSE", "COMPRESS", "GBPCACHE", "LOCKSIZE", "LOCKMAX", "MAXROWS", "DEFINE",
    "EDITPROC", "VALIDPROC", "VOLATILE", "APPEND", "TRACKMOD"]

def isLiteral (t : Token) : Bool := t.kind == .string || t.kind == .number

def startsValue (key : String) (ts : List Token) : Bool :=
  atSymbol "(" ts || headIs isLiteral ts || (wordValued.contains key && headIs Token.isWord ts)

/-- `KEY [=] value` or a word alone. -/
def looseOption (options : Options) : Reader Options := do
  match ← peekUpper with
  | some key =>
      skip
      let assigns ← symbol "="
      if assigns || (← peek (startsValue key)) then
        match ← optional value with
        | some v => return options.insert key (← optionValue v)
        | none => return options.insert key ""
      else return options.insert key ""
  | none =>
      if ← peek (atSymbol "(") then return options.insert (← optionValue (← value)) ""
      else
        skip
        return options

/-- Words that begin a clause of a column and so end the one before. -/
def columnClauseWords : List String :=
  ["NOT", "NULL", "DEFAULT", "CONSTRAINT", "PRIMARY", "UNIQUE", "REFERENCES", "CHECK",
    "GENERATED", "AS", "AUTO_INCREMENT", "AUTOINCREMENT", "IDENTITY", "COLLATE", "COMMENT", "ON",
    "WITH", "IMPLICITLY", "CHARACTER", "CHARSET", "INLINE", "VISIBLE", "INVISIBLE", "STORED",
    "VIRTUAL"]

/-- A default as it counts: none for `NULL`, and an identity where a sequence gives the values. -/
inductive DefaultValue
  | none
  | identity
  | expression (text : String)
deriving DecidableEq, Repr

namespace DefaultValue

def ofText (d : Dialect) (s : List Char) : DefaultValue :=
  let text := canonicalExpr d s
  if text = "" || text = "null" then none
  else if Text.startsWith text.toList "nextval(".toList then identity
  else expression text

def text? : DefaultValue → Option String
  | expression text => some text
  | _ => Option.none

end DefaultValue

end SchemaDrift.Grammar
