import SchemaDrift.Toml.Node
import SchemaDrift.Toml.Scan

/-!
The grammar of TOML. Values nest at most eighty deep, and keys have fewer than eighty parts.
-/

namespace SchemaDrift.Toml

open Scan

/-! Blanks, comments and line ends -/

def isBlank (c : Char) : Bool := c == ' ' || c == '\t'

/-- Characters that a comment may hold. -/
def isText (c : Char) : Bool := c == '\t' || (c.toNat ≥ 0x20 && c.toNat != 0x7F)

def blanks : Scan Unit := do
  let _ ← takeWhile isBlank

def newline : Scan Unit := literal "\n" <|> literal "\r\n"

def comment : Scan Unit := do
  literal "#"
  let _ ← takeWhile isText

def lineEnd : Scan Unit := do
  blanks
  let _ ← optional comment
  newline <|> endOfInput

/-- Blanks, comments and line ends between the items of an array. -/
def gap : Scan Unit := do
  let _ ← many (do
    let _ ← takeSome isBlank
    : Scan Unit)
  let _ ← many (do
    (newline <|> (do
      comment
      newline))
    blanks
    : Scan Unit)

/-! Strings -/

def hexDigit (c : Char) : Option Nat :=
  if c.isDigit then some (c.toNat - '0'.toNat)
  else if 'a' ≤ c ∧ c ≤ 'f' then some (c.toNat - 'a'.toNat + 10)
  else if 'A' ≤ c ∧ c ≤ 'F' then some (c.toNat - 'A'.toNat + 10)
  else none

def hexValue (digits : List Char) : Option Nat :=
  digits.foldlM (fun n c => (hexDigit c).map (16 * n + ·)) 0

/-- A character given by so many hexadecimal digits. -/
def codePoint (digits : Nat) : Scan Char := fun s =>
  if s.length < digits then none
  else match hexValue (s.take digits) with
    | some n => if n.isValidChar then some (Char.ofNat n, s.drop digits) else none
    | none => none

def escapes : List (Char × Char) :=
  [('b', '\x08'), ('t', '\t'), ('n', '\n'), ('f', '\x0c'), ('r', '\r'), ('"', '"'), ('\\', '\\')]

def escaped : Scan Char := do
  let c ← take (fun _ => true)
  match escapes.lookup c with
  | some e => return e
  | none =>
      if c == 'u' then codePoint 4
      else if c == 'U' then codePoint 8
      else fail

def basicChar : Scan Char :=
  take (fun c => isText c && c != '"' && c != '\\') <|> (do
    literal "\\"
    escaped)

def basicString : Scan String := do
  literal "\""
  let cs ← many basicChar
  literal "\""
  return String.ofList cs

def literalString : Scan String := do
  literal "'"
  let cs ← takeWhile (fun c => isText c && c != '\'')
  literal "'"
  return String.ofList cs

/-- A backslash at the end of a line, with all the blanks and line ends after it. -/
def continuation : Scan Unit := do
  literal "\\"
  blanks
  newline
  let _ ← many ((do
    let _ ← takeSome isBlank
    : Scan Unit) <|> newline)

/-- One or two quotes that do not close a text of several lines. -/
def innerQuotes (quote : Char) : Scan (List Char) := fun s =>
  let n := (s.takeWhile (· == quote)).length
  if 1 ≤ n ∧ n ≤ 2 then some (List.replicate n quote, s.drop n) else none

/-- Three quotes that close a text of several lines, after at most two that belong to it. -/
def closingQuotes (quote : Char) : Scan (List Char) := fun s =>
  let n := (s.takeWhile (· == quote)).length
  if 3 ≤ n then some (List.replicate (min (n - 3) 2) quote, s.drop (min n 5)) else none

def lineBreak : Scan (List Char) := do
  newline
  return ['\n']

def longBasicPiece : Scan (List Char) :=
  (do return [← basicChar]) <|> (do
    continuation
    return []) <|> lineBreak <|> innerQuotes '"'

def longBasicString : Scan String := do
  literal "\"\"\""
  let _ ← optional newline
  let pieces ← many longBasicPiece
  return String.ofList (pieces.flatten ++ (← closingQuotes '"'))

def longLiteralPiece : Scan (List Char) :=
  takeSome (fun c => isText c && c != '\'') <|> lineBreak <|> innerQuotes '\''

def longLiteralString : Scan String := do
  literal "'''"
  let _ ← optional newline
  let pieces ← many longLiteralPiece
  return String.ofList (pieces.flatten ++ (← closingQuotes '\''))

/-- Three quotes open a text of several lines and never an empty one. -/
def string : Scan String := fun s =>
  if "\"\"\"".toList.isPrefixOf s then longBasicString s
  else if "'''".toList.isPrefixOf s then longLiteralString s
  else (basicString <|> literalString) s

/-! Numbers -/

/-- Digits with single underscores between them. The underscores are left out. -/
def digits (isDigit : Char → Bool) : Scan (List Char) := do
  let first ← take isDigit
  let more ← many (do
    let _ ← optional (literal "_")
    take isDigit)
  return first :: more

def natOfDigits (base : Nat) (ds : List Char) : Nat :=
  ds.foldl (fun n c => base * n + (hexDigit c).getD 0) 0

/-- Whether a minus sign stands first. -/
def sign : Scan Bool :=
  (do
    literal "-"
    return true) <|> (do
    literal "+"
    return false) <|> return false

def decimal : Scan (List Char) := do
  match ← peek with
  | some '0' =>
      let _ ← take (· == '0')
      return ['0']
  | _ => digits Char.isDigit

/-- Integers have 64 bits. -/
def inRange (n : Int) : Scan Int :=
  if -0x8000000000000000 ≤ n ∧ n ≤ 0x7FFFFFFFFFFFFFFF then return n else fail

def based (mark : String) (base : Nat) (isDigit : Char → Bool) : Scan Int := do
  literal mark
  inRange (natOfDigits base (← digits isDigit))

def integer : Scan Int := fun s =>
  if "0x".toList.isPrefixOf s then based "0x" 16 (fun c => (hexDigit c).isSome) s
  else if "0o".toList.isPrefixOf s then based "0o" 8 (fun c => '0' ≤ c && c ≤ '7') s
  else if "0b".toList.isPrefixOf s then based "0b" 2 (fun c => c == '0' || c == '1') s
  else (do
    let negative ← sign
    let n := natOfDigits 10 (← decimal)
    inRange (if negative then -n else n)) s

def fraction : Scan (List Char) := do
  literal "."
  digits Char.isDigit

def exponent : Scan Int := do
  let _ ← take (fun c => c == 'e' || c == 'E')
  let negative ← sign
  let n := natOfDigits 10 (← digits Char.isDigit)
  return if negative then -n else n

/-- Whether `m · 10 ^ e` is too large for a double: it is, from half a step above the largest. -/
def overflows (m : Nat) (e : Int) : Bool :=
  let size := (Nat.toDigits 10 m).length
  if m == 0 then false
  else if size + e > 400 then true
  else if size + e < 200 then false
  else
    let bound := Nat.pow 2 1024 - Nat.pow 2 970
    let scale := Nat.pow 10 e.natAbs
    if e < 0 then m ≥ bound * scale else m * scale ≥ bound

/-- A decimal float. One that is too large is refused, unless it is negative. -/
def decimalFloat : Scan Unit := do
  let negative ← sign
  let whole ← decimal
  let (part, e) ← (do
      let part ← fraction
      return (part, (← optional exponent).getD 0)) <|> (do return ([], ← exponent))
  if !negative && overflows (natOfDigits 10 (whole ++ part)) (e - part.length) then fail

def float : Scan Unit :=
  decimalFloat <|> (do
    let _ ← sign
    literal "inf" <|> literal "nan")

/-! Dates and times -/

def field (size low high : Nat) : Scan Nat := fun s =>
  let ds := s.take size
  let n := natOfDigits 10 ds
  if ds.length == size && ds.all Char.isDigit && low ≤ n && n ≤ high then some (n, s.drop size)
  else none

def daysIn (year month : Nat) : Nat :=
  if month == 2 then
    if year % 4 == 0 && (year % 100 != 0 || year % 400 == 0) then 29 else 28
  else if month == 4 || month == 6 || month == 9 || month == 11 then 30
  else 31

def date : Scan Unit := do
  let year ← field 4 0 9999
  literal "-"
  let month ← field 2 1 12
  literal "-"
  let _ ← field 2 1 (daysIn year month)

def time : Scan Unit := do
  let _ ← field 2 0 23
  literal ":"
  let _ ← field 2 0 59
  literal ":"
  let _ ← field 2 0 60
  let _ ← optional (do
    literal "."
    takeSome Char.isDigit)

def zone : Scan Unit :=
  (do
    let _ ← take (fun c => c == 'Z' || c == 'z')) <|> (do
    let _ ← take (fun c => c == '+' || c == '-')
    let _ ← field 2 0 23
    literal ":"
    let _ ← field 2 0 59)

def moment : Scan Unit :=
  (do
    date
    let _ ← optional (do
      let _ ← take (fun c => c == 'T' || c == 't' || c == ' ')
      time
      let _ ← optional zone)) <|> time

/-! Keys and values -/

def isKeyChar (c : Char) : Bool := c.isAlphanum || c == '_' || c == '-'

def keyPart : Scan String := do
  blanks
  let part ← basicString <|> literalString <|> (do return String.ofList (← takeSome isKeyChar))
  blanks
  return part

/-- A dotted key: the parts before the last, and the last. -/
def key : Scan (List String × String) := do
  let parts ← separated keyPart (literal ".")
  match parts.reverse with
  | last :: before => if parts.length < 80 then return (before.reverse, last) else fail
  | [] => fail

def number : Scan Node :=
  (do
    moment
    return .moment) <|> (do
    float
    return .float) <|> (do return .integer (← integer))

def boolean : Scan Node :=
  (do
    literal "true"
    return .boolean true) <|> (do
    literal "false"
    return .boolean false)

def array (value : Scan Node) : Scan Node := do
  literal "["
  let item : Scan Node := do
    gap
    let v ← value
    gap
    return v
  match ← optional (separated item (literal ",")) with
  | some items =>
      let _ ← optional (literal ",")
      gap
      literal "]"
      return .array items
  | none =>
      gap
      literal "]"
      return .array []

def keyValue (value : Scan Node) : Scan ((List String × String) × Node) := do
  let k ← key
  literal "="
  blanks
  let v ← value
  return (k, v)

def addPair (es : Entries) (p : (List String × String) × Node) : Option Entries :=
  Entries.insert p.1.2 p.2 p.1.1 es

def inlineTable (value : Scan Node) : Scan Node := do
  literal "\x7b"
  let pair : Scan ((List String × String) × Node) := do
    let p ← keyValue value
    blanks
    return p
  let pairs ← optional (separated pair (literal ","))
  blanks
  literal "\x7d"
  return .table .closed (← ofOption ((pairs.getD []).foldlM addPair []))

/-- A value with at most `depth` arrays and tables around one another in it. -/
def value : Nat → Scan Node
  | 0 => (do return .string (← string)) <|> number <|> boolean
  | depth + 1 => (do return .string (← string)) <|> array (value depth) <|>
      inlineTable (value depth) <|> number <|> boolean

/-! Documents -/

/-- A document being read: all that it holds, and the path of the table that is open. -/
structure Draft where
  entries : Entries
  path : List String

def arrayHeader (d : Draft) : Scan Draft := do
  literal "[["
  let (before, last) ← key
  literal "]]"
  lineEnd
  return ⟨← ofOption (Entries.changeAt (Entries.openNext last) before d.entries), before ++ [last]⟩

def tableHeader (d : Draft) : Scan Draft := do
  literal "["
  let (before, last) ← key
  literal "]"
  lineEnd
  return ⟨← ofOption (Entries.changeAt (Entries.openTable last) before d.entries),
    before ++ [last]⟩

def pairLine (d : Draft) : Scan Draft := do
  let p ← keyValue (value 80)
  lineEnd
  let es ← ofOption (Entries.changeAt (fun es => addPair es p) d.path d.entries)
  return { d with entries := es }

def lineStep (d : Draft) : Scan (Option Draft) := do
  blanks
  match ← peek with
  | none => return none
  | some '[' => return some (← arrayHeader d <|> tableHeader d)
  | some '#' =>
      lineEnd
      return some d
  | some '\n' | some '\r' =>
      newline
      return some d
  | some _ => return some (← pairLine d)

def document : Scan Entries := do
  let _ ← optional (literal "\ufeff")
  return (← iterate lineStep ⟨[], []⟩).entries

def parse? (s : String) : Option Entries := run? document s.toList

end SchemaDrift.Toml
