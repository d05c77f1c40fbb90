import SchemaDrift.Dialect
import SchemaDrift.Text.Measure

/-!
Reading one identifier: a quoted one keeps its case and loses its quotes, an unquoted one folds
as the dialect says.
-/

namespace SchemaDrift

/-- Quotes are looked for in the outermost two bytes. A text of two bytes or more that begins or
ends with a longer character has no such bytes to take off. -/
inductive Fault
  | splitsCharacter (text : String)
deriving DecidableEq, Repr

namespace Identifier

/-- Every doubled `quote` stands for one. -/
def undouble (quote : Char) : List Char → List Char
  | a :: b :: cs =>
      if a == quote && b == quote then quote :: undouble quote cs
      else a :: undouble quote (b :: cs)
  | cs => cs

/-- The text between the first character and the last. -/
def inner (s : List Char) : List Char := s.tail.dropLast

def unquote (s : List Char) : Option (List Char) :=
  match s.head?, s.getLast? with
  | some '"', some '"' => some (undouble '"' (inner s))
  | some '\x60', some '\x60' => some (undouble '\x60' (inner s))
  | some '[', some ']' => some (inner s)
  | _, _ => none

def isAscii (c : Char) : Bool := c.toNat < 128

def endsAscii (s : List Char) : Bool :=
  (s.head?.map isAscii).getD true && (s.getLast?.map isAscii).getD true

def fold (d : Dialect) (s : List Char) : List Char :=
  if d == .db2 then Text.upper s else Text.lower s

def read (d : Dialect) (raw : List Char) : Except Fault String :=
  let s := Text.trim raw
  if Text.byteSize s < 2 then .ok (String.ofList (fold d s))
  else if !endsAscii s then .error (.splitsCharacter (String.ofList s))
  else .ok (String.ofList ((unquote s).getD (fold d s)))

end Identifier

end SchemaDrift
