/-!
Finding and measuring runs of characters. A measure is a number of characters, so that cutting a
text by it neither loses nor repeats anything.
-/

namespace SchemaDrift.Text

def startsWith (s pattern : List Char) : Bool := pattern.isPrefixOf s

/-- How many characters precede the first occurrence of `pattern`. -/
def indexOf? (pattern : List Char) : List Char → Option Nat
  | [] => none
  | c :: cs =>
      if startsWith (c :: cs) pattern then some 0 else (indexOf? pattern cs).map (· + 1)

def lineSize (s : List Char) : Nat := (s.takeWhile (· != '\n')).length

/-- The size of a quoted run after its opening quote, the closing quote included. A doubled
closing quote does not close, nor does any character after a backslash, where `backslash` holds. -/
def quotedSize (close : Char) (backslash : Bool) : List Char → Option Nat
  | [] => none
  | c :: cs =>
      if backslash && c == '\\' then
        match cs with
        | [] => none
        | _ :: cs => (quotedSize close backslash cs).map (· + 2)
      else if c == close then
        match cs with
        | [] => some 1
        | e :: cs => if e == close then (quotedSize close backslash cs).map (· + 2) else some 1
      else (quotedSize close backslash cs).map (· + 1)

/-- The size of the opener `$tag$` at the head of a text. A tag does not begin with a digit. -/
def dollarTagSize (s : List Char) : Option Nat :=
  let tag := s.tail.takeWhile (fun c => c.isAlphanum || c == '_')
  if (s.tail.head?.map Char.isDigit).getD false then none
  else if (s.drop (tag.length + 1)).head? == some '$' then some (tag.length + 2)
  else none

end SchemaDrift.Text
