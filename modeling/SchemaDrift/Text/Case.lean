import SchemaDrift.Text.CaseTable

/-!
Letter case. Keywords are compared up to ASCII case; names and words fold over all of Unicode,
where one character may become several and a sigma at the end of a word has a form of its own.
-/

namespace SchemaDrift.Text

def upperChar (c : Char) : List Char :=
  if c.toNat < 128 then [c.toUpper]
  else match CaseTable.upperLong.lookup c.toNat with
    | some cs => cs.map Char.ofNat
    | none => [((CaseTable.moved CaseTable.upperRuns c.toNat).map Char.ofNat).getD c]

def lowerChar (c : Char) : List Char :=
  if c.toNat < 128 then [c.toLower]
  else match CaseTable.lowerLong.lookup c.toNat with
    | some cs => cs.map Char.ofNat
    | none => [((CaseTable.moved CaseTable.lowerRuns c.toNat).map Char.ofNat).getD c]

def isCased (c : Char) : Bool := inRanges CaseTable.cased c.toNat

def isCaseIgnorable (c : Char) : Bool := inRanges CaseTable.caseIgnorable c.toNat

/-- Whether the nearest character that counts is a letter with case. -/
def meetsCased (s : List Char) : Bool :=
  ((s.dropWhile isCaseIgnorable).head?.map isCased).getD false

def upper (s : List Char) : List Char := s.flatMap upperChar

/-- `before` holds what precedes, backwards. A capital sigma that ends a word becomes `ς`. -/
def lowerFrom (before : List Char) : List Char → List Char
  | [] => []
  | c :: cs =>
      (if c == 'Σ' then [if meetsCased before && !meetsCased cs then 'ς' else 'σ']
       else lowerChar c) ++ lowerFrom (c :: before) cs

def lower (s : List Char) : List Char := lowerFrom [] s

def asciiUpper (s : List Char) : List Char := s.map Char.toUpper

def sameWord (s t : List Char) : Bool := asciiUpper s == asciiUpper t

end SchemaDrift.Text

namespace SchemaDrift

def upperCase (s : String) : String := String.ofList (Text.upper s.toList)

def lowerCase (s : String) : String := String.ofList (Text.lower s.toList)

def sameKeyword (s t : String) : Bool := Text.sameWord s.toList t.toList

end SchemaDrift
