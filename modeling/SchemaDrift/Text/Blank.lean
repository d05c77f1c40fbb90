import SchemaDrift.Text.Ranges

/-!
Two notions of white space. Scanning SQL knows the five ASCII blanks; trimming a text and taking
it apart into words knows the blanks of all scripts.
-/

namespace SchemaDrift.Text

/-- The blanks that separate SQL tokens. A vertical tab is not among them. -/
def isBlank (c : Char) : Bool :=
  c == ' ' || c == '\t' || c == '\n' || c == '\x0c' || c == '\r'

def spaceRanges : List (Nat × Nat) := [
  (0x9, 0xD), (0x20, 0x20), (0x85, 0x85), (0xA0, 0xA0), (0x1680, 0x1680), (0x2000, 0x200A),
  (0x2028, 0x2029), (0x202F, 0x202F), (0x205F, 0x205F), (0x3000, 0x3000)]

def isSpace (c : Char) : Bool := inRanges spaceRanges c.toNat

def trimStart (s : List Char) : List Char := s.dropWhile isSpace

def trimEnd (s : List Char) : List Char := (s.reverse.dropWhile isSpace).reverse

def trim (s : List Char) : List Char := trimEnd (trimStart s)

variable {s : List Char}

theorem not_isSpace_of_getLast?_trim {c : Char} (h : (trim s).getLast? = some c) :
    isSpace c = false := by
  have hnot := List.head?_dropWhile_not isSpace (trimStart s).reverse
  rw [trim, trimEnd, List.getLast?_reverse] at h
  rw [h] at hnot
  exact hnot

theorem dropWhile_isSpace_of_head? (h : ∀ c, s.head? = some c → isSpace c = false) :
    s.dropWhile isSpace = s := by
  cases s with
  | nil => rfl
  | cons c s => exact List.dropWhile_cons_of_neg (Bool.eq_false_iff.1 (h c rfl))

theorem trim_of_ends (hhead : ∀ c, s.head? = some c → isSpace c = false)
    (hlast : ∀ c, s.getLast? = some c → isSpace c = false) : trim s = s := by
  rw [trim, trimStart, dropWhile_isSpace_of_head? hhead, trimEnd, dropWhile_isSpace_of_head?,
    List.reverse_reverse]
  rwa [List.head?_reverse]

/-- The maximal runs without white space. `run` is the run being read, backwards. -/
def wordsFrom (run : List Char) : List Char → List (List Char)
  | [] => if run.isEmpty then [] else [run.reverse]
  | c :: cs =>
      if isSpace c then
        if run.isEmpty then wordsFrom [] cs else run.reverse :: wordsFrom [] cs
      else wordsFrom (c :: run) cs

def words (s : List Char) : List (List Char) := wordsFrom [] s

end SchemaDrift.Text

namespace SchemaDrift

def trimmed (s : String) : String := String.ofList (Text.trim s.toList)

end SchemaDrift
