import SchemaDrift.Text.Search

/-!
The relations that a query names: what stands after `FROM` and `JOIN`, as far as it looks like a
name. The words and blanks of this search are those of ASCII.
-/

namespace SchemaDrift.Text.References

/-- A vertical tab counts as a blank here. -/
def isGap (c : Char) : Bool :=
  c == ' ' || c == '\t' || c == '\n' || c == '\x0b' || c == '\x0c' || c == '\r'

def isWordChar (c : Char) : Bool := c.isAlphanum || c == '_'

def isNameChar (c : Char) : Bool := isWordChar c || c == '$' || c == '#'

/-- The size of a name between `opening` and `closing`. It is not empty. -/
def quotedSize (closing : Char) (s : List Char) : Option Nat :=
  let body := s.takeWhile (· != closing)
  if body.isEmpty || (s.drop body.length).isEmpty then none else some (body.length + 2)

def partSize : List Char → Option Nat
  | [] => none
  | c :: cs =>
      if c == '"' || c == '\x60' then quotedSize c cs
      else if c == '[' then quotedSize ']' cs
      else if c.isAlpha || c == '_' then some ((cs.takeWhile isNameChar).length + 1)
      else none

/-- The size of a dot and a part after it, with the gaps around the dot. -/
def nextPartSize (s : List Char) : Option Nat :=
  let gap := (s.takeWhile isGap).length
  match s.drop gap with
  | '.' :: rest =>
      let gap' := (rest.takeWhile isGap).length
      (partSize (rest.drop gap')).map (fun n => gap + 1 + gap' + n)
  | _ => none

theorem nextPartSize_pos {s : List Char} {n : Nat} (h : nextPartSize s = some n) : 0 < n := by
  simp only [nextPartSize] at h
  split at h
  · obtain ⟨m, -, rfl⟩ := Option.map_eq_some_iff.1 h
    omega
  · cases h

theorem length_pos_of_nextPartSize {s : List Char} {n : Nat} (h : nextPartSize s = some n) :
    0 < s.length := by
  cases s with
  | nil => simp [nextPartSize] at h
  | cons => simp

def moreSize (s : List Char) : Nat :=
  match _h : nextPartSize s with
  | none => 0
  | some n => n + moreSize (s.drop n)
termination_by s.length
decreasing_by
  have := nextPartSize_pos _h
  have := length_pos_of_nextPartSize _h
  simp only [List.length_drop]
  omega

def nameSize (s : List Char) : Option Nat :=
  (partSize s).map (fun n => n + moreSize (s.drop n))

def sameLetters (s : List Char) (keyword : String) : Bool :=
  s.map Char.toLower == keyword.toList

/-- `FROM name` or `JOIN name` at the head of a text: the name and the size of all. -/
def reference? (s : List Char) : Option (List Char × Nat) :=
  if sameLetters (s.take 4) "from" || sameLetters (s.take 4) "join" then
    let rest := s.drop 4
    let gap := (rest.takeWhile isGap).length
    if gap = 0 then none
    else (nameSize (rest.drop gap)).map (fun n => ((rest.drop gap).take n, 4 + gap + n))
  else none

/-- The names in the order in which they stand. `skip` characters belong to the last one found,
and `inWord` tells whether the character before is part of a word. -/
def namesFrom (skip : Nat) (inWord : Bool) : List Char → List (List Char)
  | [] => []
  | c :: cs =>
      match skip with
      | n + 1 => namesFrom n (isWordChar c) cs
      | 0 =>
          match (if inWord then none else reference? (c :: cs)) with
          | some (name, size) => name :: namesFrom (size - 1) (isWordChar c) cs
          | none => namesFrom 0 (isWordChar c) cs

def names (s : List Char) : List (List Char) := namesFrom 0 false s

end SchemaDrift.Text.References
