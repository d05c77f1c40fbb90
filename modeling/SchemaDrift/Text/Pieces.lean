/-!
A text taken apart at a separator, and put together again.
-/

namespace SchemaDrift.Text

/-- The pieces between the occurrences of `mark`, one more than there are of it. -/
def pieces (mark : Char) : List Char → List (List Char)
  | [] => [[]]
  | c :: cs =>
      if c == mark then [] :: pieces mark cs
      else match pieces mark cs with
        | [] => [[c]]
        | p :: ps => (c :: p) :: ps

def join (mark : Char) : List (List Char) → List Char
  | [] => []
  | [p] => p
  | p :: ps => p ++ mark :: join mark ps

theorem pieces_ne_nil (mark : Char) (s : List Char) : pieces mark s ≠ [] := by
  cases s with
  | nil => simp [pieces]
  | cons c cs =>
      rw [pieces]
      split
      · simp
      · split <;> simp

theorem join_cons {mark : Char} {p : List Char} {ps : List (List Char)} (h : ps ≠ []) :
    join mark (p :: ps) = p ++ mark :: join mark ps := by
  cases ps with
  | nil => exact absurd rfl h
  | cons q qs => rfl

theorem join_pieces (mark : Char) (s : List Char) : join mark (pieces mark s) = s := by
  induction s with
  | nil => rfl
  | cons c cs ih =>
      rw [pieces]
      split
      · next h => rw [join_cons (pieces_ne_nil mark cs), ih, beq_iff_eq.1 h]; rfl
      · cases hp : pieces mark cs with
        | nil => exact absurd hp (pieces_ne_nil mark cs)
        | cons p ps =>
            rw [hp] at ih
            cases ps with
            | nil => simpa [join] using ih
            | cons q qs => simpa [join] using ih

/-- What stands before the first `mark`, and what stands after it if there is one. -/
def cut (mark : Char) (s : List Char) : List Char × Option (List Char) :=
  (s.takeWhile (· != mark), (s.dropWhile (· != mark)).tail?)

end SchemaDrift.Text
