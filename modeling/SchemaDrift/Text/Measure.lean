/-!
Sizes of texts: bytes of the encoding, and lines.
-/

namespace SchemaDrift.Text

def byteSize : List Char → Nat
  | [] => 0
  | c :: cs => c.utf8Size + byteSize cs

def newlines (s : List Char) : Nat := s.count '\n'

@[simp]
theorem byteSize_nil : byteSize [] = 0 := rfl

@[simp]
theorem byteSize_append (s t : List Char) : byteSize (s ++ t) = byteSize s + byteSize t := by
  induction s with
  | nil => simp
  | cons c s ih => simp [byteSize, ih, Nat.add_assoc]

theorem byteSize_pos {s : List Char} (h : s ≠ []) : 0 < byteSize s := by
  cases s with
  | nil => exact absurd rfl h
  | cons c s => exact Nat.lt_of_lt_of_le c.utf8Size_pos (Nat.le_add_right _ _)

theorem byteSize_le_of_sublist {s t : List Char} (h : s.Sublist t) : byteSize s ≤ byteSize t := by
  induction h with
  | slnil => exact Nat.le_refl _
  | cons c _ ih => exact Nat.le_trans ih (Nat.le_add_left _ _)
  | cons_cons c _ ih => exact Nat.add_le_add_left ih _

@[simp]
theorem newlines_append (s t : List Char) : newlines (s ++ t) = newlines s + newlines t := by
  simp [newlines]

end SchemaDrift.Text
