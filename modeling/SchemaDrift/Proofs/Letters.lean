import SchemaDrift.Identifier
import SchemaDrift.Token.Lex

namespace SchemaDrift

namespace Text

/-- What the small letters of ASCII show, all characters do: the others stay as they are. -/
theorem apply_toUpper {α : Type} {f : Char → α}
    (h : ∀ n < 26, f (Char.ofNat (97 + n)).toUpper = f (Char.ofNat (97 + n))) (c : Char) :
    f c.toUpper = f c := by
  by_cases hc : 97 ≤ c.toNat ∧ c.toNat ≤ 122
  · have hn := h (c.toNat - 97) (by omega)
    rwa [Nat.add_sub_cancel' hc.1, Char.ofNat_toNat] at hn
  · have hstay : c.toUpper = c := by
      unfold Char.toUpper
      rw [dif_neg]
      rintro ⟨hlow, hhigh⟩
      exact hc ⟨UInt32.le_iff_toNat_le.1 hlow, UInt32.le_iff_toNat_le.1 hhigh⟩
    rw [hstay]

theorem upperChar_toUpper (c : Char) : upperChar c.toUpper = upperChar c :=
  apply_toUpper (by decide) c

theorem lowerChar_toUpper (c : Char) : lowerChar c.toUpper = lowerChar c :=
  apply_toUpper (by decide) c

theorem isCased_toUpper (c : Char) : isCased c.toUpper = isCased c :=
  apply_toUpper (by decide) c

theorem not_isCaseIgnorable {n : Nat} (h : 65 ≤ n ∧ n ≤ 90 ∨ 97 ≤ n ∧ n ≤ 122) :
    inRanges CaseTable.caseIgnorable n = false := by
  have hranges : CaseTable.caseIgnorable.all (fun r =>
      r.2 < 65 || (90 < r.1 && r.2 < 97) || 122 < r.1) = true := by
    decide +kernel
  rw [Bool.eq_false_iff, ne_eq, inRanges_iff]
  rintro ⟨r, hr, hlow, hhigh⟩
  have hr := List.all_eq_true.1 hranges r hr
  simp only [Bool.or_eq_true, Bool.and_eq_true, decide_eq_true_eq] at hr
  omega

theorem isCaseIgnorable_toUpper (c : Char) : isCaseIgnorable c.toUpper = isCaseIgnorable c := by
  refine apply_toUpper (fun n hn => ?_) c
  have hupper : ∀ n < 26, (Char.ofNat (97 + n)).toUpper.toNat = 65 + n := by decide
  have hlower : ∀ n < 26, (Char.ofNat (97 + n)).toNat = 97 + n := by decide
  rw [isCaseIgnorable, isCaseIgnorable, hupper n hn, hlower n hn, not_isCaseIgnorable (by omega),
    not_isCaseIgnorable (by omega)]

theorem isSpace_toUpper (c : Char) : isSpace c.toUpper = isSpace c :=
  apply_toUpper (by decide) c

theorem toUpper_toUpper (c : Char) : c.toUpper.toUpper = c.toUpper :=
  apply_toUpper (by decide) c

theorem utf8Size_toUpper (c : Char) : c.toUpper.utf8Size = c.utf8Size :=
  apply_toUpper (by decide) c

theorem isAscii_toUpper (c : Char) : Identifier.isAscii c.toUpper = Identifier.isAscii c :=
  apply_toUpper (by decide) c

theorem isWordChar_toUpper (c : Char) : Token.isWordChar c.toUpper = Token.isWordChar c :=
  apply_toUpper (by decide) c

variable (s : List Char)

theorem asciiUpper_asciiUpper : asciiUpper (asciiUpper s) = asciiUpper s := by
  simp only [asciiUpper, List.map_map, Function.comp_def, toUpper_toUpper]

theorem upper_asciiUpper : upper (asciiUpper s) = upper s := by
  simp only [upper, asciiUpper, List.flatMap_map, upperChar_toUpper]

theorem dropWhile_asciiUpper {p : Char → Bool} (hp : ∀ c, p c.toUpper = p c) :
    (asciiUpper s).dropWhile p = asciiUpper (s.dropWhile p) := by
  simp only [asciiUpper, List.dropWhile_map, Function.comp_def, hp]

theorem head?_asciiUpper {α : Type} {f : Char → α} (hf : ∀ c, f c.toUpper = f c) :
    (asciiUpper s).head?.map f = s.head?.map f := by
  simp only [asciiUpper, List.head?_map, Option.map_map, Function.comp_def, hf]

theorem meetsCased_asciiUpper : meetsCased (asciiUpper s) = meetsCased s := by
  rw [meetsCased, dropWhile_asciiUpper s isCaseIgnorable_toUpper,
    head?_asciiUpper _ isCased_toUpper, meetsCased]

theorem toUpper_beq_sigma (c : Char) : (c.toUpper == 'Σ') = (c == 'Σ') :=
  apply_toUpper (f := (· == 'Σ')) (by decide) c

theorem lowerFrom_asciiUpper (before : List Char) :
    lowerFrom (asciiUpper before) (asciiUpper s) = lowerFrom before s := by
  induction s generalizing before with
  | nil => rfl
  | cons c s ih =>
      have hs : asciiUpper (c :: s) = c.toUpper :: asciiUpper s := rfl
      have hbefore : c.toUpper :: asciiUpper before = asciiUpper (c :: before) := rfl
      rw [hs, lowerFrom, hbefore, ih, toUpper_beq_sigma, meetsCased_asciiUpper,
        meetsCased_asciiUpper, lowerChar_toUpper, lowerFrom]

theorem lower_asciiUpper : lower (asciiUpper s) = lower s := lowerFrom_asciiUpper s []

theorem byteSize_asciiUpper : byteSize (asciiUpper s) = byteSize s := by
  induction s with
  | nil => rfl
  | cons c s ih =>
      have hs : asciiUpper (c :: s) = c.toUpper :: asciiUpper s := rfl
      rw [hs, byteSize, ih, utf8Size_toUpper, byteSize]

theorem trim_asciiUpper : trim (asciiUpper s) = asciiUpper (trim s) := by
  simp only [trim, trimStart, trimEnd, dropWhile_asciiUpper _ isSpace_toUpper]
  rw [asciiUpper, ← List.map_reverse, ← asciiUpper, dropWhile_asciiUpper _ isSpace_toUpper,
    asciiUpper, ← List.map_reverse, asciiUpper]

theorem mem_of_mem_trim {c : Char} (h : c ∈ trim s) : c ∈ s := by
  have hend := (List.dropWhile_sublist isSpace).subset (List.mem_reverse.1 h)
  exact (List.dropWhile_sublist isSpace).subset (List.mem_reverse.1 hend)

/-- A word is a keyword in one spelling only. -/
theorem sameWord_of_ne {w k k' : List Char} (h : sameWord w k = true)
    (hk : asciiUpper k ≠ asciiUpper k') : sameWord w k' = false := by
  rw [sameWord, beq_eq_false_iff_ne, beq_iff_eq.1 h]
  exact hk

end Text

namespace Identifier

theorem endsAscii_asciiUpper (s : List Char) :
    endsAscii (Text.asciiUpper s) = endsAscii s := by
  rw [endsAscii, Text.head?_asciiUpper s Text.isAscii_toUpper, Text.asciiUpper, List.getLast?_map,
    Option.map_map]
  simp only [Function.comp_def, Text.isAscii_toUpper, endsAscii]

theorem fold_asciiUpper (d : Dialect) (s : List Char) : fold d (Text.asciiUpper s) = fold d s := by
  rw [fold, Text.upper_asciiUpper, Text.lower_asciiUpper, fold]

/-- A name of word characters is not in quotes. -/
theorem unquote_of_isWordChar {s : List Char} (h : ∀ c ∈ s, Token.isWordChar c = true) :
    unquote s = none := by
  unfold unquote
  split
  · next hhead _ => exact absurd (h _ (List.mem_of_head? hhead)) (by decide)
  · next hhead _ => exact absurd (h _ (List.mem_of_head? hhead)) (by decide)
  · next hhead _ => exact absurd (h _ (List.mem_of_head? hhead)) (by decide)
  · rfl

/-- A name without quotes is read the same in all letter cases. -/
theorem read_asciiUpper (d : Dialect) {s : List Char} (h : ∀ c ∈ s, Token.isWordChar c = true)
    {name : String} : read d (Text.asciiUpper s) = .ok name ↔ read d s = .ok name := by
  have hword : ∀ c ∈ Text.trim s, Token.isWordChar c = true :=
    fun c hc => h c (Text.mem_of_mem_trim s hc)
  have hwordUpper : ∀ c ∈ Text.asciiUpper (Text.trim s), Token.isWordChar c = true := by
    intro c hc
    obtain ⟨e, he, rfl⟩ := List.mem_map.1 hc
    rw [Text.isWordChar_toUpper]
    exact hword e he
  simp only [read, Text.trim_asciiUpper, Text.byteSize_asciiUpper, endsAscii_asciiUpper,
    fold_asciiUpper, unquote_of_isWordChar hword, unquote_of_isWordChar hwordUpper]
  split
  · rfl
  split
  · simp only [reduceCtorEq]
  · rfl

end Identifier

end SchemaDrift
