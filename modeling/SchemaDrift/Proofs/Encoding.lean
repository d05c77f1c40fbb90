import SchemaDrift.Text.Measure
import SchemaDrift.Text.Search

namespace SchemaDrift.Text

def byte (b : UInt8) : Char := Char.ofNat b.toNat

def charBytes (c : Char) : List Char := (String.utf8EncodeChar c).map byte

def bytes (s : List Char) : List Char := s.flatMap charBytes

def isContinuation (b : Char) : Bool := 128 ≤ b.toNat && b.toNat < 192

def splitAt? : List Char → Nat → Option (List Char × List Char)
  | s, 0 => some ([], s)
  | [], _ + 1 => none
  | c :: cs, n + 1 =>
      if c.utf8Size ≤ n + 1 then
        (splitAt? cs (n + 1 - c.utf8Size)).map (fun parts => (c :: parts.1, parts.2))
      else none

def extent (s : List Char) (n : Nat) : Nat := byteSize (s.take n)

def slice? (s : List Char) (a b : Nat) : Option (List Char) :=
  if a ≤ b then
    (splitAt? s a).bind fun parts => (splitAt? parts.2 (b - a)).map Prod.fst
  else none

@[simp]
theorem bytes_nil : bytes [] = [] := rfl

@[simp]
theorem bytes_cons (c : Char) (s : List Char) : bytes (c :: s) = charBytes c ++ bytes s := rfl

@[simp]
theorem bytes_append (s t : List Char) : bytes (s ++ t) = bytes s ++ bytes t :=
  List.flatMap_append

theorem toNat_byte (b : UInt8) : (byte b).toNat = b.toNat := by
  have hb := b.toNat_lt
  have hvalid : b.toNat.isValidChar := .inl (by omega)
  rw [byte, Char.ofNat, dif_pos hvalid]
  rfl

theorem byte_injective {a b : UInt8} (h : byte a = byte b) : a = b :=
  UInt8.toNat.inj (by rw [← toNat_byte, ← toNat_byte, h])

theorem charBytes_of_ascii {c : Char} (h : c.toNat < 128) : charBytes c = [c] := by
  have hc : c.val.toNat ≤ 127 := Nat.le_of_lt_succ h
  rw [charBytes, String.utf8EncodeChar]
  simp only [hc, if_true, List.map_cons, List.map_nil, byte, UInt8.toNat_ofNat']
  rw [Nat.mod_eq_of_lt (by omega)]
  exact congrArg (fun e => [e]) (Char.ofNat_toNat c)

/-- A character beyond the first 128 is a lead and at least one more byte. -/
theorem exists_lead {c : Char} (h : 128 ≤ c.toNat) :
    ∃ b bs, charBytes c = b :: bs ∧ 192 ≤ b.toNat ∧ bs ≠ [] ∧
      ∀ e ∈ bs, isContinuation e = true := by
  have hc : ¬ c.val.toNat ≤ 127 := Nat.not_le_of_lt h
  have hlead (n : Nat) (hn : 192 ≤ n) (hn' : n < 256) : 192 ≤ (byte (UInt8.ofNat n)).toNat := by
    rw [toNat_byte, UInt8.toNat_ofNat', Nat.mod_eq_of_lt hn']
    exact hn
  have hnext (n : Nat) : isContinuation (byte (UInt8.ofNat (n % 64 + 128))) = true := by
    rw [isContinuation, toNat_byte, UInt8.toNat_ofNat', Nat.mod_eq_of_lt (by omega)]
    simp only [Bool.and_eq_true, decide_eq_true_eq]
    omega
  rw [charBytes, String.utf8EncodeChar]
  simp only [hc, if_false]
  split
  · exact ⟨_, _, rfl, hlead _ (by omega) (by omega), List.cons_ne_nil _ _,
      List.forall_mem_singleton.2 (hnext _)⟩
  split
  · exact ⟨_, _, rfl, hlead _ (by omega) (by omega), List.cons_ne_nil _ _,
      List.forall_mem_cons.2 ⟨hnext _, List.forall_mem_singleton.2 (hnext _)⟩⟩
  · exact ⟨_, _, rfl, hlead _ (by omega) (by omega), List.cons_ne_nil _ _,
      List.forall_mem_cons.2 ⟨hnext _, List.forall_mem_cons.2
        ⟨hnext _, List.forall_mem_singleton.2 (hnext _)⟩⟩⟩

theorem length_charBytes (c : Char) : (charBytes c).length = c.utf8Size := by
  rw [charBytes, List.length_map, String.length_utf8EncodeChar]

@[simp]
theorem length_bytes (s : List Char) : (bytes s).length = byteSize s := by
  induction s with
  | nil => rfl
  | cons c s ih => rw [bytes_cons, List.length_append, length_charBytes, ih, byteSize]

theorem bytes_eq_nil_iff {s : List Char} : bytes s = [] ↔ s = [] := by
  constructor
  · intro h
    cases s with
    | nil => rfl
    | cons c s =>
        have hsize := congrArg List.length h
        rw [length_bytes] at hsize
        exact absurd hsize (Nat.ne_of_gt (byteSize_pos (List.cons_ne_nil c s)))
  · rintro rfl
    rfl

@[simp]
theorem extent_zero (s : List Char) : extent s 0 = 0 := rfl

@[simp]
theorem extent_cons (c : Char) (s : List Char) (n : Nat) :
    extent (c :: s) (n + 1) = c.utf8Size + extent s n := rfl

theorem extent_add (s : List Char) (m n : Nat) :
    extent s (m + n) = extent s m + extent (s.drop m) n := by
  rw [extent, List.take_add, byteSize_append]
  rfl

theorem extent_length (s : List Char) : extent s s.length = byteSize s := by
  rw [extent, List.take_length]

theorem extent_append_length (s t : List Char) : extent (s ++ t) s.length = byteSize s := by
  rw [extent, List.take_left]

theorem extent_takeWhile (p : Char → Bool) (s : List Char) :
    extent s (s.takeWhile p).length = byteSize (s.takeWhile p) := by
  rw [extent, ← List.prefix_iff_eq_take.1 (List.takeWhile_prefix p)]

theorem bytes_eq_map (s : List Char) :
    bytes s = (s.flatMap String.utf8EncodeChar).map byte := by
  rw [bytes, List.map_flatMap]
  rfl

/-- No character has an encoding that another one begins with. -/
theorem eq_of_utf8EncodeChar_append {c e : Char} {x y : List UInt8}
    (h : String.utf8EncodeChar c ++ x = String.utf8EncodeChar e ++ y) : c = e := by
  have hbytes : (String.utf8EncodeChar c).toByteArray ++ x.toByteArray =
      (String.utf8EncodeChar e).toByteArray ++ y.toByteArray := by
    rw [← List.toByteArray_append, h, List.toByteArray_append]
  have hdecode := congrArg (fun b : ByteArray => b.utf8DecodeChar? 0) hbytes
  simp only [ByteArray.utf8DecodeChar?_utf8EncodeChar_append] at hdecode
  exact Option.some.inj hdecode

theorem bytes_prefix_iff {p s : List Char} : bytes p <+: bytes s ↔ p <+: s := by
  constructor
  · intro h
    induction p generalizing s with
    | nil => exact List.nil_prefix
    | cons e p ih =>
        cases s with
        | nil =>
            have hsize := h.length_le
            rw [length_bytes, length_bytes] at hsize
            exact absurd hsize (Nat.not_le_of_lt (byteSize_pos (List.cons_ne_nil e p)))
        | cons c s =>
            have hce : e = c := by
              obtain ⟨x, hx⟩ := h
              rw [bytes_eq_map, bytes_eq_map, List.flatMap_cons, List.flatMap_cons,
                eq_comm, List.map_eq_append_iff] at hx
              obtain ⟨front, rest, hparts, hfront, -⟩ := hx
              rw [List.map_inj_right fun a b => byte_injective] at hfront
              rw [hfront, List.append_assoc] at hparts
              exact (eq_of_utf8EncodeChar_append hparts).symm
            subst hce
            rw [bytes_cons, bytes_cons, List.prefix_append_right_inj] at h
            exact List.cons_prefix_cons.2 ⟨rfl, ih h⟩
  · rintro ⟨t, rfl⟩
    rw [bytes_append]
    exact List.prefix_append _ _

theorem startsWith_bytes (s p : List Char) :
    startsWith (bytes s) (bytes p) = startsWith s p := by
  rw [startsWith, startsWith, Bool.eq_iff_iff, List.isPrefixOf_iff_prefix,
    List.isPrefixOf_iff_prefix, bytes_prefix_iff]

theorem not_isContinuation_of_bytes {s bs : List Char} {b : Char} (h : bytes s = b :: bs) :
    isContinuation b = false := by
  cases s with
  | nil => cases h
  | cons c s =>
      rw [bytes_cons] at h
      by_cases hc : c.toNat < 128
      · rw [charBytes_of_ascii hc] at h
        cases h
        rw [isContinuation, decide_eq_false (by omega), Bool.false_and]
      · obtain ⟨lead, rest, hbytes, hlead, -⟩ := exists_lead (Nat.le_of_not_lt hc)
        rw [hbytes] at h
        cases h
        rw [isContinuation, Bool.and_eq_false_iff, decide_eq_false_iff_not, decide_eq_false_iff_not]
        exact .inr (Nat.not_lt_of_le hlead)

theorem splitAt?_eq_some_iff {s u v : List Char} {n : Nat} :
    splitAt? s n = some (u, v) ↔ s = u ++ v ∧ byteSize u = n := by
  constructor
  · intro h
    induction s generalizing u n with
    | nil =>
        cases n with
        | zero =>
            cases h
            exact ⟨rfl, rfl⟩
        | succ n => cases h
    | cons c s ih =>
        cases n with
        | zero =>
            cases h
            exact ⟨rfl, rfl⟩
        | succ n =>
            rw [splitAt?] at h
            split at h
            · next hc =>
                obtain ⟨parts, hparts, hcut⟩ := Option.map_eq_some_iff.1 h
                cases hcut
                obtain ⟨hs, hsize⟩ := ih hparts
                exact ⟨congrArg (List.cons c) hs, by rw [byteSize, hsize]; omega⟩
            · cases h
  · rintro ⟨rfl, rfl⟩
    induction u with
    | nil => cases v <;> rfl
    | cons c u ih =>
        obtain ⟨n, hn⟩ := Nat.exists_eq_succ_of_ne_zero
          (Nat.ne_of_gt (byteSize_pos (List.cons_ne_nil c u)))
        have hsize : n + 1 = c.utf8Size + byteSize u := hn.symm
        rw [hn, List.cons_append, splitAt?, if_pos (by omega), hsize, Nat.add_sub_cancel_left, ih]
        rfl

theorem slice?_eq_some_iff {s run : List Char} {a b : Nat} :
    slice? s a b = some run ↔
      ∃ u v, s = u ++ (run ++ v) ∧ byteSize u = a ∧ a + byteSize run = b := by
  constructor
  · intro h
    rw [slice?] at h
    split at h
    · next hle =>
        obtain ⟨⟨u, rest⟩, hcut, h⟩ := Option.bind_eq_some_iff.1 h
        obtain ⟨⟨run', v⟩, hrun, hfst⟩ := Option.map_eq_some_iff.1 h
        cases hfst
        obtain ⟨rfl, rfl⟩ := splitAt?_eq_some_iff.1 hcut
        obtain ⟨rfl, hsize⟩ := splitAt?_eq_some_iff.1 hrun
        exact ⟨u, v, rfl, rfl, by dsimp only; omega⟩
    · cases h
  · rintro ⟨u, v, rfl, rfl, rfl⟩
    have hcut : splitAt? (u ++ (run ++ v)) (byteSize u) = some (u, run ++ v) :=
      splitAt?_eq_some_iff.2 ⟨rfl, rfl⟩
    have hrun : splitAt? (run ++ v) (byteSize run) = some (run, v) :=
      splitAt?_eq_some_iff.2 ⟨rfl, rfl⟩
    rw [slice?, if_pos (Nat.le_add_right _ _), hcut, Option.bind_some, Nat.add_sub_cancel_left,
      hrun, Option.map_some]

end SchemaDrift.Text
