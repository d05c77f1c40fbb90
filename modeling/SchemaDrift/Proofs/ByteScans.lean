import SchemaDrift.Proofs.Encoding
import SchemaDrift.Proofs.Lexing

namespace SchemaDrift

namespace Text

def IsUniform (p : Char → Bool) : Prop := ∃ v, ∀ c : Char, 128 ≤ c.toNat → p c = v

structure Leads (c b : Char) (bs : List Char) : Prop where
  charBytes_eq : charBytes c = b :: bs
  inner : ∀ e ∈ bs, isContinuation e = true
  same : c.toNat < 128 ∧ b = c ∧ bs = [] ∨ 128 ≤ c.toNat ∧ 128 ≤ b.toNat

theorem exists_leads (c : Char) : ∃ b bs, Leads c b bs := by
  by_cases hc : c.toNat < 128
  · exact ⟨c, [], charBytes_of_ascii hc, fun _ he => absurd he List.not_mem_nil,
      .inl ⟨hc, rfl, rfl⟩⟩
  · have hc := Nat.le_of_not_lt hc
    obtain ⟨b, bs, hbytes, hb, -, hbs⟩ := exists_lead hc
    exact ⟨b, bs, hbytes, hbs, .inr ⟨hc, Nat.le_trans (by decide) hb⟩⟩

theorem le_of_isContinuation {e : Char} (h : isContinuation e = true) : 128 ≤ e.toNat := by
  rw [isContinuation, Bool.and_eq_true, decide_eq_true_eq] at h
  exact h.1

variable {c b : Char} {bs : List Char}

namespace Leads

theorem wide (h : Leads c b bs) : ∀ e ∈ bs, 128 ≤ e.toNat :=
  fun e he => le_of_isContinuation (h.inner e he)

theorem apply_of_mem (h : Leads c b bs) {p : Char → Bool} (hp : IsUniform p) :
    ∀ e ∈ b :: bs, p e = p c := by
  intro e he
  rcases h.same with ⟨-, rfl, rfl⟩ | ⟨hc, hb⟩
  · rw [List.mem_singleton.1 he]
  · obtain ⟨v, hv⟩ := hp
    rcases List.mem_cons.1 he with rfl | he
    · rw [hv e hb, hv c hc]
    · rw [hv e (h.wide e he), hv c hc]

theorem apply (h : Leads c b bs) {p : Char → Bool} (hp : IsUniform p) : p b = p c :=
  h.apply_of_mem hp b List.mem_cons_self

theorem of_ascii (h : Leads c b bs) (hc : c.toNat < 128) : b = c ∧ bs = [] := by
  rcases h.same with ⟨-, hb, hbs⟩ | ⟨hwide, -⟩
  · exact ⟨hb, hbs⟩
  · exact absurd hc (Nat.not_lt_of_le hwide)

theorem utf8Size_eq (h : Leads c b bs) : c.utf8Size = bs.length + 1 := by
  rw [← length_charBytes, h.charBytes_eq, List.length_cons]

end Leads

theorem isUniform_of_ascii {p : Char → Bool} (h : ∀ c, p c = true → c.toNat < 128) :
    IsUniform p :=
  ⟨false, fun c hc => Bool.eq_false_iff.2 fun hp => absurd (h c hp) (Nat.not_lt_of_le hc)⟩

theorem isUniform_beq {a : Char} (ha : a.toNat < 128) : IsUniform (· == a) :=
  isUniform_of_ascii fun c hc => by rwa [beq_iff_eq.1 hc]

namespace IsUniform

variable {p q : Char → Bool}

theorem not (hp : IsUniform p) : IsUniform (fun c => !p c) := by
  obtain ⟨v, hv⟩ := hp
  exact ⟨!v, fun c hc => congrArg Bool.not (hv c hc)⟩

theorem or (hp : IsUniform p) (hq : IsUniform q) : IsUniform (fun c => p c || q c) := by
  obtain ⟨v, hv⟩ := hp
  obtain ⟨w, hw⟩ := hq
  refine ⟨v || w, fun c hc => ?_⟩
  dsimp only
  rw [hv c hc, hw c hc]

end IsUniform

theorem toNat_of_isAlpha (h : c.isAlpha = true) : 65 ≤ c.toNat ∧ c.toNat ≤ 122 := by
  change (decide (c.val ≥ 'A'.val ∧ c.val ≤ 'Z'.val) ||
    (decide (c.val ≥ 'a'.val) && decide (c.val ≤ 'z'.val))) = true at h
  rw [Bool.or_eq_true, Bool.and_eq_true, decide_eq_true_eq, decide_eq_true_eq,
    decide_eq_true_eq] at h
  rcases h with ⟨hle, hge⟩ | ⟨hle, hge⟩
  · exact ⟨UInt32.le_iff_toNat_le.1 hle, Nat.le_trans (UInt32.le_iff_toNat_le.1 hge) (by decide)⟩
  · exact ⟨Nat.le_trans (by decide) (UInt32.le_iff_toNat_le.1 hle), UInt32.le_iff_toNat_le.1 hge⟩

theorem toNat_of_isAlphanum (h : c.isAlphanum = true) : 48 ≤ c.toNat ∧ c.toNat ≤ 122 := by
  rcases Bool.or_eq_true_iff.1 h with h | h
  · exact (toNat_of_isAlpha h).imp_left (Nat.le_trans (by decide))
  · exact (Char.isDigit_iff_toNat.1 h).imp_right fun hle => Nat.le_trans hle (by decide)

theorem toNat_lt_of_isAlphanum (h : c.isAlphanum = true) : c.toNat < 128 :=
  Nat.lt_of_le_of_lt (toNat_of_isAlphanum h).2 (by decide)

theorem isUniform_isAlphanum : IsUniform Char.isAlphanum :=
  isUniform_of_ascii fun _ => toNat_lt_of_isAlphanum

theorem toNat_lt_of_isDigit (h : c.isDigit = true) : c.toNat < 128 :=
  Nat.lt_of_le_of_lt (Char.isDigit_iff_toNat.1 h).2 (by decide)

theorem isUniform_isDigit : IsUniform Char.isDigit :=
  isUniform_of_ascii fun _ => toNat_lt_of_isDigit

theorem isUniform_isBlank : IsUniform isBlank :=
  ((((isUniform_beq (by decide)).or (isUniform_beq (by decide))).or (isUniform_beq (by decide))).or
    (isUniform_beq (by decide))).or (isUniform_beq (by decide))

theorem takeWhile_bytes {p : Char → Bool} (hp : IsUniform p) (s : List Char) :
    (bytes s).takeWhile p = bytes (s.takeWhile p) := by
  induction s with
  | nil => rfl
  | cons c s ih =>
      obtain ⟨b, bs, hb⟩ := exists_leads c
      rw [bytes_cons, List.takeWhile_cons]
      split
      · next hc =>
          rw [hb.charBytes_eq, List.takeWhile_append_of_pos fun e he =>
            (hb.apply_of_mem hp e he).trans hc, ih, bytes_cons,
            hb.charBytes_eq]
      · next hc =>
          rw [hb.charBytes_eq, List.cons_append,
            List.takeWhile_cons_of_neg (by rwa [hb.apply hp])]
          rfl

theorem lineSize_bytes (s : List Char) : lineSize (bytes s) = extent s (lineSize s) := by
  have hline : IsUniform (· != '\n') := (isUniform_beq (by decide)).not
  rw [lineSize, lineSize, takeWhile_bytes hline, length_bytes, extent_takeWhile]

theorem toNat_lt_of_isBlank (h : isBlank c = true) : c.toNat < 128 := by
  simp only [isBlank, Bool.or_eq_true, beq_iff_eq] at h
  rcases h with (((rfl | rfl) | rfl) | rfl) | rfl <;> decide

theorem head?_bytes {p : Char → Bool} (hp : IsUniform p) (s : List Char) :
    ((bytes s).head?.map p).getD false = (s.head?.map p).getD false := by
  cases s with
  | nil => rfl
  | cons c s =>
      obtain ⟨b, bs, hb⟩ := exists_leads c
      rw [bytes_cons, hb.charBytes_eq]
      exact hb.apply hp

theorem beq_some_eq_getD {a : Char} (o : Option Char) :
    (o == some a) = (o.map (· == a)).getD false := by
  cases o <;> rfl

theorem head?_bytes_beq {a : Char} (ha : a.toNat < 128) (s : List Char) :
    ((bytes s).head? == some a) = (s.head? == some a) := by
  rw [beq_some_eq_getD, beq_some_eq_getD, head?_bytes (isUniform_beq ha)]

theorem beq_of_wide {a : Char} (ha : a.toNat < 128) (hc : 128 ≤ c.toNat) : (c == a) = false :=
  beq_eq_false_iff_ne.2 fun h => absurd (h ▸ hc) (Nat.not_le_of_lt ha)

def bytesBehind (behind : List Char) : List Char := (bytes behind.reverse).reverse

theorem bytesBehind_cons (c : Char) (behind : List Char) :
    bytesBehind (c :: behind) = (charBytes c).reverse ++ bytesBehind behind := by
  simp [bytesBehind]

theorem head?_bytesBehind {p : Char → Bool} (hp : IsUniform p) (behind : List Char) :
    ((bytesBehind behind).head?.map p).getD false = (behind.head?.map p).getD false := by
  cases behind with
  | nil => rfl
  | cons c behind =>
      obtain ⟨b, bs, hb⟩ := exists_leads c
      obtain ⟨front, last, hlast⟩ := List.eq_nil_or_concat (b :: bs)
        |>.resolve_left (List.cons_ne_nil b bs)
      have hmem : last ∈ b :: bs := by simp [hlast]
      rw [bytesBehind_cons, hb.charBytes_eq, hlast, List.concat_eq_append,
        List.reverse_append]
      exact hb.apply_of_mem hp last hmem

theorem head?_bytesBehind_beq {a : Char} (ha : a.toNat < 128) (behind : List Char) :
    ((bytesBehind behind).head? == some a) = (behind.head? == some a) := by
  rw [beq_some_eq_getD, beq_some_eq_getD, head?_bytesBehind (isUniform_beq ha)]

/-- Two ASCII bytes in a row are two characters. -/
theorem Leads.beq_pair (h : Leads c b bs) {a e : Char} (ha : a.toNat < 128) (he : e.toNat < 128)
    (s : List Char) :
    (b == a && (bs ++ bytes s).head? == some e) = (c == a && s.head? == some e) := by
  rcases h.same with ⟨-, rfl, rfl⟩ | ⟨hc, hb⟩
  · rw [List.nil_append, head?_bytes_beq he]
  · rw [beq_of_wide ha hb, beq_of_wide ha hc, Bool.false_and, Bool.false_and]

theorem Leads.pair (h : Leads c b bs) {a e : Char} {s : List Char} (ha : a.toNat < 128)
    (he : e.toNat < 128) (hb : b = a) (hs : (bs ++ bytes s).head? = some e) :
    c = a ∧ ∃ t, s = e :: t := by
  have hpair := h.beq_pair ha he s
  rw [hb, hs, BEq.rfl, BEq.rfl, Bool.and_self, eq_comm, Bool.and_eq_true, beq_iff_eq,
    beq_iff_eq] at hpair
  exact ⟨hpair.1, List.head?_eq_some_iff.1 hpair.2⟩

theorem bytes_eq_append (s : List Char) (n : Nat) :
    bytes s = bytes (s.take n) ++ bytes (s.drop n) := by
  rw [← bytes_append, List.take_append_drop]

theorem take_bytes (s : List Char) (n : Nat) : (bytes s).take (extent s n) = bytes (s.take n) := by
  rw [bytes_eq_append s n, extent, ← length_bytes, List.take_left]

theorem drop_bytes (s : List Char) (n : Nat) : (bytes s).drop (extent s n) = bytes (s.drop n) := by
  rw [bytes_eq_append s n, extent, ← length_bytes, List.drop_left]

theorem map_extent_succ (c : Char) (s : List Char) (size : Option Nat) :
    (size.map (· + 1)).map (extent (c :: s)) = (size.map (extent s)).map (· + c.utf8Size) := by
  rw [Option.map_map, Option.map_map]
  exact congrArg (Option.map · size) (funext fun n => Nat.add_comm _ _)

theorem map_extent_succ_succ (c e : Char) (s : List Char) (size : Option Nat) :
    (size.map (· + 2)).map (extent (c :: e :: s)) =
      (size.map (extent s)).map (· + (e.utf8Size + c.utf8Size)) := by
  rw [Option.map_map, Option.map_map]
  refine congrArg (Option.map · size) (funext fun n => ?_)
  simp only [Function.comp_apply, extent_cons]
  omega

theorem Leads.beq (h : Leads c b bs) {a : Char} (ha : a.toNat < 128) : (b == a) = (c == a) :=
  h.apply (isUniform_beq ha)

theorem utf8Size_of_ascii (hc : c.toNat < 128) : c.utf8Size = 1 := by
  rw [← length_charBytes, charBytes_of_ascii hc, List.length_singleton]

section

variable {close : Char} {backslash : Bool} {s : List Char}

theorem quotedSize_cons_of_ne (hescape : (backslash && c == '\\') = false)
    (hc : (c == close) = false) (s : List Char) :
    quotedSize close backslash (c :: s) = (quotedSize close backslash s).map (· + 1) := by
  rw [quotedSize.eq_def]
  simp only [hescape, hc, Bool.false_eq_true, if_false]

/-- Bytes that are not ASCII neither close nor escape. -/
theorem quotedSize_append_of_wide (hclose : close.toNat < 128) (hbs : ∀ e ∈ bs, 128 ≤ e.toNat)
    (s : List Char) :
    quotedSize close backslash (bs ++ s) =
      (quotedSize close backslash s).map (· + bs.length) := by
  induction bs with
  | nil => exact Option.map_id'.symm
  | cons e bs ih =>
      obtain ⟨he, hbs⟩ := List.forall_mem_cons.1 hbs
      have hescape : (backslash && e == '\\') = false := by
        rw [beq_of_wide (by decide) he, Bool.and_false]
      rw [List.cons_append, quotedSize_cons_of_ne hescape (beq_of_wide hclose he), ih hbs,
        Option.map_map]
      rfl

/-- An escaped character may be stepped into: what is left of it is passed over byte by byte. -/
theorem quotedSize_bytes (hclose : close.toNat < 128) (backslash : Bool) (s : List Char) :
    quotedSize close backslash (bytes s) = (quotedSize close backslash s).map (extent s) := by
  fun_induction quotedSize close backslash s with
  | case1 => rfl
  | case2 c hc =>
      rw [Bool.and_eq_true, beq_iff_eq] at hc
      obtain ⟨rfl, rfl⟩ := hc
      rfl
  | case3 c hc e s ih =>
      rw [Bool.and_eq_true, beq_iff_eq] at hc
      obtain ⟨rfl, rfl⟩ := hc
      obtain ⟨b, bs, hb⟩ := exists_leads e
      have hstep : quotedSize close true ('\\' :: b :: (bs ++ bytes s)) =
          (quotedSize close true (bs ++ bytes s)).map (· + 2) := by
        rw [quotedSize.eq_def]
        rfl
      rw [bytes_cons, bytes_cons, charBytes_of_ascii (by decide), hb.charBytes_eq,
        List.singleton_append, List.cons_append, hstep, quotedSize_append_of_wide hclose hb.wide,
        ih, map_extent_succ_succ, Option.map_map, hb.utf8Size_eq]
      rfl
  | case4 c hc hq =>
      rw [beq_iff_eq] at hq
      subst hq
      rw [bytes_cons, charBytes_of_ascii hclose, quotedSize.eq_def]
      simp [hc, utf8Size_of_ascii hclose]
  | case5 c hc hq e s he ih =>
      rw [beq_iff_eq] at hq he
      subst hq he
      rw [bytes_cons, bytes_cons, charBytes_of_ascii hclose, quotedSize.eq_def]
      simp only [List.singleton_append, hc, BEq.rfl, if_true, Bool.false_eq_true, if_false]
      rw [ih, map_extent_succ_succ, utf8Size_of_ascii hclose]
  | case6 c hc hq e s he =>
      rw [beq_iff_eq] at hq
      subst hq
      obtain ⟨b, bs, hb⟩ := exists_leads e
      rw [bytes_cons, bytes_cons, charBytes_of_ascii hclose, hb.charBytes_eq, quotedSize.eq_def]
      simp [hc, hb.beq hclose, he, utf8Size_of_ascii hclose]
  | case7 c s hc hq ih =>
      obtain ⟨b, bs, hb⟩ := exists_leads c
      have hescape : (backslash && b == '\\') = false := by
        rw [hb.beq (by decide)]
        exact Bool.eq_false_iff.2 hc
      have hb' : (b == close) = false := by
        rw [hb.beq hclose]
        exact Bool.eq_false_iff.2 hq
      rw [bytes_cons, hb.charBytes_eq, List.cons_append, quotedSize_cons_of_ne hescape hb',
        quotedSize_append_of_wide hclose hb.wide, ih, map_extent_succ, Option.map_map,
        hb.utf8Size_eq]
      rfl

end

theorem startsWith_continuation {q : List Char} (hq : q ≠ []) (hb : isContinuation b = true)
    (s : List Char) : startsWith (b :: s) (bytes q) = false := by
  cases hbytes : bytes q with
  | nil =>
      have hsize := length_bytes q
      rw [hbytes] at hsize
      exact absurd hsize.symm (Nat.ne_of_gt (byteSize_pos hq))
  | cons e q' =>
      have he := not_isContinuation_of_bytes hbytes
      have hne : (e == b) = false := by
        refine beq_eq_false_iff_ne.2 fun h => ?_
        rw [h, hb] at he
        cases he
      rw [startsWith, List.isPrefixOf, hne, Bool.false_and]

theorem indexOf?_append_of_continuation {q : List Char} (hq : q ≠ [])
    (hbs : ∀ e ∈ bs, isContinuation e = true) (s : List Char) :
    indexOf? (bytes q) (bs ++ s) = (indexOf? (bytes q) s).map (· + bs.length) := by
  induction bs with
  | nil => exact Option.map_id'.symm
  | cons e bs ih =>
      obtain ⟨he, hbs⟩ := List.forall_mem_cons.1 hbs
      rw [List.cons_append, indexOf?, startsWith_continuation hq he, ih hbs, Option.map_map]
      rfl

/-- A text is not found inside a character. -/
theorem indexOf?_bytes {q : List Char} (hq : q ≠ []) (s : List Char) :
    indexOf? (bytes q) (bytes s) = (indexOf? q s).map (extent s) := by
  induction s with
  | nil => rfl
  | cons c s ih =>
      obtain ⟨b, bs, hb⟩ := exists_leads c
      have hstart : startsWith (b :: (bs ++ bytes s)) (bytes q) = startsWith (c :: s) q := by
        rw [← startsWith_bytes (c :: s) q, bytes_cons c s, hb.charBytes_eq, List.cons_append]
      rw [bytes_cons, hb.charBytes_eq, List.cons_append, indexOf?, indexOf?, hstart]
      split
      · rfl
      · rw [indexOf?_append_of_continuation hq hb.inner, ih, map_extent_succ, Option.map_map,
          hb.utf8Size_eq]
        rfl

theorem bytes_of_ascii {s : List Char} (hs : ∀ c ∈ s, c.toNat < 128) : bytes s = s := by
  induction s with
  | nil => rfl
  | cons c s ih =>
      obtain ⟨hc, hs⟩ := List.forall_mem_cons.1 hs
      rw [bytes_cons, charBytes_of_ascii hc, ih hs, List.singleton_append]

theorem byteSize_of_ascii {s : List Char} (hs : ∀ c ∈ s, c.toNat < 128) :
    byteSize s = s.length := by
  rw [← length_bytes, bytes_of_ascii hs]

/-- A tag is ASCII throughout. -/
theorem dollarTagSize_bytes (s : List Char) :
    dollarTagSize ('$' :: bytes s) = dollarTagSize ('$' :: s) := by
  have htag : IsUniform (fun c => c.isAlphanum || c == '_') :=
    isUniform_isAlphanum.or (isUniform_beq (by decide))
  have hascii : ∀ c ∈ s.takeWhile (fun c => c.isAlphanum || c == '_'), c.toNat < 128 := by
    intro c hc
    have h := List.mem_takeWhile_imp (p := fun c : Char => c.isAlphanum || c == '_') hc
    rw [Bool.or_eq_true] at h
    rcases h with h | h
    · exact toNat_lt_of_isAlphanum h
    · rw [beq_iff_eq.1 h]
      decide
  have hafter : ((bytes s).drop (s.takeWhile (fun c => c.isAlphanum || c == '_')).length) =
      bytes (s.drop (s.takeWhile (fun c => c.isAlphanum || c == '_')).length) := by
    rw [← drop_bytes, extent_takeWhile, byteSize_of_ascii hascii]
  simp only [dollarTagSize, List.tail_cons, takeWhile_bytes htag, bytes_of_ascii hascii,
    List.drop_succ_cons, hafter, head?_bytes isUniform_isDigit,
    head?_bytes_beq (by decide : '$'.toNat < 128)]

end Text

namespace Piece

open Text

theorem isUniform_isWordChar : IsUniform isWordChar :=
  ⟨true, fun c hc => by simp [isWordChar, hc]⟩

theorem isUniform_isWordStart : IsUniform isWordStart :=
  ⟨true, fun c hc => by simp [isWordStart, hc]⟩

theorem isWordChar_of_wide {c : Char} (hc : 128 ≤ c.toNat) : isWordChar c = true := by
  simp [isWordChar, hc]

variable {c b : Char} {bs : List Char}

theorem commentSize_append_of_wide {depth : Nat} (hbs : ∀ e ∈ bs, 128 ≤ e.toNat)
    (s : List Char) :
    commentSize depth (bs ++ s) = (commentSize depth s).map (· + bs.length) := by
  induction bs with
  | nil => exact Option.map_id'.symm
  | cons e bs ih =>
      obtain ⟨he, hbs⟩ := List.forall_mem_cons.1 hbs
      rw [List.cons_append, commentSize_cons, ih hbs, Option.map_map]
      · rfl
      · rintro rfl
        exact absurd he (by decide)
      · rintro rfl
        exact absurd he (by decide)

theorem commentSize_bytes (depth : Nat) (s : List Char) :
    commentSize depth (bytes s) = (commentSize depth s).map (extent s) := by
  have hopen : charBytes '/' = ['/'] := charBytes_of_ascii (by decide)
  have hclose : charBytes '*' = ['*'] := charBytes_of_ascii (by decide)
  fun_induction commentSize depth s with
  | case1 => rfl
  | case2 depth s ih =>
      rw [bytes_cons, bytes_cons, hopen, hclose, List.singleton_append, List.singleton_append,
        commentSize, ih, map_extent_succ_succ]
      rfl
  | case3 depth s hle =>
      rw [bytes_cons, bytes_cons, hopen, hclose, List.singleton_append, List.singleton_append,
        commentSize, if_pos hle]
      rfl
  | case4 depth s hgt ih =>
      rw [bytes_cons, bytes_cons, hopen, hclose, List.singleton_append, List.singleton_append,
        commentSize, if_neg hgt, ih, map_extent_succ_succ]
      rfl
  | case5 depth c s hno hno' ih =>
      obtain ⟨b, bs, hb⟩ := exists_leads c
      rw [bytes_cons, hb.charBytes_eq, List.cons_append, commentSize_cons,
        commentSize_append_of_wide hb.wide, ih, map_extent_succ, Option.map_map, hb.utf8Size_eq]
      · rfl
      · intro hslash hstar
        obtain ⟨rfl, t, rfl⟩ := hb.pair (by decide) (by decide) hslash hstar
        exact hno t rfl rfl
      · intro hstar hslash
        obtain ⟨rfl, t, rfl⟩ := hb.pair (by decide) (by decide) hstar hslash
        exact hno' t rfl rfl

theorem wordTailSize_append_of_continuation {δ δ' : Delimiter} (hδ : δ'.toList = bytes δ.toList)
    (hbs : ∀ e ∈ bs, isContinuation e = true) (s : List Char) :
    wordTailSize δ' (bs ++ s) = wordTailSize δ' s + bs.length := by
  induction bs with
  | nil => rfl
  | cons e bs ih =>
      obtain ⟨he, hbs⟩ := List.forall_mem_cons.1 hbs
      have hword := isWordChar_of_wide (le_of_isContinuation he)
      have hstart : startsWith (e :: (bs ++ s)) δ'.toList = false := by
        rw [hδ]
        exact startsWith_continuation (List.cons_ne_nil _ _) he _
      rw [List.cons_append, wordTailSize, hword, hstart, ih hbs]
      rfl

theorem wordTailSize_bytes {δ δ' : Delimiter} (hδ : δ'.toList = bytes δ.toList) (s : List Char) :
    wordTailSize δ' (bytes s) = extent s (wordTailSize δ s) := by
  induction s with
  | nil => rfl
  | cons c s ih =>
      obtain ⟨b, bs, hb⟩ := exists_leads c
      have hstart : startsWith (b :: (bs ++ bytes s)) δ'.toList =
          startsWith (c :: s) δ.toList := by
        rw [← startsWith_bytes (c :: s), bytes_cons c s, hb.charBytes_eq, hδ, List.cons_append]
      rw [bytes_cons, hb.charBytes_eq, List.cons_append, wordTailSize, wordTailSize, hstart,
        hb.apply isUniform_isWordChar]
      split
      · rw [wordTailSize_append_of_continuation hδ hb.inner, ih, extent_cons, hb.utf8Size_eq]
        omega
      · rfl

theorem headWord?_bytes (s : List Char) : headWord? (bytes s) = (headWord? s).map bytes := by
  cases s with
  | nil => rfl
  | cons c s =>
      obtain ⟨b, bs, hb⟩ := exists_leads c
      have hs := bytes_cons c s
      rw [hb.charBytes_eq, List.cons_append] at hs
      rw [hs, headWord?, headWord?, ← hs, takeWhile_bytes isUniform_isWordChar,
        hb.apply isUniform_isWordStart]
      split <;> rfl

theorem followsEscapePrefix_bytesBehind (behind : List Char) :
    followsEscapePrefix (bytesBehind behind) = followsEscapePrefix behind := by
  cases behind with
  | nil => rfl
  | cons c behind =>
      by_cases hc : c.toNat < 128
      · rw [bytesBehind_cons, charBytes_of_ascii hc, List.reverse_singleton, List.singleton_append,
          followsEscapePrefix, followsEscapePrefix, head?_bytesBehind isUniform_isWordChar]
      · have hc := Nat.le_of_not_lt hc
        have hprefix : IsUniform (fun c => c == 'E' || c == 'e') :=
          (isUniform_beq (by decide)).or (isUniform_beq (by decide))
        have hno : (c == 'E' || c == 'e') = false := by
          rw [beq_of_wide (by decide) hc, beq_of_wide (by decide) hc, Bool.or_false]
        have hhead := head?_bytesBehind hprefix (c :: behind)
        rw [followsEscapePrefix, hno, Bool.false_and]
        cases hbytes : bytesBehind (c :: behind) with
        | nil => rfl
        | cons e rest =>
            rw [hbytes] at hhead
            have he : (e == 'E' || e == 'e') = false := hhead.trans hno
            rw [followsEscapePrefix, he, Bool.false_and]

end Piece

end SchemaDrift
