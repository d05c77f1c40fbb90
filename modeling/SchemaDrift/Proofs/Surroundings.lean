import SchemaDrift.Proofs.Pieces

namespace SchemaDrift

inductive Ends (b : Char) : List Char → Prop
  | nil : Ends b []
  | cons (rest : List Char) : Ends b (b :: rest)

theorem EndsLine.ends {t : List Char} (h : EndsLine t) : Ends '\n' t := by
  cases h with
  | nil => exact .nil
  | cons rest => exact .cons rest

def Text.isBreak (c : Char) : Bool := isBlank c || c == ',' || c == ')' || c == ':'

theorem Text.ne_of_isBreak {a b : Char} (hb : isBreak b = true) (ha : isBreak a = false) :
    a ≠ b := by
  rintro rfl
  rw [hb] at ha
  cases ha

theorem Piece.not_isWordChar_of_isBreak {b : Char} (hb : Text.isBreak b = true) :
    isWordChar b = false := by
  simp only [Text.isBreak, Text.isBlank, Bool.or_eq_true, beq_iff_eq] at hb
  rcases hb with (((((((rfl | rfl) | rfl) | rfl) | rfl) | rfl) | rfl) | rfl) <;> decide

theorem Piece.closed_of_closed {what : Unclosed} {a b : Option Nat} {p : Piece} {n : Nat}
    (hab : ∀ m, m + 1 = n → a = some m → b = some m) (h : closed what a = .ok (p, n)) :
    closed what b = .ok (p, n) := by
  cases a with
  | none => cases h
  | some m =>
      cases h
      rw [hab m rfl rfl]
      rfl

section Within

variable {s body rest t : List Char}

/-- A run at the head of `s ++ t` that is not longer than `s`. -/
theorem exists_rest_of_append_eq (h : s ++ t = body ++ rest) (hle : body.length ≤ s.length) :
    ∃ s', s = body ++ s' ∧ rest = s' ++ t := by
  rcases List.append_eq_append_iff.1 h with ⟨a, rfl, rfl⟩ | ⟨a, rfl, rfl⟩
  · rw [List.length_append] at hle
    obtain rfl := List.eq_nil_of_length_eq_zero (by omega : a.length = 0)
    exact ⟨[], by simp, rfl⟩
  · exact ⟨a, rfl, rfl⟩

theorem commentSize_of_le {depth n : Nat} (hd : 1 ≤ depth)
    (h : Piece.commentSize depth (s ++ t) = some n) (hn : n ≤ s.length) (t' : List Char) :
    Piece.commentSize depth (s ++ t') = some n := by
  obtain ⟨body, rest, hs, rfl, hbody⟩ := (Piece.commentSize_eq_some_iff hd).1 h
  obtain ⟨s', rfl, -⟩ := exists_rest_of_append_eq hs hn
  rw [List.append_assoc, Piece.commentSize_of_commentTail hbody]

theorem indexOf?_of_le {q : List Char} (hq : q ≠ []) {n : Nat}
    (h : Text.indexOf? q (s ++ t) = some n) (hn : n + q.length ≤ s.length) (t' : List Char) :
    Text.indexOf? q (s ++ t') = some n := by
  obtain ⟨body, rest, hs, rfl, hfirst⟩ := (Text.indexOf?_eq_some_iff hq).1 h
  rw [← List.append_assoc] at hs
  obtain ⟨s', rfl, -⟩ := exists_rest_of_append_eq hs (by rwa [List.length_append])
  refine (Text.indexOf?_eq_some_iff hq).2 ⟨body, s' ++ t', by simp, rfl, fun k hk hpre => ?_⟩
  have hle : k + q.length ≤ (body ++ q).length := by
    rw [List.length_append]
    omega
  have hdrop (u : List Char) :
      (body ++ q ++ s' ++ u).drop k = (body ++ q).drop k ++ (s' ++ u) := by
    rw [List.append_assoc, List.drop_append_of_le_length (Nat.le_of_add_right_le hle)]
  rw [hdrop] at hpre
  refine hfirst k hk ?_
  rw [hdrop]
  refine (List.prefix_of_prefix_length_le hpre (List.prefix_append _ _) ?_).trans
    (List.prefix_append _ _)
  rw [List.length_drop]
  omega

end Within

namespace Ends

variable {b b' : Char} {t t' : List Char}

theorem takeWhile_append (ht : Ends b t) {p : Char → Bool} (hp : p b = false) (s : List Char) :
    (s ++ t).takeWhile p = s.takeWhile p := by
  induction s with
  | nil =>
      cases ht with
      | nil => rfl
      | cons u =>
          rw [List.nil_append, List.takeWhile_cons, hp]
          rfl
  | cons c s ih =>
      rw [List.cons_append, List.takeWhile_cons, List.takeWhile_cons, ih]

theorem head?_append (ht : Ends b t) {c : Char} (hc : c ≠ b) (s : List Char) :
    (s ++ t).head? = some c ↔ s.head? = some c := by
  cases s with
  | nil =>
      constructor
      · intro h
        cases ht with
        | nil => cases h
        | cons u => exact absurd (Option.some.inj h).symm hc
      · intro h
        cases h
  | cons a s => rfl

theorem head?_beq_append (ht : Ends b t) {c : Char} (hc : c ≠ b) (s : List Char) :
    ((s ++ t).head? == some c) = (s.head? == some c) := by
  rw [Bool.eq_iff_iff, beq_iff_eq, beq_iff_eq]
  exact ht.head?_append hc s

theorem startsWith_append (ht : Ends b t) {q : List Char} (hq : b ∉ q) (s : List Char) :
    Text.startsWith (s ++ t) q = Text.startsWith s q := by
  unfold Text.startsWith
  induction q generalizing s with
  | nil => rfl
  | cons a q ih =>
      obtain ⟨ha, hq⟩ := List.ne_and_not_mem_of_not_mem_cons hq
      cases s with
      | nil =>
          cases ht with
          | nil => rfl
          | cons u =>
              have hne : (a == b) = false := beq_eq_false_iff_ne.2 ha.symm
              rw [List.nil_append, List.isPrefixOf_cons_cons, hne]
              rfl
      | cons c s =>
          rw [List.cons_append, List.isPrefixOf_cons_cons, List.isPrefixOf_cons_cons, ih hq]

theorem quotedSize_of_le (ht : Ends b t) (ht' : Ends b' t') {close : Char} (hclose : close ≠ b)
    (hclose' : close ≠ b') (hescape : close ≠ '\\') {backslash : Bool} {s : List Char} {n : Nat}
    (h : Text.quotedSize close backslash (s ++ t) = some n) (hn : n ≤ s.length) :
    Text.quotedSize close backslash (s ++ t') = some n := by
  rw [Text.quotedSize_eq_some_iff hescape] at h ⊢
  obtain ⟨body, rest, hs, rfl, hbody⟩ := h
  obtain ⟨s', rfl, rfl⟩ := exists_rest_of_append_eq hs hn
  refine ⟨body, s' ++ t', List.append_assoc .., rfl, hbody.of_head? fun hhead => ?_⟩
  exact (ht.head?_append hclose s').2 ((ht'.head?_append hclose' s').1 hhead)

/-- A run that ends before what follows. -/
theorem takeWhile_of_le (ht : Ends b t) (ht' : Ends b' t') {p : Char → Bool}
    (hp : p b = false → p b' = false) (hne : p b = false ∨ t ≠ []) {s : List Char}
    (hs : ((s ++ t).takeWhile p).length ≤ s.length) :
    (s ++ t').takeWhile p = (s ++ t).takeWhile p := by
  by_cases hb : p b = true
  · induction s with
    | nil =>
        cases ht with
        | nil => exact absurd rfl (hne.resolve_left (Bool.not_eq_false _ ▸ hb))
        | cons u =>
            rw [List.nil_append, List.takeWhile_cons_of_pos hb] at hs
            cases hs
    | cons c s ih =>
        by_cases hc : p c = true
        · rw [List.cons_append, List.takeWhile_cons_of_pos hc] at hs
          rw [List.cons_append, List.cons_append, List.takeWhile_cons_of_pos hc,
            List.takeWhile_cons_of_pos hc, ih (Nat.le_of_succ_le_succ hs)]
        · rw [List.cons_append, List.cons_append, List.takeWhile_cons_of_neg hc,
            List.takeWhile_cons_of_neg hc]
  · rw [ht.takeWhile_append (Bool.eq_false_iff.2 hb),
      ht'.takeWhile_append (hp (Bool.eq_false_iff.2 hb))]

theorem dollarTagSize_append (hword : Piece.isWordChar b = false) (ht : Ends b t) (c : Char)
    (cs : List Char) : Text.dollarTagSize (c :: cs ++ t) = Text.dollarTagSize (c :: cs) := by
  have hdollar : '$' ≠ b := by
    rintro rfl
    exact absurd hword (by decide)
  simp only [Piece.isWordChar, Bool.or_eq_false_iff] at hword
  have htag := ht.takeWhile_append (p := fun c => c.isAlphanum || c == '_')
    (Bool.or_eq_false_iff.2 hword.1.1) cs
  have hdigit : ((cs ++ t).head?.map Char.isDigit).getD false =
      (cs.head?.map Char.isDigit).getD false := by
    cases cs with
    | nil =>
        cases ht with
        | nil => rfl
        | cons u => exact (Bool.or_eq_false_iff.1 hword.1.1.1).2
    | cons a cs => rfl
  have hle := (List.takeWhile_prefix (fun c => c.isAlphanum || c == '_') (l := cs)).length_le
  unfold Text.dollarTagSize
  simp only [List.cons_append, List.tail_cons, List.drop_succ_cons, htag, hdigit,
    List.drop_append_of_le_length hle, beq_iff_eq, ht.head?_append hdollar]

variable (hb : Text.isBreak b = true)
include hb

theorem headWord?_append (ht : Ends b t) (s : List Char) :
    Piece.headWord? (s ++ t) = Piece.headWord? s := by
  have hword := Piece.not_isWordChar_of_isBreak hb
  cases s with
  | nil =>
      cases ht with
      | nil => rfl
      | cons u =>
          have hstart : ¬ Piece.isWordStart b = true := fun hstart => by
            rw [Piece.isWordChar_of_isWordStart hstart] at hword
            cases hword
          exact if_neg hstart
  | cons c s =>
      have htake := ht.takeWhile_append hword (c :: s)
      rw [List.cons_append] at htake
      simp only [List.cons_append, Piece.headWord?, htake]

theorem wordTailSize_append (ht : Ends b t) {δ : Delimiter} (hδ : b ∉ δ.toList)
    (s : List Char) : Piece.wordTailSize δ (s ++ t) = Piece.wordTailSize δ s := by
  induction s with
  | nil =>
      cases ht with
      | nil => rfl
      | cons u =>
          simp [Piece.wordTailSize, Piece.not_isWordChar_of_isBreak hb]
  | cons c s ih =>
      rw [List.cons_append, Piece.wordTailSize, Piece.wordTailSize, ← List.cons_append,
        ht.startsWith_append hδ, ih]

theorem directive?_of_le (ht : Ends b t) (ht' : Ends b t') (hline : (b != '\n') = false ∨ t ≠ [])
    (d : Dialect) {s : List Char}
    (hs : ∀ sets n, Piece.directive? d (s ++ t) = some (sets, n) → n ≤ s.length) :
    Piece.directive? d (s ++ t') = Piece.directive? d (s ++ t) := by
  unfold Piece.directive? at hs ⊢
  rw [ht.headWord?_append hb] at hs ⊢
  rw [ht'.headWord?_append hb]
  cases hw : Piece.headWord? s with
  | none => rfl
  | some w =>
      have hle := (Piece.headWord?_prefix hw).length_le
      simp only [hw, List.drop_append_of_le_length hle] at hs ⊢
      by_cases hd : d.delimiterDirective = true
      · by_cases hword : Text.sameWord w "DELIMITER".toList = true
        · rw [if_pos hd, if_pos hword] at hs
          have hrest := hs _ _ rfl
          rw [ht.takeWhile_of_le ht' id hline (by
            rw [List.length_drop]
            omega)]
        · rw [if_neg hword, if_neg hword]
      · rw [if_neg hd, if_neg hd]

theorem ofCode_of_le (ht : Ends b t) (ht' : Ends b t') {d : Dialect} {δ : Delimiter}
    (hδ : b ∉ δ.toList) {behind : List Char} {c : Char} {cs : List Char} {p : Piece} {n : Nat}
    (h : Piece.ofCode d δ behind c (cs ++ t) = .ok (p, n)) (hn : n ≤ (c :: cs).length) :
    Piece.ofCode d δ behind c (cs ++ t') = .ok (p, n) := by
  have hquoted {what : Unclosed} {close : Char} {backslash : Bool}
      (hclose : Text.isBreak close = false) (hescape : close ≠ '\\')
      (h : Piece.closed what (Text.quotedSize close backslash (cs ++ t)) = .ok (p, n)) :
      Piece.closed what (Text.quotedSize close backslash (cs ++ t')) = .ok (p, n) := by
    refine Piece.closed_of_closed (fun m hm hsize => ?_) h
    refine ht.quotedSize_of_le ht' (Text.ne_of_isBreak hb hclose) (Text.ne_of_isBreak hb hclose)
      hescape hsize ?_
    rw [List.length_cons] at hn
    omega
  unfold Piece.ofCode at h ⊢
  by_cases hquote : (c == '\'') = true
  · rw [if_pos hquote] at h ⊢
    exact hquoted (by decide) (by decide) h
  rw [if_neg hquote] at h ⊢
  by_cases hdouble : (c == '"') = true
  · rw [if_pos hdouble] at h ⊢
    exact hquoted (by decide) (by decide) h
  rw [if_neg hdouble] at h ⊢
  by_cases hback : (c == '\x60') = true
  · rw [if_pos hback] at h ⊢
    exact hquoted (by decide) (by decide) h
  rw [if_neg hback] at h ⊢
  by_cases hbracket : (c == '[' && d.bracketIdentifiers) = true
  · rw [if_pos hbracket] at h ⊢
    exact hquoted (by decide) (by decide) h
  rw [if_neg hbracket] at h ⊢
  by_cases hdollar : (c == '$' && d.dollarQuotes) = true
  · rw [if_pos hdollar] at h ⊢
    obtain rfl := beq_iff_eq.1 (Bool.and_eq_true_iff.1 hdollar).1
    have hword := Piece.not_isWordChar_of_isBreak hb
    rw [← List.cons_append, ht.dollarTagSize_append hword] at h
    rw [← List.cons_append, ht'.dollarTagSize_append hword]
    cases htag : Text.dollarTagSize ('$' :: cs) with
    | none =>
        rw [htag] at h
        exact h
    | some k =>
        rw [htag] at h
        obtain ⟨tag, rest, hs, rfl, hi⟩ := Text.dollarTagSize_eq_some_iff.1 htag
        refine Piece.closed_of_closed ?_ h
        intro m hm hsize
        obtain ⟨body, hbody, rfl⟩ := Option.map_eq_some_iff.1 hsize
        rw [hs, List.append_assoc, List.take_left, List.drop_left] at hbody
        rw [hs, List.append_assoc, List.take_left, List.drop_left,
          indexOf?_of_le (ne_nil_of_isTag hi) hbody (by
            rw [hs, List.length_append] at hn
            omega)]
        rfl
  rw [if_neg hdollar] at h ⊢
  rw [ht.wordTailSize_append hb hδ] at h
  rw [ht'.wordTailSize_append hb hδ]
  exact h

/-- A piece that ends before a blank is the same whatever follows the blank. -/
theorem next_of_le (ht : Ends b t) (ht' : Ends b t') (hline : (b != '\n') = false ∨ t ≠ [])
    {d : Dialect} {δ : Delimiter} (hδ : b ∉ δ.toList) {started : Bool} {behind : List Char}
    {c : Char} {cs : List Char} {p : Piece} {n : Nat}
    (h : Piece.next d δ started behind c (cs ++ t) = .ok (p, n)) (hn : n ≤ (c :: cs).length) :
    Piece.next d δ started behind c (cs ++ t') = .ok (p, n) := by
  have hhead {u : List Char} (hu : Ends b u) {a : Char} (ha : Text.isBreak a = false) :
      ((cs ++ u).head? == some a) = (cs.head? == some a) :=
    hu.head?_beq_append (Text.ne_of_isBreak hb ha) cs
  unfold Piece.next at h ⊢
  rw [hhead ht (by decide), hhead ht (by decide)] at h
  rw [hhead ht' (by decide), hhead ht' (by decide)]
  by_cases hdashes : (c == '-' && cs.head? == some '-') = true
  · rw [if_pos hdashes] at h ⊢
    rw [Bool.and_eq_true, beq_iff_eq, beq_iff_eq] at hdashes
    obtain ⟨cs, rfl⟩ := List.head?_eq_some_iff.1 hdashes.2
    have hle : ((cs ++ t).takeWhile (· != '\n')).length ≤ cs.length := by
      cases h
      exact Nat.le_of_succ_le_succ (Nat.le_of_succ_le_succ hn)
    rw [List.cons_append, List.tail_cons] at h ⊢
    rw [ht.takeWhile_of_le ht' id hline hle]
    exact h
  rw [if_neg hdashes] at h ⊢
  by_cases hhash : (c == '#' && d.hashComments) = true
  · rw [if_pos hhash] at h ⊢
    have hle : ((cs ++ t).takeWhile (· != '\n')).length ≤ cs.length := by
      cases h
      exact Nat.le_of_succ_le_succ hn
    rw [Text.lineSize, ht.takeWhile_of_le ht' id hline hle]
    exact h
  rw [if_neg hhash] at h ⊢
  by_cases hblock : (c == '/' && cs.head? == some '*') = true
  · rw [if_pos hblock] at h ⊢
    rw [Bool.and_eq_true, beq_iff_eq, beq_iff_eq] at hblock
    obtain ⟨cs, rfl⟩ := List.head?_eq_some_iff.1 hblock.2
    rw [List.cons_append, List.tail_cons] at h ⊢
    cases hsize : Piece.commentSize 1 (cs ++ t) with
    | none =>
        rw [hsize] at h
        cases h
    | some m =>
        rw [hsize] at h
        rw [commentSize_of_le (Nat.le_refl 1) hsize]
        · exact h
        cases h
        exact Nat.le_of_succ_le_succ (Nat.le_of_succ_le_succ hn)
  rw [if_neg hblock] at h ⊢
  by_cases hblank : Text.isBlank c = true
  · rw [if_pos hblank] at h ⊢
    exact h
  rw [if_neg hblank] at h ⊢
  have hsets : (if started = true then none else Piece.directive? d (c :: (cs ++ t'))) =
      if started = true then none else Piece.directive? d (c :: (cs ++ t)) := by
    by_cases hstarted : started = true
    · rw [if_pos hstarted, if_pos hstarted]
    · rw [if_neg hstarted] at h
      rw [if_neg hstarted, if_neg hstarted]
      refine directive?_of_le hb ht ht' hline d (s := c :: cs) fun sets m hdir => ?_
      rw [List.cons_append] at hdir
      rw [hdir] at h
      cases h
      exact hn
  rw [← List.cons_append, ← List.cons_append] at hsets
  rw [← List.cons_append, ht.startsWith_append hδ] at h
  rw [← List.cons_append, hsets, ht'.startsWith_append hδ]
  split at h
  · exact h
  by_cases hdelimiter : Text.startsWith (c :: cs) δ.toList = true
  · rw [if_pos hdelimiter] at h ⊢
    exact h
  · rw [if_neg hdelimiter] at h ⊢
    exact ht.ofCode_of_le hb ht' hδ h hn

end Ends

namespace EndsLine

variable {t : List Char} (ht : EndsLine t)
include ht

theorem next_append {d : Dialect} {δ : Delimiter} (hδ : '\n' ∉ δ.toList) {started : Bool}
    {behind : List Char} {c : Char} {cs : List Char} {p : Piece} {n : Nat}
    (h : Piece.next d δ started behind c cs = .ok (p, n)) :
    Piece.next d δ started behind c (cs ++ t) = .ok (p, n) := by
  have hn := Piece.next_le h
  rw [← List.append_nil cs] at h
  exact Ends.nil.next_of_le rfl ht.ends (.inl rfl) hδ h hn

end EndsLine

theorem Ends.noWordBefore {b : Char} {t : List Char} (hb : Text.isBreak b = true)
    (ht : Ends b t) : NoWordBefore t := by
  cases ht with
  | nil => exact nofun
  | cons u =>
      rintro a ha
      cases ha
      exact Piece.not_isWordChar_of_isBreak hb

/-- What stands before a text does not matter to it if it does not end in a word. -/
theorem NoWordBefore.next_behind_append {t : List Char} (ht : NoWordBefore t) (d : Dialect)
    (δ : Delimiter) (started : Bool) (behind : List Char) (c : Char) (cs : List Char) :
    Piece.next d δ started (behind ++ t) c cs = Piece.next d δ started behind c cs := by
  have hword := Piece.noWordBefore_iff.1 ht
  have hbehind (behind : List Char) : ((behind ++ t).head?.map Piece.isWordChar).getD false =
      (behind.head?.map Piece.isWordChar).getD false := by
    cases behind with
    | nil => exact hword
    | cons a behind => rfl
  have hescape : Piece.followsEscapePrefix (behind ++ t) = Piece.followsEscapePrefix behind := by
    cases behind with
    | nil =>
        cases t with
        | nil => rfl
        | cons e u =>
            have hne {a : Char} (ha : Piece.isWordChar a = true) : (e == a) = false := by
              refine beq_eq_false_iff_ne.2 ?_
              rintro rfl
              rw [ht e rfl] at ha
              cases ha
            rw [List.nil_append, Piece.followsEscapePrefix, hne (by decide), hne (by decide)]
            rfl
    | cons a behind => simp only [List.cons_append, Piece.followsEscapePrefix, hbehind]
  simp only [Piece.next, Piece.ofCode, hbehind, hescape]

end SchemaDrift
