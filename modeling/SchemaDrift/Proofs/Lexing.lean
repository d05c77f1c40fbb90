import SchemaDrift.Proofs.Pieces
import SchemaDrift.Token.Lex

namespace SchemaDrift.Token

variable {d : Dialect} {last : Option Char} {c : Char} {cs : List Char}

theorem quotedSize_le {close : Char} (hclose : close ≠ '\\') (backslash : Bool) (s : List Char) :
    quotedSize close backslash s ≤ s.length := by
  unfold quotedSize
  cases h : Text.quotedSize close backslash s with
  | none => exact Nat.le_refl _
  | some n =>
      obtain ⟨body, rest, rfl, rfl, -⟩ := (Text.quotedSize_eq_some_iff hclose).1 h
      simp

theorem commentSize_le (s : List Char) : commentSize s ≤ s.length := by
  unfold commentSize
  split
  · next n h =>
      obtain ⟨body, rest, rfl, rfl, -⟩ := (Text.indexOf?_eq_some_iff (List.cons_ne_nil _ _)).1 h
      simp only [List.length_append, List.length_cons]
      omega
  · exact Nat.le_refl _

theorem dollarSize_kind (s : List Char) :
    (dollarSize s).1 = .string ∨ (dollarSize s).1 = .symbol := by
  unfold dollarSize
  split
  · dsimp only
    split <;> exact .inl rfl
  · exact .inr rfl

theorem dollarSize_le (s : List Char) : (dollarSize s).2 ≤ s.length := by
  unfold dollarSize
  split
  · next tag htag =>
      obtain ⟨opener, rest, hs, rfl, hopener⟩ := Text.dollarTagSize_eq_some_iff.1 htag
      dsimp only
      rw [hs, List.take_left, List.drop_left]
      split
      · next n hn =>
          obtain ⟨body, after, rfl, rfl, -⟩ :=
            (Text.indexOf?_eq_some_iff (ne_nil_of_isTag hopener)).1 hn
          have hlen := congrArg List.length hs
          simp only [List.length_append, List.length_cons] at hlen
          dsimp only
          omega
      · exact Nat.le_refl _
  · exact (List.takeWhile_prefix _).length_le

inductive Opening
  | blank
  | line
  | block
  | single
  | double
  | bracket
  | dollar
  | number
  | letter
  | word
  | pair
  | sign

namespace Opening

def of (d : Dialect) (c : Char) (next : Option Char) : Opening :=
  if Text.isBlank c then blank
  else if c == '-' && next == some '-' then line
  else if c == '/' && next == some '*' then block
  else if c == '\'' then single
  else if c == '"' || c == '\x60' then double
  else if c == '[' && d.bracketIdentifiers then bracket
  else if c == '$' && d.dollarQuotes then dollar
  else if c.isDigit || (c == '.' && (next.map Char.isDigit).getD false) then number
  else if isWordStart c then if isLiteralPrefix c && next == some '\'' then letter else word
  else if (next.map (fun e => twoCharSymbols.contains (c, e))).getD false then pair
  else sign

def taken (d : Dialect) (last : Option Char) (c : Char) (cs : List Char) :
    Opening → Option TokenKind × Nat
  | blank | letter => (none, 0)
  | line => (none, Text.lineSize cs)
  | block => (none, commentSize cs.tail + 1)
  | single => (some .string,
      quotedSize '\'' (d.backslashEscapes || last == some 'E' || last == some 'e') cs)
  | double => (some .quoted, quotedSize c false cs)
  | bracket => (some .quoted, quotedSize ']' false cs)
  | dollar => ((dollarSize cs).1, (dollarSize cs).2)
  | number => (some .number, (cs.takeWhile (fun e => e.isAlphanum || e == '.')).length)
  | word => (some .word, (cs.takeWhile isWordChar).length)
  | pair => (some .symbol, 1)
  | sign => (some .symbol, 0)

def Fits (d : Dialect) (c : Char) (next : Option Char) : Opening → Prop
  | blank => Text.isBlank c = true
  | line => c = '-' ∧ next = some '-'
  | block => c = '/' ∧ next = some '*'
  | single => c = '\''
  | double => c = '"' ∨ c = '\x60'
  | bracket => c = '[' ∧ d.bracketIdentifiers = true
  | dollar => c = '$' ∧ d.dollarQuotes = true
  | number => c.isDigit = true ∨ c = '.' ∧ ∃ e, next = some e ∧ e.isDigit = true
  | letter => isLiteralPrefix c = true ∧ next = some '\''
  | word => isWordStart c = true
  | pair => isWordStart c = false ∧ ∃ e, next = some e ∧ (c, e) ∈ twoCharSymbols
  | sign => isWordStart c = false

theorem fits_ite {next : Option Char} {p : Prop} [Decidable p] {o o' : Opening}
    (h : p → o.Fits d c next) (h' : ¬ p → o'.Fits d c next) :
    (if p then o else o').Fits d c next := by
  split
  · next hp => exact h hp
  · next hp => exact h' hp

theorem fits_of (d : Dialect) (c : Char) (next : Option Char) : (of d c next).Fits d c next := by
  refine fits_ite id fun _ => ?_
  refine fits_ite (by simp only [Fits, Bool.and_eq_true, beq_iff_eq, imp_self]) fun _ => ?_
  refine fits_ite (by simp only [Fits, Bool.and_eq_true, beq_iff_eq, imp_self]) fun _ => ?_
  refine fits_ite (by simp only [Fits, beq_iff_eq, imp_self]) fun _ => ?_
  refine fits_ite (by simp only [Fits, Bool.or_eq_true, beq_iff_eq, imp_self]) fun _ => ?_
  refine fits_ite (by simp only [Fits, Bool.and_eq_true, beq_iff_eq, imp_self]) fun _ => ?_
  refine fits_ite (by simp only [Fits, Bool.and_eq_true, beq_iff_eq, imp_self]) fun _ => ?_
  refine fits_ite (fun h => ?_) fun _ => ?_
  · cases next with
    | none => simpa [Fits] using h
    | some e => simpa [Fits] using h
  refine fits_ite (fun hword => ?_) fun hword => ?_
  · exact fits_ite (by simp only [Fits, Bool.and_eq_true, beq_iff_eq, imp_self]) fun _ => hword
  have hstart : isWordStart c = false := Bool.eq_false_iff.2 hword
  refine fits_ite (fun h => ?_) fun _ => hstart
  cases next with
  | none => cases h
  | some e => exact ⟨hstart, e, rfl, List.contains_iff_mem.1 h⟩

def looksAhead (c : Char) : Opening → Bool
  | line | block | letter | pair => true
  | number => !c.isDigit
  | _ => false

theorem ite_congr_of_looksAhead {p : Prop} [Decidable p] {o o₁ o₂ : Opening}
    (h : o₁.looksAhead c = false → o₂ = o₁)
    (hlooks : (if p then o else o₁).looksAhead c = false) :
    (if p then o else o₂) = if p then o else o₁ := by
  split at hlooks
  · next hp => rw [if_pos hp, if_pos hp]
  · next hp => rw [if_neg hp, if_neg hp, h hlooks]

theorem eq_ite_of_looksAhead {p : Prop} [Decidable p] {o o₁ o₂ : Opening}
    (ho : o.looksAhead c = true) (h : o₁.looksAhead c = false → o₂ = o₁)
    (hlooks : (if p then o else o₁).looksAhead c = false) : o₂ = if p then o else o₁ := by
  split at hlooks
  · rw [ho] at hlooks
    cases hlooks
  · next hp => rw [if_neg hp, h hlooks]

theorem of_none {next : Option Char} :
    (of d c next).looksAhead c = false → of d c none = of d c next := by
  have hnone (e : Char) : ((none : Option Char) == some e) = false := rfl
  unfold of
  simp only [hnone, Option.map_none, Option.getD_none, Bool.and_false, Bool.or_false,
    Bool.false_eq_true, if_false]
  refine ite_congr_of_looksAhead ?_
  refine eq_ite_of_looksAhead rfl ?_
  refine eq_ite_of_looksAhead rfl ?_
  refine ite_congr_of_looksAhead ?_
  refine ite_congr_of_looksAhead ?_
  refine ite_congr_of_looksAhead ?_
  refine ite_congr_of_looksAhead ?_
  by_cases hdigit : c.isDigit = true
  · rw [hdigit]
    exact fun _ => rfl
  rw [Bool.eq_false_iff.2 hdigit, Bool.false_or]
  refine eq_ite_of_looksAhead (by rw [looksAhead, Bool.eq_false_iff.2 hdigit]; rfl) ?_
  by_cases hstart : isWordStart c = true
  · rw [if_pos hstart, if_pos hstart]
    exact eq_ite_of_looksAhead rfl fun _ => rfl
  · rw [if_neg hstart, if_neg hstart]
    exact eq_ite_of_looksAhead rfl fun _ => rfl

end Opening

theorem head_eq_taken (d : Dialect) (last : Option Char) (c : Char) (cs : List Char) :
    head d last c cs = (Opening.of d c cs.head?).taken d last c cs := by
  unfold head Opening.of
  repeat rw [apply_ite (Opening.taken d last c cs)]
  rfl

theorem exists_opening {found : Option TokenKind × Nat} (h : head d last c cs = found) :
    ∃ o : Opening, o.Fits d c cs.head? ∧ o.taken d last c cs = found :=
  ⟨_, Opening.fits_of d c cs.head?, by rw [← head_eq_taken, h]⟩

theorem head_of_dollar (hd : d.dollarQuotes = true) (last : Option Char) (cs : List Char) :
    head d last '$' cs = (some (dollarSize cs).1, (dollarSize cs).2) := by
  simp [head, hd, Text.isBlank]

theorem head_of_bracket (hd : d.bracketIdentifiers = true) (last : Option Char)
    (cs : List Char) : head d last '[' cs = (some .quoted, quotedSize ']' false cs) := by
  simp [head, hd, Text.isBlank]

theorem not_pair (hc : c ∉ twoCharSymbols.map Prod.fst) (next : Option Char) :
    (next.map (fun e => twoCharSymbols.contains (c, e))).getD false = false := by
  cases next with
  | none => rfl
  | some e =>
      refine Bool.eq_false_iff.2 fun hpair => hc ?_
      exact List.mem_map_of_mem (f := Prod.fst) (List.contains_iff_mem.1 hpair)

theorem head_congr_of_ne (last' : Option Char) (hc : c ≠ '\'') (cs : List Char) :
    head d last c cs = head d last' c cs := by
  rw [head_eq_taken, head_eq_taken]
  have hfits := Opening.fits_of d c cs.head?
  generalize Opening.of d c cs.head? = o at hfits
  cases o with
  | single => exact absurd hfits hc
  | blank | line | block | double | bracket | dollar | number | letter | word | pair | sign => rfl

theorem head_le (d : Dialect) (last : Option Char) (c : Char) (cs : List Char) :
    (head d last c cs).2 ≤ cs.length := by
  obtain ⟨o, hfits, htaken⟩ := exists_opening (rfl : head d last c cs = _)
  rw [← htaken]
  cases o with
  | blank | letter | sign => exact Nat.zero_le _
  | line | number | word => exact (List.takeWhile_prefix _).length_le
  | block =>
      obtain ⟨t, rfl⟩ := List.head?_eq_some_iff.1 hfits.2
      exact Nat.succ_le_succ (commentSize_le t)
  | single | bracket => exact quotedSize_le (by decide) _ cs
  | double => exact quotedSize_le (by rcases hfits with rfl | rfl <;> decide) _ cs
  | dollar => exact dollarSize_le cs
  | pair =>
      obtain ⟨-, e, he, -⟩ := hfits
      obtain ⟨t, rfl⟩ := List.head?_eq_some_iff.1 he
      exact Nat.succ_le_succ (Nat.zero_le _)

theorem not_isDigit_of_isWordStart (h : isWordStart c = true) : c.isDigit = false := by
  by_contra hd
  have hdigit : 48 ≤ c.toNat ∧ c.toNat ≤ 57 := Char.isDigit_iff_toNat.1 (Bool.not_eq_false _ ▸ hd)
  rw [isWordStart, Bool.or_eq_true, Bool.or_eq_true, beq_iff_eq, decide_eq_true_eq] at h
  rcases h with (h | rfl) | h
  · change (decide (c.val ≥ 'A'.val ∧ c.val ≤ 'Z'.val) ||
      (decide (c.val ≥ 'a'.val) && decide (c.val ≤ 'z'.val))) = true at h
    rw [Bool.or_eq_true, Bool.and_eq_true, decide_eq_true_eq, decide_eq_true_eq] at h
    have hle : 65 ≤ c.toNat := by
      rcases h with ⟨h, -⟩ | ⟨h, -⟩
      · exact UInt32.le_iff_toNat_le.1 h
      · exact Nat.le_trans (by decide) (UInt32.le_iff_toNat_le.1 h)
    omega
  · exact absurd hdigit (by decide)
  · omega

/-- A letter begins a word, or the quote of a literal is behind it. -/
theorem Opening.Fits.eq_of_isWordStart {next : Option Char} {o : Opening} (hfits : o.Fits d c next)
    (hc : isWordStart c = true) : o = letter ∨ o = word := by
  cases o with
  | letter => exact .inl rfl
  | word => exact .inr rfl
  | blank =>
      simp only [Fits, Text.isBlank, Bool.or_eq_true, beq_iff_eq] at hfits
      rcases hfits with (((rfl | rfl) | rfl) | rfl) | rfl <;> exact absurd hc (by decide)
  | line | block | bracket | dollar =>
      obtain ⟨rfl, -⟩ := hfits
      exact absurd hc (by decide)
  | single =>
      obtain rfl : c = '\'' := hfits
      exact absurd hc (by decide)
  | double => rcases hfits with rfl | rfl <;> exact absurd hc (by decide)
  | number =>
      rcases hfits with hdigit | ⟨rfl, -⟩
      · exact absurd hdigit (Bool.eq_false_iff.1 (not_isDigit_of_isWordStart hc))
      · exact absurd hc (by decide)
  | pair => exact absurd hc (Bool.eq_false_iff.1 hfits.1)
  | sign => exact absurd hc (Bool.eq_false_iff.1 hfits)

theorem head_of_isWordStart (hc : isWordStart c = true) (last : Option Char) (cs : List Char) :
    head d last c cs = (none, 0) ∧ cs.head? = some '\'' ∨
      head d last c cs = (some .word, (cs.takeWhile isWordChar).length) := by
  obtain ⟨o, hfits, htaken⟩ := exists_opening (rfl : head d last c cs = _)
  rw [← htaken]
  rcases hfits.eq_of_isWordStart hc with rfl | rfl
  · exact .inl ⟨rfl, hfits.2⟩
  · exact .inr rfl

inductive Lexes (d : Dialect) :
    Option Char → List Char → List Char → List Token → List Char → Prop
  | nil {last : Option Char} {gap : List Char} : Lexes d last gap [] [] gap
  | skip {last : Option Char} {c : Char} {gap body rest trailing : List Char} {ts : List Token}
      (h : head d last c (body ++ rest) = (none, body.length))
      (t : Lexes d (c :: body).getLast? (gap ++ c :: body) rest ts trailing) :
      Lexes d last gap (c :: (body ++ rest)) ts trailing
  | token {last : Option Char} {c : Char} {gap body rest trailing : List Char}
      {kind : TokenKind} {ts : List Token}
      (h : head d last c (body ++ rest) = (some kind, body.length))
      (t : Lexes d (c :: body).getLast? [] rest ts trailing) :
      Lexes d last gap (c :: (body ++ rest)) (⟨kind, gap, c :: body⟩ :: ts) trailing

theorem lexes_lexFrom (d : Dialect) (last : Option Char) (gap s : List Char) :
    Lexes d last gap.reverse s (lexFrom d last gap s).1 (lexFrom d last gap s).2 := by
  fun_induction lexFrom d last gap s with
  | case1 last gap => exact .nil
  | case2 last gap c cs run rest h ih =>
      have hle := head_le d last c cs
      have hcs : cs.take (head d last c cs).2 ++ rest = cs := List.take_append_drop _ cs
      have hhead : head d last c (cs.take (head d last c cs).2 ++ rest) =
          (none, (cs.take (head d last c cs).2).length) := by
        rw [hcs, List.length_take_of_le hle, ← h]
      rw [List.reverse_append, List.reverse_reverse] at ih
      rw [← hcs]
      exact .skip hhead ih
  | case3 last gap c cs run rest kind h ts trailing hrec ih =>
      have hle := head_le d last c cs
      have hcs : cs.take (head d last c cs).2 ++ rest = cs := List.take_append_drop _ cs
      have hhead : head d last c (cs.take (head d last c cs).2 ++ rest) =
          (some kind, (cs.take (head d last c cs).2).length) := by
        rw [hcs, List.length_take_of_le hle, ← h]
      rw [hrec] at ih
      rw [← hcs]
      exact .token hhead ih

theorem Lexes.lexFrom_eq {gap s trailing : List Char} {ts : List Token}
    (h : Lexes d last gap s ts trailing) : lexFrom d last gap.reverse s = (ts, trailing) := by
  induction h with
  | nil => rw [lexFrom, List.reverse_reverse]
  | skip h t ih =>
      rw [lexFrom, h]
      simp only [List.take_left, List.drop_left, ← List.reverse_append, ih]
  | token h t ih =>
      rw [lexFrom, h]
      rw [List.reverse_nil] at ih
      simp only [List.take_left, List.drop_left, ih, List.reverse_reverse]

theorem lexes_lex (d : Dialect) (s : List Char) :
    Lexes d none [] s (lex d s) (lexFrom d none [] s).2 :=
  lexes_lexFrom d none [] s

theorem lexFrom_token {gap : List Char} {c : Char} {body rest : List Char} {kind : TokenKind}
    (h : head d last c (body ++ rest) = (some kind, body.length)) :
    (lexFrom d last gap (c :: (body ++ rest))).1 =
      ⟨kind, gap.reverse, c :: body⟩ :: (lexFrom d (c :: body).getLast? [] rest).1 := by
  have hlexes : Lexes d last gap.reverse (c :: (body ++ rest)) _ _ :=
    .token h (lexes_lexFrom d (c :: body).getLast? [] rest)
  rw [← List.reverse_reverse gap, hlexes.lexFrom_eq, List.reverse_reverse]

theorem Lexes.lex_eq {s trailing : List Char} {ts : List Token}
    (h : Lexes d none [] s ts trailing) : lex d s = ts :=
  congrArg Prod.fst h.lexFrom_eq

end SchemaDrift.Token
