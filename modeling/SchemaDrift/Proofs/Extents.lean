import Mathlib.Data.List.Find
import Mathlib.Tactic.MkIffOfInductiveProp
import SchemaDrift.Grammar.Column
import SchemaDrift.Proofs.Readings
import SchemaDrift.Proofs.Taking

namespace SchemaDrift

namespace Token

variable {ts us : List Token} {t : Token} {n m : Nat}

theorem isWord_of_isKeyword {k : String} (ht : t.isKeyword k = true) : t.isWord = true :=
  (Bool.and_eq_true_iff.1 ht).1

theorem not_isKeyword_of_ne {k k' : String} (ht : t.isKeyword k = true)
    (hk : Text.asciiUpper k.toList ≠ Text.asciiUpper k'.toList) : t.isKeyword k' = false := by
  rw [isKeyword, Text.sameWord_of_ne (Bool.and_eq_true_iff.1 ht).2 hk, Bool.and_false]

theorem isName_of_isWord (ht : t.isWord = true) : t.isName = true := by
  rw [isName, beq_iff_eq.1 ht]
  rfl

theorem isSymbol_of_kind_ne (h : t.kind ≠ .symbol) (s : String) : t.isSymbol s = false := by
  rw [isSymbol, beq_eq_false_iff_ne.2 h, Bool.false_and]

theorem isSymbol_of_isName (ht : t.isName = true) (s : String) : t.isSymbol s = false := by
  refine isSymbol_of_kind_ne (fun hkind => ?_) s
  rw [isName, hkind] at ht
  cases ht

section

variable {s : String}

theorem text_of_isSymbol (ht : t.isSymbol s = true) : t.text = s.toList :=
  beq_iff_eq.1 (Bool.and_eq_true_iff.1 ht).2

theorem not_isSymbol_of_ne {s' : String} (ht : t.isSymbol s = true)
    (hs : s.toList ≠ s'.toList) : t.isSymbol s' = false := by
  rw [isSymbol, text_of_isSymbol ht, beq_eq_false_iff_ne.2 hs, Bool.and_false]

theorem not_isName_of_isSymbol (ht : t.isSymbol s = true) : t.isName = false := by
  rw [isName, beq_iff_eq.1 (Bool.and_eq_true_iff.1 ht).1]
  rfl

theorem not_isWord_of_isSymbol (ht : t.isSymbol s = true) : t.isWord = false := by
  rw [isWord, beq_iff_eq.1 (Bool.and_eq_true_iff.1 ht).1]
  rfl

theorem isKeyword_of_isSymbol (ht : t.isSymbol s = true) (k : String) : t.isKeyword k = false := by
  rw [isKeyword, not_isWord_of_isSymbol ht, Bool.false_and]

end

/-- How many parentheses are open after the tokens, none where one closes that was not opened. -/
def openAfter (n : Nat) : List Token → Option Nat
  | [] => some n
  | t :: ts =>
      if t.isSymbol ")" then if n = 0 then none else openAfter (n - 1) ts
      else openAfter (if t.isSymbol "(" then n + 1 else n) ts

def depthAfter (n : Int) : List Token → Option Int
  | [] => some n
  | t :: ts =>
      if t.isSymbol "," && n == 0 then none
      else depthAfter
        (if t.isSymbol "(" || t.isSymbol "[" then n + 1
          else if t.isSymbol ")" || t.isSymbol "]" then n - 1 else n) ts

@[mk_iff]
structure IsItem (ts : List Token) : Prop where
  parens : openAfter 0 ts = some 0
  commas : depthAfter 0 ts = some 0

instance (ts : List Token) : Decidable (IsItem ts) := decidable_of_iff' _ (isItem_iff ts)

theorem openAfter_opening (ht : t.isSymbol "(" = true) (n : Nat) (ts : List Token) :
    openAfter n (t :: ts) = openAfter (n + 1) ts := by
  rw [openAfter, not_isSymbol_of_ne ht (by decide), ht]
  rfl

theorem openAfter_of_text (ht : t.text ≠ ['('] ∧ t.text ≠ [')']) (n : Nat) (ts : List Token) :
    openAfter n (t :: ts) = openAfter n ts := by
  have hsymbol (s : String) (hs : t.text ≠ s.toList) : t.isSymbol s = false := by
    rw [isSymbol, beq_eq_false_iff_ne.2 hs, Bool.and_false]
  rw [openAfter, hsymbol ")" ht.2, hsymbol "(" ht.1]
  rfl

theorem openAfter_of_isName (ht : t.isName = true) (n : Nat) (ts : List Token) :
    openAfter n (t :: ts) = openAfter n ts := by
  rw [openAfter, isSymbol_of_isName ht, isSymbol_of_isName ht]
  rfl

theorem openAfter_map {f : Token → Token} (hf : ∀ t s, (f t).isSymbol s = t.isSymbol s) (n : Nat)
    (ts : List Token) : openAfter n (ts.map f) = openAfter n ts := by
  induction ts generalizing n with
  | nil => rfl
  | cons t ts ih => simp only [List.map_cons, openAfter, hf, ih]

theorem openAfter_append (n : Nat) (ts us : List Token) :
    openAfter n (ts ++ us) = (openAfter n ts).bind (openAfter · us) := by
  induction ts generalizing n with
  | nil => rfl
  | cons t ts ih =>
      simp only [List.cons_append, openAfter, ih]
      split
      · split <;> rfl
      · rfl

theorem depthAfter_append (n : Int) (ts us : List Token) :
    depthAfter n (ts ++ us) = (depthAfter n ts).bind (depthAfter · us) := by
  induction ts generalizing n with
  | nil => rfl
  | cons t ts ih =>
      simp only [List.cons_append, depthAfter, ih]
      split <;> rfl

theorem IsItem.append (h : IsItem ts) (h' : IsItem us) : IsItem (ts ++ us) where
  parens := by rw [openAfter_append, h.parens, Option.bind_some, h'.parens]
  commas := by rw [depthAfter_append, h.commas, Option.bind_some, h'.commas]

/-- A word by itself. -/
theorem isItem_of_isWord (ht : t.isWord = true) : IsItem [t] := by
  have hname := isName_of_isWord ht
  constructor
  · rw [openAfter_of_isName hname]
    rfl
  · simp only [depthAfter, isSymbol_of_isName hname]
    rfl

/-- Tokens that open and close nothing of a group all stand in it. -/
theorem groupFrom_append (h : openAfter n ts = some m) (us : List Token) :
    groupFrom (n + 1) (ts ++ us) =
      (ts ++ (groupFrom (m + 1) us).1, (groupFrom (m + 1) us).2) := by
  induction ts generalizing n with
  | nil =>
      cases h
      rfl
  | cons t ts ih =>
      rw [openAfter] at h
      rw [List.cons_append, groupFrom]
      split
      · next hclose =>
          rw [if_pos hclose] at h
          cases n with
          | zero => cases h
          | succ n =>
              rw [if_neg (Nat.succ_ne_zero n), Nat.add_sub_cancel] at h
              rw [if_neg (by omega), Nat.add_sub_cancel, ih h]
              rfl
      · next hclose =>
          rw [if_neg hclose] at h
          have hdepth : (if t.isSymbol "(" = true then n + 1 + 1 else n + 1) =
              (if t.isSymbol "(" = true then n + 1 else n) + 1 := by
            split <;> rfl
          rw [hdepth, ih h]
          rfl

/-- What follows a group that the tokens close, with `m` parentheses open around it. -/
theorem groupFrom_append_of_open (h : openAfter (n + 1 + m) ts = some 0) (us : List Token) :
    groupFrom (n + 1) (ts ++ us) = ((groupFrom (n + 1) ts).1, (groupFrom (n + 1) ts).2 ++ us) ∧
      openAfter m (groupFrom (n + 1) ts).2 = some 0 := by
  induction ts generalizing n with
  | nil =>
      rw [openAfter, Option.some.injEq] at h
      omega
  | cons t ts ih =>
      rw [openAfter] at h
      rw [List.cons_append, groupFrom, groupFrom]
      by_cases hclose : t.isSymbol ")" = true
      · rw [if_pos hclose, if_neg (by omega), Nat.add_right_comm, Nat.add_sub_cancel] at h
        rw [if_pos hclose, if_pos hclose]
        cases n with
        | zero =>
            rw [Nat.zero_add] at h
            exact ⟨rfl, h⟩
        | succ n =>
            rw [if_neg (by omega), if_neg (by omega), Nat.add_sub_cancel, (ih h).1]
            exact ⟨rfl, (ih h).2⟩
      · rw [if_neg hclose] at h
        rw [if_neg hclose, if_neg hclose]
        split
        · next hopen =>
            rw [if_pos hopen, Nat.add_right_comm _ m 1] at h
            rw [(ih h).1]
            exact ⟨rfl, (ih h).2⟩
        · next hopen =>
            rw [if_neg hopen] at h
            rw [(ih h).1]
            exact ⟨rfl, (ih h).2⟩

theorem groupFrom_append_of_closed (h : openAfter (n + 1) ts = some 0) (us : List Token) :
    groupFrom (n + 1) (ts ++ us) = ((groupFrom (n + 1) ts).1, (groupFrom (n + 1) ts).2 ++ us) ∧
      openAfter 0 (groupFrom (n + 1) ts).2 = some 0 :=
  groupFrom_append_of_open (m := 0) h us

theorem splitCommasFrom_append {n m : Int} (h : depthAfter n ts = some m) (part us : List Token) :
    splitCommasFrom n part (ts ++ us) = splitCommasFrom m (ts.reverse ++ part) us := by
  induction ts generalizing n part with
  | nil =>
      cases h
      rfl
  | cons t ts ih =>
      rw [depthAfter] at h
      rw [List.cons_append, splitCommasFrom]
      split
      · next hcomma =>
          rw [if_pos hcomma] at h
          cases h
      · next hcomma =>
          rw [if_neg hcomma] at h
          rw [ih h, List.reverse_cons, List.append_assoc]
          rfl

theorem splitCommas_of_isItem (h : IsItem ts) (hts : ts ≠ []) : splitCommas ts = [ts] := by
  have hall := splitCommasFrom_append h.commas [] []
  rw [List.append_nil, List.append_nil] at hall
  rw [splitCommas, hall, splitCommasFrom, List.isEmpty_reverse,
    if_neg (by rwa [List.isEmpty_iff]), List.reverse_reverse]

theorem splitCommas_append (h : IsItem ts) (ht : t.isSymbol "," = true)
    (us : List Token) : splitCommas (ts ++ t :: us) = ts :: splitCommas us := by
  rw [splitCommas, splitCommasFrom_append h.commas, splitCommasFrom, ht, if_pos (by rfl),
    List.append_nil, List.reverse_reverse]
  rfl

end Token

namespace Reader

variable {α β : Type} {p : Reader α} {f : α → Reader β} {d : Dialect} {a : α}
  {ts us rest : List Token}

theorem bind_of_eq (h : p d ts = .ok (some a, rest)) : (p >>= f) d ts = f a d rest := by
  change Reader.bind p f d ts = _
  rw [Reader.bind, h]

theorem keywords_of_atKeywords {ks : List String} (h : atKeywords ks ts = true) :
    keywords ks d ts = .ok (some true, ts.drop ks.length) := by
  rw [keywords, if_pos h]

theorem keywords_of_not {ks : List String} (h : atKeywords ks ts = false) :
    keywords ks d ts = .ok (some false, ts) := by
  rw [keywords, if_neg (by rw [h]; exact Bool.false_ne_true)]

theorem iterate_of_step {σ : Type} {step : σ → Reader (Option σ)} {s next : σ}
    (h : step s d ts = .ok (some (some next), rest)) (hrest : rest.length < ts.length) :
    iterate step s d ts = iterate step next d rest := by
  rw [iterate, h]
  exact if_pos hrest

theorem iterate_of_stop {σ : Type} {step : σ → Reader (Option σ)} {s : σ}
    (h : step s d ts = .ok (some none, rest)) : iterate step s d ts = .ok (some s, rest) := by
  rw [iterate, h]

theorem withSource_append
    (hp : p d ts = .ok (some a, rest) → p d (ts ++ us) = .ok (some a, rest ++ us))
    {source : List Char} (h : withSource p d ts = .ok (some (a, source), rest)) :
    withSource p d (ts ++ us) = .ok (some (a, source), rest ++ us) := by
  unfold withSource at h ⊢
  split at h
  · cases h
  · cases h
  · next b mid hfound =>
      cases h
      rw [hp hfound]
      dsimp only
      rw [List.length_append, List.length_append, Nat.add_sub_add_right,
        List.take_append_of_le_length (Nat.sub_le _ _)]

theorem group_of_atSymbol (h : atSymbol "(" ts = true) :
    group d ts = .ok (some (Token.groupFrom 1 ts.tail).1, (Token.groupFrom 1 ts.tail).2) := by
  cases ts with
  | nil => cases h
  | cons t ts =>
      have ht : t.isSymbol "(" = true := h
      rw [group, if_pos ht]
      rfl

end Reader

namespace Grammar

open Reader

variable {d : Dialect} {ts us rest : List Token}

def IsClauseWord (t : Token) : Prop := t.isKeyword "DEFAULT" = true ∨ t.isKeyword "NOT" = true

def StartsClause (us : List Token) : Prop := ∀ t ∈ us.head?, IsClauseWord t

namespace IsClauseWord

variable {t : Token}

theorem isWord (h : IsClauseWord t) : t.isWord = true := by
  rcases h with h | h <;> exact Token.isWord_of_isKeyword h

theorem text_mem (h : IsClauseWord t) :
    Text.asciiUpper t.text ∈ ["DEFAULT".toList, "NOT".toList] := by
  rcases h with h | h
  · exact List.mem_cons.2 (.inl (beq_iff_eq.1 (Bool.and_eq_true_iff.1 h).2))
  · exact List.mem_cons_of_mem _ (List.mem_singleton.2 (beq_iff_eq.1 (Bool.and_eq_true_iff.1 h).2))

theorem not_isSymbol (h : IsClauseWord t) (s : String) : t.isSymbol s = false :=
  Token.isSymbol_of_isName (Token.isName_of_isWord h.isWord) s

theorem not_isKeyword (h : IsClauseWord t) {k : String}
    (hk : Text.asciiUpper k.toList ∉ ["DEFAULT".toList, "NOT".toList]) :
    t.isKeyword k = false := by
  rw [Token.isKeyword, Bool.and_eq_false_iff, Text.sameWord, beq_eq_false_iff_ne]
  exact .inr (fun heq => hk (heq ▸ h.text_mem))

theorem text_ne (h : IsClauseWord t) {s : List Char}
    (hs : Text.asciiUpper s ∉ ["DEFAULT".toList, "NOT".toList]) : (t.text == s) = false :=
  beq_eq_false_iff_ne.2 (by rintro rfl; exact hs h.text_mem)

end IsClauseWord

namespace StartsClause

theorem headIs_append (h : StartsClause us) {p : Token → Bool}
    (hp : ∀ t, IsClauseWord t → p t = false) (ts : List Token) :
    headIs p (ts ++ us) = headIs p ts := by
  cases ts with
  | nil =>
      cases us with
      | nil => rfl
      | cons u us => exact hp u (h u rfl)
  | cons t ts => rfl

theorem atSymbol_append (h : StartsClause us) (s : String) (ts : List Token) :
    atSymbol s (ts ++ us) = atSymbol s ts :=
  h.headIs_append (fun _ ht => ht.not_isSymbol s) ts

end StartsClause

theorem atKeywords_append_of_not {ks : List String}
    (h : ∀ t ∈ us.head?, ∀ k ∈ ks, t.isKeyword k = false) (ts : List Token) :
    atKeywords ks (ts ++ us) = atKeywords ks ts := by
  induction ks generalizing ts with
  | nil => rfl
  | cons k ks ih =>
      cases ts with
      | nil =>
          cases us with
          | nil => rfl
          | cons u us =>
              rw [List.nil_append, atKeywords, atKeywords, h u rfl k List.mem_cons_self,
                Bool.false_and]
      | cons t ts =>
          rw [List.cons_append, atKeywords, atKeywords,
            ih (fun t ht k hk => h t ht k (List.mem_cons_of_mem _ hk))]

theorem openAfter_drop {ks : List String} (h : atKeywords ks ts = true) (n : Nat) :
    Token.openAfter n (ts.drop ks.length) = Token.openAfter n ts := by
  induction ks generalizing ts with
  | nil => rfl
  | cons k ks ih =>
      cases ts with
      | nil => cases h
      | cons t ts =>
          obtain ⟨ht, h⟩ := Bool.and_eq_true_iff.1 h
          have hname := Token.isName_of_isWord (Token.isWord_of_isKeyword ht)
          rw [List.length_cons, List.drop_succ_cons, ih h, Token.openAfter_of_isName hname]

/-- What a step takes. -/
theorem typeStep_eq (t : TypeDraft) (d : Dialect) (ts : List Token) :
    typeStep t d ts =
      match continuations.find? (fun ks => atKeywords ks ts) with
      | some ks => .ok (some (some { t with words := t.words ++ [String.intercalate " " ks] }),
          ts.drop ks.length)
      | none =>
          if t.params.isEmpty && atSymbol "(" ts then
            .ok (some (some { t with
              params := (Token.splitCommas (Token.groupFrom 1 ts.tail).1).map
                (fun p => canonicalSql d (Token.span p)) }), (Token.groupFrom 1 ts.tail).2)
          else if atSymbol "[" ts && headIs (fun u => u.text == [']']) ts.tail then
            .ok (some (some { t with words := t.words ++ ["[]"] }), ts.tail.tail)
          else .ok (some none, ts) := by
  unfold typeStep
  rw [bind_of_eq (p := peek id) rfl]
  dsimp only [id]
  cases hfind : continuations.find? (fun ks => atKeywords ks ts) with
  | some ks =>
      have hks : atKeywords ks ts = true := by simpa using List.find?_some hfind
      dsimp only
      rw [bind_of_eq (keywords_of_atKeywords hks)]
      rfl
  | none =>
      dsimp only
      split
      · next hopen =>
          rw [bind_of_eq (p := dialect) rfl,
            bind_of_eq (group_of_atSymbol (Bool.and_eq_true_iff.1 hopen).2)]
          rfl
      · split
        · rfl
        · rfl

def StartsAnew (us : List Token) : Prop :=
  ∀ t ∈ us.head?, (∀ ks ∈ continuations, ∀ k ∈ ks.tail, t.isKeyword k = false) ∧
    t.text ≠ [']'] ∧ (t.isWord = true →
      ∀ word, leadingContinuations.contains (word, String.ofList (Text.upper t.text)) = false)

theorem IsClauseWord.not_leading {t : Token} (ht : IsClauseWord t) (word : String) :
    leadingContinuations.contains (word, String.ofList (Text.upper t.text)) = false := by
  have hupper : String.ofList (Text.upper t.text) ∈ ["DEFAULT", "NOT"] := by
    have hmem := ht.text_mem
    rw [← Text.upper_asciiUpper]
    simp only [List.mem_cons, List.not_mem_nil, or_false] at hmem
    rcases hmem with h | h <;> rw [h] <;> decide
  have hsecond : ∀ p ∈ leadingContinuations, p.2 ∉ ["DEFAULT", "NOT"] := by
    simp only [leadingContinuations]
    decide
  rw [List.contains_eq_mem, decide_eq_false_iff_not]
  exact fun hmem => hsecond _ hmem hupper

theorem IsClauseWord.not_isKeyword_of_mem {t : Token} (ht : IsClauseWord t) :
    ∀ ks ∈ continuations, ∀ k ∈ ks, t.isKeyword k = false := by
  have hwords : ∀ ks ∈ continuations, ∀ k ∈ ks,
      Text.asciiUpper k.toList ∉ ["DEFAULT".toList, "NOT".toList] := by
    simp only [continuations]
    decide
  exact fun ks hks k hk => ht.not_isKeyword (hwords ks hks k hk)

theorem StartsClause.startsAnew (hus : StartsClause us) : StartsAnew us := fun t ht =>
  ⟨fun ks hks k hk => (hus t ht).not_isKeyword_of_mem ks hks k (List.mem_of_mem_tail hk),
    beq_eq_false_iff_ne.1 ((hus t ht).text_ne (by decide)),
    fun _ => (hus t ht).not_leading⟩

/-- A clause ends the type. -/
theorem StartsClause.typeStep_eq (hus : StartsClause us) (t : TypeDraft) :
    typeStep t d us = .ok (some none, us) := by
  have hfind : continuations.find? (fun ks => atKeywords ks us) = none := by
    have hnone : continuations.find? (fun ks => atKeywords ks []) = none := rfl
    rw [← hnone, ← List.nil_append us]
    exact List.find?_congr fun ks hks =>
      atKeywords_append_of_not (fun t ht => (hus t ht).not_isKeyword_of_mem ks hks) []
  have hat (s : String) : atSymbol s us = false := hus.atSymbol_append s []
  rw [Grammar.typeStep_eq, hfind, hat, hat, Bool.and_false, Bool.false_and]
  rfl

theorem startsClause_nil : StartsClause [] := fun t ht => by cases ht

theorem StartsClause.iterate_typeStep (hus : StartsClause us) (t : TypeDraft) :
    iterate typeStep t d us = .ok (some t, us) := iterate_of_stop (hus.typeStep_eq t)

/-- A step that is taken of some tokens is taken of a longer list too. -/
theorem typeStep_append (hus : StartsAnew us) {u : Token}
    (hopen : Token.openAfter 0 (u :: ts) = some 0) {t : TypeDraft} {r : Option TypeDraft}
    (h : typeStep t d (u :: ts) = .ok (some r, rest)) :
    typeStep t d (u :: ts ++ us) = .ok (some r, rest ++ us) ∧ Token.openAfter 0 rest = some 0 := by
  have hfind : continuations.find? (fun ks => atKeywords ks (u :: ts ++ us)) =
      continuations.find? (fun ks => atKeywords ks (u :: ts)) := by
    refine List.find?_congr fun ks hks => ?_
    cases ks with
    | nil => rfl
    | cons k ks =>
        have htail : ∀ t ∈ us.head?, ∀ k ∈ ks, t.isKeyword k = false :=
          fun t ht => (hus t ht).1 _ hks
        rw [List.cons_append, atKeywords, atKeywords, atKeywords_append_of_not htail]
  have hsymbol (s : String) : atSymbol s (u :: ts ++ us) = atSymbol s (u :: ts) := rfl
  have hclosing : headIs (fun v => v.text == [']']) (ts ++ us) =
      headIs (fun v => v.text == [']']) ts := by
    cases ts with
    | nil =>
        cases us with
        | nil => rfl
        | cons v us => exact beq_eq_false_iff_ne.2 (hus v rfl).2.1
    | cons v ts => rfl
  rw [typeStep_eq] at h
  rw [typeStep_eq, hfind, hsymbol, hsymbol]
  cases hks : continuations.find? (fun ks => atKeywords ks (u :: ts)) with
  | some ks =>
      rw [hks] at h
      have hat : atKeywords ks (u :: ts) = true := by simpa using List.find?_some hks
      cases h
      dsimp only
      rw [List.drop_append_of_le_length (length_le_of_atKeywords hat)]
      exact ⟨rfl, (openAfter_drop hat 0).trans hopen⟩
  | none =>
      rw [hks] at h
      dsimp only at h ⊢
      rw [List.tail_cons] at h
      rw [List.cons_append, List.tail_cons, hclosing]
      by_cases hgroup : (t.params.isEmpty && atSymbol "(" (u :: ts)) = true
      · rw [if_pos hgroup] at h
        rw [if_pos hgroup]
        rw [Token.openAfter_opening (Bool.and_eq_true_iff.1 hgroup).2] at hopen
        obtain ⟨hfrom, hrest⟩ := Token.groupFrom_append_of_closed hopen us
        rw [hfrom]
        cases h
        exact ⟨rfl, hrest⟩
      rw [if_neg hgroup] at h
      rw [if_neg hgroup]
      by_cases hpair : (atSymbol "[" (u :: ts) && headIs (fun v => v.text == [']']) ts) = true
      · rw [if_pos hpair] at h
        rw [if_pos hpair]
        obtain ⟨hu, hv⟩ := Bool.and_eq_true_iff.1 hpair
        have hutext : u.text = ['['] := Token.text_of_isSymbol hu
        cases ts with
        | nil => cases hv
        | cons v ts =>
            have hvtext : v.text = [']'] := beq_iff_eq.1 hv
            rw [Token.openAfter_of_text (by rw [hutext]; decide),
              Token.openAfter_of_text (by rw [hvtext]; decide)] at hopen
            cases h
            exact ⟨rfl, hopen⟩
      · rw [if_neg hpair] at h
        rw [if_neg hpair]
        cases h
        exact ⟨rfl, hopen⟩

theorem ne_nil_of_mem_continuations {ks : List String} (hks : ks ∈ continuations) : ks ≠ [] := by
  have hall : ∀ ks ∈ continuations, ks ≠ [] := by simp [continuations]
  exact hall ks hks

theorem length_pos_of_headIs {p : Token → Bool} (h : headIs p ts = true) : 0 < ts.length := by
  cases ts with
  | nil => cases h
  | cons t ts => exact Nat.succ_pos _

/-- A step that is not the last takes a token. -/
theorem typeStep_rest {t : TypeDraft} {r : Option TypeDraft}
    (h : typeStep t d ts = .ok (some r, rest)) :
    r = none ∧ rest = ts ∨ r ≠ none ∧ rest.length < ts.length := by
  rw [typeStep_eq] at h
  cases hks : continuations.find? (fun ks => atKeywords ks ts) with
  | some ks =>
      rw [hks] at h
      have hat : atKeywords ks ts = true := by simpa using List.find?_some hks
      have hne := ne_nil_of_mem_continuations (List.mem_of_find?_eq_some hks)
      have hpos := List.length_pos_of_ne_nil hne
      have hle := length_le_of_atKeywords hat
      cases h
      refine .inr ⟨Option.some_ne_none _, ?_⟩
      rw [List.length_drop]
      omega
  | none =>
      rw [hks] at h
      dsimp only at h
      by_cases hgroup : (t.params.isEmpty && atSymbol "(" ts) = true
      · rw [if_pos hgroup] at h
        have hpos := length_pos_of_headIs (Bool.and_eq_true_iff.1 hgroup).2
        have hle := (Token.groupFrom_suffix 1 ts.tail).length_le
        rw [List.length_tail] at hle
        cases h
        exact .inr ⟨Option.some_ne_none _, by omega⟩
      rw [if_neg hgroup] at h
      by_cases hpair : (atSymbol "[" ts && headIs (fun v => v.text == [']']) ts.tail) = true
      · rw [if_pos hpair] at h
        have hpos := length_pos_of_headIs (Bool.and_eq_true_iff.1 hpair).1
        cases h
        refine .inr ⟨Option.some_ne_none _, ?_⟩
        rw [List.length_tail, List.length_tail]
        omega
      · rw [if_neg hpair] at h
        cases h
        exact .inl ⟨rfl, rfl⟩

/-- Steps that end before the tokens do end there in a longer list too, and others go on behind
them. -/
theorem iterate_typeStep_append (hus : StartsAnew us) (hopen : Token.openAfter 0 ts = some 0)
    {s r : TypeDraft} (h : iterate typeStep s d ts = .ok (some r, rest)) :
    iterate typeStep s d (ts ++ us) =
      if rest = [] then iterate typeStep r d us else .ok (some r, rest ++ us) := by
  induction hn : ts.length using Nat.strong_induction_on generalizing s ts with
  | _ n ih =>
      subst hn
      cases ts with
      | nil =>
          rw [startsClause_nil.iterate_typeStep] at h
          cases h
          rw [if_pos rfl]
          rfl
      | cons t ts =>
          rw [iterate] at h
          split at h
          · cases h
          · cases h
          · next hstop =>
              obtain ⟨-, rfl⟩ | ⟨hnone, -⟩ := typeStep_rest hstop
              · cases h
                rw [iterate_of_stop (typeStep_append hus hopen hstop).1,
                  if_neg (List.cons_ne_nil t ts)]
              · exact absurd rfl hnone
          · next next mid hnext =>
              obtain ⟨happend, hmid⟩ := typeStep_append hus hopen hnext
              obtain ⟨hnone, -⟩ | ⟨-, hless⟩ := typeStep_rest hnext
              · cases hnone
              have hlonger : (mid ++ us).length < (t :: ts ++ us).length := by
                rw [List.length_append, List.length_append]
                omega
              rw [if_pos hless] at h
              rw [iterate_of_step happend hlonger, ih _ hless hmid h rfl]

def firstTypeWords (t : Token) (ts : List Token) : List String × List Token :=
  match upperWord? ts with
  | some next =>
      if leadingContinuations.contains (firstTypeWord t.text, next) then
        ([firstTypeWord t.text, next], ts.tail)
      else ([firstTypeWord t.text], ts)
  | none => ([firstTypeWord t.text], ts)

theorem typeWords_cons {t : Token} (ht : t.isName = true) (ts : List Token) :
    typeWords d (t :: ts) =
      iterate typeStep ⟨(firstTypeWords t ts).1, []⟩ d (firstTypeWords t ts).2 := by
  unfold typeWords firstTypeWords
  rw [bind_of_eq (p := advance) rfl, if_neg (by simp [ht]), bind_of_eq (p := peekUpper) rfl]
  cases upperWord? ts with
  | none => rfl
  | some next =>
      dsimp only
      split
      · rfl
      · rfl

theorem typeWords_eq_some {r : TypeDraft} (h : typeWords d ts = .ok (some r, rest)) :
    ∃ t us, ts = t :: us ∧ t.isName = true ∧
      iterate typeStep ⟨(firstTypeWords t us).1, []⟩ d (firstTypeWords t us).2 =
        .ok (some r, rest) := by
  cases ts with
  | nil => cases h
  | cons t ts =>
      by_cases ht : t.isName = true
      · exact ⟨t, ts, rfl, ht, typeWords_cons ht ts ▸ h⟩
      · unfold typeWords at h
        rw [bind_of_eq (p := advance) rfl, if_pos (by simpa using ht)] at h
        cases h

theorem firstTypeWords_append (hus : StartsAnew us) (t : Token) (ts : List Token) :
    firstTypeWords t (ts ++ us) = ((firstTypeWords t ts).1, (firstTypeWords t ts).2 ++ us) := by
  cases ts with
  | nil =>
      cases us with
      | nil => rfl
      | cons u us =>
          rw [List.nil_append, firstTypeWords, upperWord?]
          by_cases hword : u.isWord = true
          · rw [if_pos hword]
            dsimp only
            rw [if_neg (by rw [(hus u rfl).2.2 hword]; exact Bool.false_ne_true)]
            rfl
          · rw [if_neg hword]
            rfl
  | cons v ts =>
      have hnext : upperWord? (v :: ts ++ us) = upperWord? (v :: ts) := rfl
      rw [firstTypeWords, firstTypeWords, hnext]
      cases upperWord? (v :: ts) with
      | none => rfl
      | some next =>
          dsimp only
          split
          · rfl
          · rfl

theorem openAfter_firstTypeWords (n : Nat) (t : Token) (ts : List Token) :
    Token.openAfter n (firstTypeWords t ts).2 = Token.openAfter n ts := by
  unfold firstTypeWords
  cases hnext : upperWord? ts with
  | none => rfl
  | some next =>
      dsimp only
      split
      · cases ts with
        | nil => rfl
        | cons u ts =>
            have hword : u.isWord = true := by
              by_contra hword
              rw [upperWord?, if_neg hword] at hnext
              cases hnext
            rw [Token.openAfter_of_isName (Token.isName_of_isWord hword)]
            rfl
      · rfl

theorem typeWords_append (hus : StartsAnew us) (hopen : Token.openAfter 0 ts = some 0)
    {r : TypeDraft} (h : typeWords d ts = .ok (some r, rest)) :
    typeWords d (ts ++ us) =
      if rest = [] then iterate typeStep r d us else .ok (some r, rest ++ us) := by
  obtain ⟨t, ts, rfl, hname, h⟩ := typeWords_eq_some h
  rw [Token.openAfter_of_isName hname] at hopen
  rw [List.cons_append, typeWords_cons hname, firstTypeWords_append hus]
  exact iterate_typeStep_append hus ((openAfter_firstTypeWords 0 t ts).trans hopen) h

/-- A clause behind a type changes nothing of it. -/
theorem StartsClause.typeWords_append (hus : StartsClause us)
    (hopen : Token.openAfter 0 ts = some 0) {r : TypeDraft}
    (h : typeWords d ts = .ok (some r, rest)) :
    typeWords d (ts ++ us) = .ok (some r, rest ++ us) := by
  rw [Grammar.typeWords_append hus.startsAnew hopen h]
  split
  · next hrest => rw [hus.iterate_typeStep, hrest, List.nil_append]
  · rfl

theorem typeName_append (hus : StartsClause us) (hopen : Token.openAfter 0 ts = some 0)
    {p : ParsedType} (h : typeName d ts = .ok (some p, rest)) :
    typeName d (ts ++ us) = .ok (some p, rest ++ us) := by
  unfold typeName at h ⊢
  obtain ⟨⟨t, source⟩, mid, hwords, hpure⟩ := bind_eq_some.1 h
  obtain ⟨rfl, rfl⟩ := pure_eq_some.1 hpure
  rw [bind_of_eq (withSource_append (hus.typeWords_append hopen) hwords)]
  rfl

theorem IsClauseWord.not_isCastWord {t : Token} (ht : IsClauseWord t) : t.isCastWord = false := by
  rw [Token.isCastWord, List.any_eq_false]
  intro k hk
  rw [ht.not_isKeyword (by simp only [Token.castWords] at hk; revert k; decide)]
  exact Bool.false_ne_true

theorem openAfter_dropWhile (n : Nat) (ts : List Token) :
    Token.openAfter n (ts.dropWhile Token.isCastWord) = Token.openAfter n ts := by
  induction ts with
  | nil => rfl
  | cons t ts ih =>
      rw [List.dropWhile_cons]
      split
      · next hcast =>
          obtain ⟨k, -, hk⟩ := List.any_eq_true.1 hcast
          have hname := Token.isName_of_isWord (Token.isWord_of_isKeyword hk)
          rw [ih, Token.openAfter_of_isName hname]
      · rfl

def EndsType (us : List Token) : Prop :=
  ∀ t ∈ us.head?, t.isCastWord = false ∧ t.isSymbol "(" = false

theorem StartsClause.endsType (hus : StartsClause us) : EndsType us :=
  fun t ht => ⟨(hus t ht).not_isCastWord, (hus t ht).not_isSymbol "("⟩

section

variable {n : Nat} (hus : EndsType us)

include hus

theorem pastGroup_append (hopen : Token.openAfter n ts = some 0) :
    pastGroup (ts ++ us) = pastGroup ts ++ us ∧ Token.openAfter n (pastGroup ts) = some 0 := by
  cases ts with
  | nil =>
      cases us with
      | nil => exact ⟨rfl, hopen⟩
      | cons u us =>
          have hu : pastGroup (u :: us) = u :: us :=
            if_neg (by rw [(hus u rfl).2]; exact Bool.false_ne_true)
          exact ⟨hu, hopen⟩
  | cons t ts =>
      rw [List.cons_append, pastGroup, pastGroup]
      split
      · next ht =>
          rw [Token.openAfter_opening ht, Nat.add_comm] at hopen
          obtain ⟨hfrom, hrest⟩ := Token.groupFrom_append_of_open (n := 0) hopen us
          rw [hfrom]
          exact ⟨rfl, hrest⟩
      · exact ⟨rfl, hopen⟩

theorem dropWhile_append_of_endsType (ts : List Token) :
    (ts ++ us).dropWhile Token.isCastWord = ts.dropWhile Token.isCastWord ++ us := by
  induction ts with
  | nil =>
      cases us with
      | nil => rfl
      | cons u us =>
          exact List.dropWhile_cons_of_neg (by rw [(hus u rfl).1]; exact Bool.false_ne_true)
  | cons t ts ih =>
      rw [List.cons_append, List.dropWhile_cons, List.dropWhile_cons]
      split
      · exact ih
      · rfl

theorem afterCastType_append (hopen : Token.openAfter n ts = some 0) (hts : ts ≠ []) :
    afterCastType (ts ++ us) = afterCastType ts ++ us ∧
      Token.openAfter n (afterCastType ts) = some 0 := by
  obtain ⟨t, ts, rfl⟩ := List.exists_cons_of_ne_nil hts
  rw [afterCastType_eq, afterCastType_eq]
  have hname : headIs Token.isName (t :: ts ++ us) = headIs Token.isName (t :: ts) := rfl
  rw [hname]
  split
  · next hname =>
      rw [List.cons_append, List.tail_cons, List.tail_cons, dropWhile_append_of_endsType hus]
      rw [Token.openAfter_of_isName hname] at hopen
      exact pastGroup_append hus ((openAfter_dropWhile n ts).trans hopen)
  · rw [dropWhile_append_of_endsType hus]
    exact pastGroup_append hus ((openAfter_dropWhile n _).trans hopen)

end

/-- What is wholly taken is taken of a longer list too, where no cast waits for its type. -/
theorem dropUntil_append {stops : List String} (hus : StartsClause us)
    (hopen : Token.openAfter 0 ts = some 0) (hlast : ∀ t, [t] <:+ ts → t.isSymbol "::" = false)
    (h : dropUntil stops ts = []) : dropUntil stops (ts ++ us) = dropUntil stops us := by
  fun_induction dropUntil stops ts with
  | case1 => rfl
  | case2 t ts ht ih =>
      rw [Token.openAfter_opening ht] at hopen
      obtain ⟨hfrom, hrest⟩ := Token.groupFrom_append_of_closed hopen us
      rw [List.cons_append, dropUntil, if_pos ht, hfrom]
      exact ih hrest (fun u hu => hlast u
        (hu.trans ((Token.groupFrom_suffix 1 ts).trans (List.suffix_cons t ts)))) h
  | case3 t ts ht ht' ih =>
      have hts : ts ≠ [] := by
        rintro rfl
        rw [hlast t List.suffix_rfl] at ht'
        cases ht'
      rw [Token.openAfter_of_text (by rw [Token.text_of_isSymbol ht']; decide)] at hopen
      obtain ⟨happend, hrest⟩ := afterCastType_append hus.endsType hopen hts
      rw [List.cons_append, dropUntil, if_neg ht, if_pos ht', happend]
      exact ih hrest (fun u hu => hlast u
        (hu.trans ((afterCastType_suffix ts).trans (List.suffix_cons t ts)))) h
  | case4 t ts => cases h
  | case5 t ts ht ht' ht'' ih =>
      have hclose : ¬ t.isSymbol ")" = true := by
        intro hclose
        rw [Token.openAfter, if_pos hclose] at hopen
        cases hopen
      rw [Token.openAfter, if_neg hclose, if_neg ht] at hopen
      rw [List.cons_append, dropUntil, if_neg ht, if_neg ht', if_neg ht'']
      exact ih hopen (fun u hu => hlast u (hu.trans (List.suffix_cons t ts))) h

end Grammar

end SchemaDrift
