import SchemaDrift.Proofs.Elements

namespace SchemaDrift

open Reader

namespace Token

def typePhrases : List (List String) :=
  [["VARYING"], ["PRECISION"], ["WITH", "TIME", "ZONE"], ["WITHOUT", "TIME", "ZONE"]]

inductive IsTail (late : List (List String)) : List Token → Prop
  | nil : IsTail late []
  | phrase {ks : List String} {ws ts : List Token} (hks : ks ∈ late)
      (hws : List.Forall₂ (fun k t => t.isKeyword k = true) ks ws) (h : IsTail late ts) :
      IsTail late (ws ++ ts)
  | brackets {a b : Token} {ts : List Token} (ha : a.isSymbol "[" = true)
      (hb : b.isSymbol "]" = true) (h : IsTail late ts) : IsTail late (a :: b :: ts)

inductive GoesOnType (late : List (List String)) : List Token → Prop
  | phrase {ks : List String} {ws ts : List Token} (hks : ks ∈ typePhrases)
      (hws : List.Forall₂ (fun k t => t.isKeyword k = true) ks ws) (h : GoesOnType late ts) :
      GoesOnType late (ws ++ ts)
  | params {a b : Token} {ts us : List Token} (ha : a.isSymbol "(" = true)
      (hts : openAfter 0 ts = some 0) (hb : b.isSymbol ")" = true) (h : IsTail late us) :
      GoesOnType late (a :: (ts ++ b :: us))
  | tail {ts : List Token} (h : IsTail late ts) : GoesOnType late ts

inductive IsType (late : List (List String)) : List Token → Prop
  | name {t : Token} {ts : List Token} (ht : t.isName = true) (h : GoesOnType late ts) :
      IsType late (t :: ts)

variable {late : List (List String)} {a b t : Token} {ts us : List Token}

theorem not_isCastWord_of_isSymbol {s : String} (h : t.isSymbol s = true) :
    t.isCastWord = false := by
  rw [isCastWord, List.any_eq_false]
  intro k _
  rw [isKeyword_of_isSymbol h]
  exact Bool.false_ne_true

theorem isCastWord_of_phrase {ks : List String} (hks : ks ∈ typePhrases) {ws : List Token}
    (hws : List.Forall₂ (fun k t => t.isKeyword k = true) ks ws) :
    ∀ t ∈ ws, t.isCastWord = true := by
  have hcast : ∀ ks ∈ typePhrases, ∀ k ∈ ks, k ∈ castWords := by decide
  have hwords := hcast ks hks
  clear hks
  induction hws with
  | nil => exact nofun
  | @cons k t ks ws hkt _ ih =>
      obtain ⟨hk, hwords⟩ := List.forall_mem_cons.1 hwords
      exact List.forall_mem_cons.2 ⟨List.any_eq_true.2 ⟨k, hk, hkt⟩, ih hwords⟩

theorem pastGroup_of_closed (ha : a.isSymbol "(" = true) (hts : openAfter 0 ts = some 0)
    (hb : b.isSymbol ")" = true) (us : List Token) : pastGroup (a :: (ts ++ b :: us)) = us := by
  rw [pastGroup, if_pos ha, groupFrom_append hts, groupFrom, if_pos hb, if_pos (Nat.le_refl 1)]

theorem pastGroup_dropWhile_of_endsType (hus : Grammar.EndsType us) :
    pastGroup (us.dropWhile isCastWord) = us := by
  have hopen : openAfter 0 [] = some 0 := rfl
  have hpast : pastGroup us = us := (Grammar.pastGroup_append hus hopen).1
  have hdrop : us.dropWhile isCastWord = us := Grammar.dropWhile_append_of_endsType hus []
  rw [hdrop, hpast]

section

variable (hlate : ∀ ks ∈ late, ks ∈ typePhrases) (hus : Grammar.EndsType us)

include hlate hus

/-- Only phrases are passed over in what no parameters follow. -/
theorem IsTail.exists_pastGroup (h : IsTail late ts) :
    ∃ vs, IsTail late vs ∧ pastGroup ((ts ++ us).dropWhile isCastWord) = vs ++ us := by
  induction h with
  | nil => exact ⟨[], .nil, pastGroup_dropWhile_of_endsType hus⟩
  | phrase hks hws _ ih =>
      rwa [List.append_assoc,
        List.dropWhile_append_of_pos (isCastWord_of_phrase (hlate _ hks) hws)]
  | @brackets a b ts ha hb h =>
      refine ⟨a :: b :: ts, .brackets ha hb h, pastGroup_dropWhile_of_endsType ?_⟩
      intro t ht
      cases ht
      exact ⟨not_isCastWord_of_isSymbol ha, not_isSymbol_of_ne ha (by decide)⟩

theorem GoesOnType.exists_pastGroup (h : GoesOnType late ts) :
    ∃ vs, IsTail late vs ∧ pastGroup ((ts ++ us).dropWhile isCastWord) = vs ++ us := by
  induction h with
  | phrase hks hws _ ih =>
      rwa [List.append_assoc, List.dropWhile_append_of_pos (isCastWord_of_phrase hks hws)]
  | @params a b ts vs ha hts hb h =>
      have hcast : ¬ a.isCastWord = true := by
        rw [not_isCastWord_of_isSymbol ha]
        exact Bool.false_ne_true
      refine ⟨vs, h, ?_⟩
      rw [List.cons_append, List.dropWhile_cons_of_neg hcast, List.append_assoc, List.cons_append,
        pastGroup_of_closed ha hts hb]
  | tail h => exact h.exists_pastGroup hlate hus

/-- The search for the next clause passes over a type up to its tail. -/
theorem IsType.exists_afterCastType (h : IsType late ts) :
    ∃ vs, IsTail late vs ∧ afterCastType (ts ++ us) = vs ++ us := by
  cases h with
  | @name t ts ht h =>
      have hname : headIs isName (t :: ts ++ us) = true := ht
      rw [afterCastType_eq, if_pos hname]
      exact h.exists_pastGroup hlate hus

end

/-- Canonical text passes over brackets as well. -/
theorem dropCastType_eq (ts : List Token) :
    dropCastType ts = if headIs isName ts then dropBrackets (Reader.afterCastType ts) else ts := by
  cases ts with
  | nil => rfl
  | cons t ts =>
      rw [dropCastType, afterCastType_eq]
      have hname : headIs isName (t :: ts) = t.isName := rfl
      rw [hname]
      split
      · rw [List.tail_cons]
        cases ts.dropWhile isCastWord <;> rfl
      · rfl

theorem IsTail.dropBrackets_eq (h : IsTail [] ts) : dropBrackets ts = [] := by
  induction h with
  | nil => rfl
  | phrase hks => cases hks
  | brackets ha hb _ ih =>
      rw [dropBrackets, text_of_isSymbol ha, text_of_isSymbol hb]
      exact ih

theorem IsType.dropCastType_eq (h : IsType [] ts) : dropCastType ts = [] := by
  have hend : Grammar.EndsType [] := fun t ht => by cases ht
  obtain ⟨vs, hvs, hafter⟩ := h.exists_afterCastType (by simp) hend
  rw [List.append_nil, List.append_nil] at hafter
  rw [Token.dropCastType_eq, hafter, hvs.dropBrackets_eq]
  cases h with
  | name ht => exact if_pos ht

end Token

namespace Grammar

variable {d : Dialect} {late : List (List String)} {t : Token} {ts us : List Token}

theorem find?_continuations_of_not_isWord (h : t.isWord = false) (ts : List Token) :
    continuations.find? (fun ks => atKeywords ks (t :: ts)) = none := by
  rw [List.find?_eq_none]
  intro ks hks hat
  obtain ⟨k, ks, rfl⟩ := List.exists_cons_of_ne_nil (ne_nil_of_mem_continuations hks)
  rw [atKeywords, Token.isKeyword, h, Bool.false_and, Bool.false_and] at hat
  cases hat

/-- Keywords that stand at one place are the same as far as both go. -/
theorem asciiUpper_eq_of_atKeywords {ks ks' : List String} (h : atKeywords ks ts = true)
    (h' : atKeywords ks' ts = true) :
    ∀ p ∈ ks.zip ks', Text.asciiUpper p.1.toList = Text.asciiUpper p.2.toList := by
  induction ks generalizing ks' ts with
  | nil => exact fun p hp => by cases hp
  | cons k ks ih =>
      cases ks' with
      | nil => exact fun p hp => by cases hp
      | cons k' ks' =>
          cases ts with
          | nil => cases h
          | cons t ts =>
              obtain ⟨hk, h⟩ := Bool.and_eq_true_iff.1 h
              obtain ⟨hk', h'⟩ := Bool.and_eq_true_iff.1 h'
              rw [List.zip_cons_cons, List.forall_mem_cons]
              refine ⟨?_, ih h h'⟩
              rw [← beq_iff_eq.1 (Bool.and_eq_true_iff.1 hk).2,
                beq_iff_eq.1 (Bool.and_eq_true_iff.1 hk').2]

/-- No two phrases that go on a type begin alike, so their order does not count. -/
theorem find?_continuations {ks : List String} (hks : ks ∈ continuations)
    (h : atKeywords ks ts = true) :
    continuations.find? (fun ks => atKeywords ks ts) = some ks := by
  have hunlike : ∀ ks ∈ continuations, ∀ ks' ∈ continuations,
      (∀ p ∈ ks.zip ks', Text.asciiUpper p.1.toList = Text.asciiUpper p.2.toList) → ks = ks' := by
    decide +kernel
  cases hfind : continuations.find? (fun ks => atKeywords ks ts) with
  | none => exact absurd h (List.find?_eq_none.1 hfind ks hks)
  | some ks' =>
      have h' : atKeywords ks' ts = true := by simpa using List.find?_some hfind
      rw [hunlike ks hks ks' (List.mem_of_find?_eq_some hfind) (asciiUpper_eq_of_atKeywords h h')]

theorem atKeywords_of_forall₂ {ks : List String} {ws : List Token}
    (hws : List.Forall₂ (fun k t => t.isKeyword k = true) ks ws) (ts : List Token) :
    atKeywords ks (ws ++ ts) = true := by
  induction hws with
  | nil => rfl
  | cons h _ ih => exact Bool.and_eq_true_iff.2 ⟨h, ih⟩

theorem iterate_phrase {ks : List String} {ws : List Token} (hks : ks ∈ continuations)
    (hws : List.Forall₂ (fun k t => t.isKeyword k = true) ks ws) (s : TypeDraft)
    (ts : List Token) : iterate typeStep s d (ws ++ ts) =
      iterate typeStep { s with words := s.words ++ [String.intercalate " " ks] } d ts := by
  have hpos := List.length_pos_of_ne_nil (ne_nil_of_mem_continuations hks)
  refine iterate_of_step ?_ ?_
  · rw [typeStep_eq, find?_continuations hks (atKeywords_of_forall₂ hws ts)]
    dsimp only
    rw [hws.length_eq, List.drop_left]
  · rw [List.length_append, ← hws.length_eq]
    omega

theorem iterate_brackets {a b : Token} (ha : a.isSymbol "[" = true) (hb : b.isSymbol "]" = true)
    (s : TypeDraft) (ts : List Token) : iterate typeStep s d (a :: b :: ts) =
      iterate typeStep { s with words := s.words ++ ["[]"] } d ts := by
  have hopening : atSymbol "(" (a :: b :: ts) = false := Token.not_isSymbol_of_ne ha (by decide)
  have hpair : (atSymbol "[" (a :: b :: ts) &&
      headIs (fun u => u.text == [']']) (a :: b :: ts).tail) = true := by
    have hclosing : headIs (fun u => u.text == [']']) (b :: ts) = true :=
      beq_iff_eq.2 (Token.text_of_isSymbol hb)
    rw [List.tail_cons, hclosing, Bool.and_true]
    exact ha
  refine iterate_of_step ?_ ?_
  · rw [typeStep_eq, find?_continuations_of_not_isWord (Token.not_isWord_of_isSymbol ha), hopening,
      Bool.and_false]
    dsimp only
    rw [if_neg Bool.false_ne_true, if_pos hpair]
    rfl
  · rw [List.length_cons, List.length_cons]
    omega

theorem mem_continuations_of_typePhrases {ks : List String} (hks : ks ∈ Token.typePhrases) :
    ks ∈ continuations := by
  have hall : ∀ ks ∈ Token.typePhrases, ks ∈ continuations := by decide
  exact hall ks hks

section

variable {ks : List String} {ws : List Token} (hks : ks ∈ Token.typePhrases)
  (hws : List.Forall₂ (fun k t => t.isKeyword k = true) ks ws)

include hks hws

theorem exists_head_of_phrase : ∃ k ∈ ["VARYING", "PRECISION", "WITH", "WITHOUT"],
    ∃ t vs, t.isKeyword k = true ∧ ws = t :: vs := by
  simp only [Token.typePhrases, List.mem_cons, List.not_mem_nil, or_false] at hks
  rcases hks with rfl | rfl | rfl | rfl
  all_goals
    cases hws with
    | cons hw _ => exact ⟨_, by decide, _, _, hw, rfl⟩

theorem mem_of_upperWord?_phrase {ts : List Token} {next : String}
    (h : upperWord? (ws ++ ts) = some next) :
    next ∈ ["VARYING", "PRECISION", "WITH", "WITHOUT"] := by
  have hupper : ∀ k ∈ ["VARYING", "PRECISION", "WITH", "WITHOUT"],
      String.ofList (Text.upper k.toList) ∈ ["VARYING", "PRECISION", "WITH", "WITHOUT"] := by
    decide
  obtain ⟨k, hk, t, _, ht, rfl⟩ := exists_head_of_phrase hks hws
  rw [List.cons_append, upperWord?_of_isKeyword ht] at h
  cases h
  exact hupper k hk

end

theorem iterate_isTail (hlate : ∀ ks ∈ late, ks ∈ Token.typePhrases) (h : Token.IsTail late ts)
    (s : TypeDraft) : ∃ r, iterate typeStep s d ts = .ok (some r, []) := by
  induction h generalizing s with
  | nil => exact ⟨s, startsClause_nil.iterate_typeStep s⟩
  | phrase hks hws _ ih =>
      rw [iterate_phrase (mem_continuations_of_typePhrases (hlate _ hks)) hws]
      exact ih _
  | brackets ha hb _ ih =>
      rw [iterate_brackets ha hb]
      exact ih _

theorem iterate_goesOnType (hlate : ∀ ks ∈ late, ks ∈ Token.typePhrases)
    (h : Token.GoesOnType late ts) {s : TypeDraft} (hs : s.params = []) :
    ∃ r, iterate typeStep s d ts = .ok (some r, []) := by
  induction h generalizing s with
  | phrase hks hws _ ih =>
      rw [iterate_phrase (mem_continuations_of_typePhrases hks) hws]
      exact ih hs
  | @params a b ts us ha hts hb h =>
      have hrest : (Token.groupFrom 1 (ts ++ b :: us)).2 = us := by
        rw [Token.groupFrom_append hts, Token.groupFrom, if_pos hb, if_pos (Nat.le_refl 1)]
      have hopening : (s.params.isEmpty && atSymbol "(" (a :: (ts ++ b :: us))) = true := by
        rw [hs]
        exact ha
      have hstep : ∃ next, typeStep s d (a :: (ts ++ b :: us)) = .ok (some (some next), us) := by
        rw [typeStep_eq, find?_continuations_of_not_isWord (Token.not_isWord_of_isSymbol ha)]
        dsimp only
        rw [if_pos hopening, List.tail_cons, hrest]
        exact ⟨_, rfl⟩
      obtain ⟨next, hstep⟩ := hstep
      rw [iterate_of_step hstep]
      · exact iterate_isTail hlate h next
      · simp only [List.length_cons, List.length_append]
        omega
  | tail h => exact iterate_isTail hlate h s

theorem upperWord?_of_isSymbol {s : String} (h : t.isSymbol s = true) (ts : List Token) :
    upperWord? (t :: ts) = none := by
  refine if_neg fun hword => ?_
  have hname := Token.isName_of_isWord hword
  rw [Token.not_isName_of_isSymbol h] at hname
  cases hname

/-- The words that may follow the name of a type. -/
theorem mem_of_upperWord? (hlate : ∀ ks ∈ late, ks ∈ Token.typePhrases)
    (h : Token.GoesOnType late ts) {next : String} (hnext : upperWord? ts = some next) :
    next ∈ ["VARYING", "PRECISION", "WITH", "WITHOUT"] := by
  cases h with
  | phrase hks hws => exact mem_of_upperWord?_phrase hks hws hnext
  | params ha =>
      rw [upperWord?_of_isSymbol ha] at hnext
      cases hnext
  | tail h =>
      cases h with
      | nil => cases hnext
      | phrase hks hws => exact mem_of_upperWord?_phrase (hlate _ hks) hws hnext
      | brackets ha =>
          rw [upperWord?_of_isSymbol ha] at hnext
          cases hnext

/-- The word that follows the name of a type is no part of the name. -/
theorem not_leading_of_goesOnType (hlate : ∀ ks ∈ late, ks ∈ Token.typePhrases)
    (h : Token.GoesOnType late ts) {next : String} (hnext : upperWord? ts = some next)
    (word : String) : leadingContinuations.contains (word, next) = false := by
  have hsecond : ∀ p ∈ leadingContinuations,
      p.2 ∉ ["VARYING", "PRECISION", "WITH", "WITHOUT"] := by
    simp only [leadingContinuations]
    decide
  rw [List.contains_eq_mem, decide_eq_false_iff_not]
  exact fun hmem => hsecond _ hmem (mem_of_upperWord? hlate h hnext)

theorem exists_typeName (hlate : ∀ ks ∈ late, ks ∈ Token.typePhrases) (h : Token.IsType late ts) :
    ∃ p, typeName d ts = .ok (some p, []) := by
  cases h with
  | @name t ts ht h =>
      have hiterate (words : List String) :
          ∃ r, iterate typeStep ⟨words, []⟩ d ts = .ok (some r, []) :=
        iterate_goesOnType hlate h rfl
      have hwords : ∃ r, typeWords d (t :: ts) = .ok (some r, []) := by
        rw [typeWords_cons ht, firstTypeWords]
        cases hnext : upperWord? ts with
        | none => exact hiterate _
        | some next =>
            dsimp only
            rw [if_neg (by rw [not_leading_of_goesOnType hlate h hnext]; exact Bool.false_ne_true)]
            exact hiterate _
      obtain ⟨r, hwords⟩ := hwords
      refine ⟨r.finish (Token.span (t :: ts)), ?_⟩
      have hsource : withSource typeWords d (t :: ts) =
          .ok (some (r, Token.span (t :: ts)), []) := by
        rw [withSource, hwords]
        dsimp only
        rw [List.length_nil, Nat.sub_zero, List.take_length]
      unfold typeName
      rw [bind_of_eq hsource]
      rfl

end Grammar

end SchemaDrift
