import SchemaDrift.Proofs.Casts

namespace SchemaDrift.Token

variable {before : Option Token} {t : Token} {ts us : List Token} {m n : Nat}

def enclosed (ts : List Token) : List Token := sign '(' :: (ts ++ [sign ')'])

theorem openAfter_add (h : openAfter n ts = some m) (k : Nat) :
    openAfter (n + k) ts = some (m + k) := by
  induction ts generalizing n with
  | nil =>
      cases h
      rfl
  | cons t ts ih =>
      rw [openAfter] at h ⊢
      split at h
      · next hclose =>
          split at h
          · cases h
          · next hn => rw [if_pos hclose, if_neg (by omega), Nat.sub_add_comm (by omega), ih h]
      · next hclose =>
          rw [if_neg hclose, ← ih h]
          split
          · rw [Nat.add_right_comm]
          · rfl

theorem openAfter_enclosed (h : openAfter 0 ts = some 0) : openAfter 0 (enclosed ts) = some 0 := by
  rw [enclosed, openAfter_opening rfl, openAfter_append, openAfter_add h 1]
  rfl

theorem openAfter_dropCasts (h : openAfter n ts = some 0) :
    openAfter n (dropCasts ts) = some 0 := by
  fun_induction dropCasts ts generalizing n with
  | case1 => exact h
  | case2 t ts ht ih =>
      rw [openAfter_of_text (by rw [text_of_isSymbol ht]; decide)] at h
      exact ih (dropCastType_append (b := sign ')') rfl h []).2
  | case3 t ts ht ih =>
      rw [openAfter] at h ⊢
      split at h
      · next hclose =>
          split at h
          · cases h
          · next hn => rw [if_pos hclose, if_neg hn, ih h]
      · next hclose => rw [if_neg hclose, ih h]

theorem dropCasts_enclosed (h : openAfter 0 ts = some 0) :
    dropCasts (enclosed ts) = enclosed (dropCasts ts) := by
  have hnil : dropCasts [] = [] := by rw [dropCasts]
  have hcast : ¬ (sign '(').isSymbol "::" = true := by decide
  rw [enclosed, dropCasts, if_neg hcast, dropCasts_append_closing rfl h, hnil, enclosed]

section

variable {a b c : Token}

/-- The parentheses around a single operand open and close nothing else. -/
theorem openAfter_operand (ha : a.isSymbol "(" = true) (hb : b.kind ≠ .symbol)
    (hc : c.isSymbol ")" = true) (n : Nat) (ts : List Token) :
    openAfter n (a :: b :: c :: ts) = openAfter n (b :: ts) := by
  have hoperand (k : Nat) (ts : List Token) : openAfter k (b :: ts) = openAfter k ts := by
    rw [openAfter, isSymbol_of_kind_ne hb, isSymbol_of_kind_ne hb]
    rfl
  rw [openAfter_opening ha, hoperand, hoperand, openAfter, if_pos hc,
    if_neg (Nat.succ_ne_zero n), Nat.add_sub_cancel]

theorem exists_openAfter_tail (h : openAfter n (t :: ts) = some m) :
    ∃ k, openAfter k ts = some m := by
  rw [openAfter] at h
  split at h
  · split at h
    · cases h
    · exact ⟨_, h⟩
  · exact ⟨_, h⟩

theorem isOperand_of_unwraps (h : (a.isSymbol "(" && b.kind != .symbol && c.isSymbol ")" &&
    !((before.map isName).getD false)) = true) :
    a.isSymbol "(" = true ∧ b.kind ≠ .symbol ∧ c.isSymbol ")" = true := by
  simp only [Bool.and_eq_true, bne_iff_ne] at h
  exact ⟨h.1.1.1, h.1.1.2, h.1.2⟩

end

theorem openAfter_unwrapOperandsOnce (before : Option Token) (ts : List Token) (n : Nat) :
    openAfter n (unwrapOperandsOnce before ts) = openAfter n ts := by
  fun_induction unwrapOperandsOnce before ts generalizing n with
  | case1 before a b c rest h ih =>
      obtain ⟨ha, hb, hc⟩ := isOperand_of_unwraps h
      rw [ih, openAfter_operand ha hb hc]
  | case2 before a b c rest h ih =>
      rw [openAfter, ih, ih]
      rfl
  | case3 => rfl

theorem openAfter_unwrapOperands (ts : List Token) (n : Nat) :
    openAfter n (unwrapOperands ts) = openAfter n ts := by
  fun_induction unwrapOperands ts with
  | case1 ts h ih => rw [ih, openAfter_unwrapOperandsOnce]
  | case2 => rfl

/-- The parenthesis that closes a pair around the tokens closes no operand among them. -/
theorem unwrapOperandsOnce_append_closing (h : openAfter n ts = some 0) :
    unwrapOperandsOnce before (ts ++ [sign ')']) = unwrapOperandsOnce before ts ++ [sign ')'] := by
  fun_induction unwrapOperandsOnce before ts generalizing n with
  | case1 before a b c rest hunwraps ih =>
      obtain ⟨ha, hb, hc⟩ := isOperand_of_unwraps hunwraps
      rw [openAfter_operand ha hb hc] at h
      rw [List.cons_append, List.cons_append, List.cons_append, unwrapOperandsOnce,
        if_pos hunwraps]
      exact ih h
  | case2 before a b c rest hunwraps ih =>
      obtain ⟨k, hk⟩ := exists_openAfter_tail h
      rw [List.cons_append, List.cons_append, List.cons_append, unwrapOperandsOnce,
        if_neg hunwraps]
      exact congrArg (a :: ·) (ih hk)
  | case3 before ts hshort =>
      rcases ts with _ | ⟨a, _ | ⟨b, _ | ⟨c, rest⟩⟩⟩
      · simp [unwrapOperandsOnce]
      · simp [unwrapOperandsOnce]
      · rw [List.cons_append, List.singleton_append, unwrapOperandsOnce, if_neg]
        · simp [unwrapOperandsOnce]
        · intro hunwraps
          obtain ⟨ha, hb, -⟩ := isOperand_of_unwraps hunwraps
          rw [openAfter_opening ha, openAfter, isSymbol_of_kind_ne hb, isSymbol_of_kind_ne hb] at h
          exact absurd h (by simp [openAfter])
      · exact absurd rfl (hshort a b c rest)

/-- The token before counts only if it can be the name of a function. -/
theorem unwrapOperandsOnce_congr {before' : Option Token}
    (h : (before.map isName).getD false = (before'.map isName).getD false) (ts : List Token) :
    unwrapOperandsOnce before ts = unwrapOperandsOnce before' ts := by
  fun_induction unwrapOperandsOnce before ts with
  | case1 before a b c rest hunwraps ih =>
      rw [h] at hunwraps
      rw [ih h, unwrapOperandsOnce.eq_1 before', if_pos hunwraps]
  | case2 before a b c rest hunwraps ih =>
      rw [h] at hunwraps
      rw [unwrapOperandsOnce.eq_1 before', if_neg hunwraps]
  | case3 before ts hshort =>
      rcases ts with _ | ⟨a, _ | ⟨b, _ | ⟨c, rest⟩⟩⟩
      · simp [unwrapOperandsOnce]
      · simp [unwrapOperandsOnce]
      · simp [unwrapOperandsOnce]
      · exact absurd rfl (hshort a b c rest)

theorem unwrapOperandsOnce_single (before : Option Token) (t : Token) :
    unwrapOperandsOnce before [t] = [t] := by
  simp [unwrapOperandsOnce]

theorem enclosed_single (t : Token) : enclosed [t] = [sign '(', t, sign ')'] := rfl

/-- In parentheses the tokens fare as without, unless they are a single operand. -/
theorem unwrapOperandsOnce_enclosed (h : openAfter 0 ts = some 0)
    (hsingle : ∀ t, ts = [t] → t.kind = .symbol) :
    unwrapOperandsOnce none (enclosed ts) = enclosed (unwrapOperandsOnce none ts) := by
  have hinner : unwrapOperandsOnce (some (sign '(')) (ts ++ [sign ')']) =
      unwrapOperandsOnce none ts ++ [sign ')'] := by
    have hbefore : ((some (sign '(')).map isName).getD false =
        ((none : Option Token).map isName).getD false := rfl
    rw [unwrapOperandsOnce_append_closing h, unwrapOperandsOnce_congr hbefore]
  have hkept : unwrapOperandsOnce none (enclosed ts) =
      sign '(' :: unwrapOperandsOnce (some (sign '(')) (ts ++ [sign ')']) := by
    rcases ts with _ | ⟨a, _ | ⟨b, rest⟩⟩
    · simp [enclosed, unwrapOperandsOnce]
    · rw [enclosed, List.singleton_append, unwrapOperandsOnce, if_neg]
      rw [hsingle a rfl]
      simp
    · rw [enclosed, List.cons_append, List.cons_append, unwrapOperandsOnce, if_neg]
      intro hunwraps
      obtain ⟨-, ha, hb⟩ := isOperand_of_unwraps hunwraps
      rw [openAfter, isSymbol_of_kind_ne ha, isSymbol_of_kind_ne ha] at h
      simp [openAfter, hb] at h
  rw [hkept, hinner, enclosed]

theorem unwrapOperands_of_length_le (h : ts.length ≤ (unwrapOperandsOnce none ts).length) :
    unwrapOperands ts = ts := by
  rw [unwrapOperands, if_neg (Nat.not_lt.2 h)]

theorem unwrapOperands_single (t : Token) : unwrapOperands [t] = [t] :=
  unwrapOperands_of_length_le (by rw [unwrapOperandsOnce_single])

theorem unwrapOperands_enclosed_single (h : t.kind ≠ .symbol) :
    unwrapOperands (enclosed [t]) = [t] := by
  have honce : unwrapOperandsOnce none (enclosed [t]) = [t] := by
    rw [enclosed_single, unwrapOperandsOnce, if_pos, unwrapOperandsOnce_single]
    rw [bne_iff_ne.2 h]
    rfl
  rw [unwrapOperands, honce, if_pos (by simp [enclosed]), unwrapOperands_single]

theorem length_enclosed (ts : List Token) : (enclosed ts).length = ts.length + 2 := by
  rw [enclosed, List.length_cons, List.length_append, List.length_singleton]

/-- In the end the pair is still there, or the tokens have come to a single operand. -/
theorem unwrapOperands_enclosed (h : openAfter 0 ts = some 0) :
    unwrapOperands (enclosed ts) = enclosed (unwrapOperands ts) ∨
      unwrapOperands (enclosed ts) = unwrapOperands ts := by
  fun_induction unwrapOperands ts with
  | case1 ts hshorter ih =>
      have honce := unwrapOperandsOnce_enclosed h fun t ht => by
        rw [ht, unwrapOperandsOnce_single] at hshorter
        exact absurd hshorter (Nat.lt_irrefl _)
      rw [unwrapOperands, honce, if_pos (by rw [length_enclosed, length_enclosed]; omega)]
      exact ih ((openAfter_unwrapOperandsOnce none ts 0).trans h)
  | case2 ts hlength =>
      by_cases hsingle : ∀ t, ts = [t] → t.kind = .symbol
      · left
        apply unwrapOperands_of_length_le
        rw [unwrapOperandsOnce_enclosed h hsingle, length_enclosed, length_enclosed]
        omega
      · right
        push Not at hsingle
        obtain ⟨t, rfl, ht⟩ := hsingle
        exact unwrapOperands_enclosed_single ht

theorem unwrap?_enclosed (h : openAfter 0 ts = some 0) : unwrap? (enclosed ts) = some ts := by
  have hgroup : groupFrom 1 (ts ++ [sign ')']) = (ts, []) := by
    have hclosing : groupFrom 1 [sign ')'] = ([], []) := by decide
    rw [groupFrom_append h, hclosing, List.append_nil]
  have hopening : (sign '(').isSymbol "(" = true := by decide
  rw [enclosed, unwrap?, hgroup, hopening, List.length_append, List.length_singleton, if_pos]
  simp

theorem unwrapAll_enclosed (h : openAfter 0 ts = some 0) :
    unwrapAll (enclosed ts) = unwrapAll ts := by
  rw [unwrapAll]
  split
  · next us hus =>
      rw [unwrap?_enclosed h, Option.some.injEq] at hus
      rw [hus]
  · next hnone =>
      rw [unwrap?_enclosed h] at hnone
      cases hnone

/-- What the three passes make of tokens in parentheses. -/
theorem unwrap_enclosed (h : openAfter 0 ts = some 0) :
    unwrapAll (unwrapOperands (dropCasts (enclosed ts))) =
      unwrapAll (unwrapOperands (dropCasts ts)) := by
  have hcasts := openAfter_dropCasts h
  rw [dropCasts_enclosed h]
  rcases unwrapOperands_enclosed hcasts with henclosed | hsame
  · rw [henclosed, unwrapAll_enclosed ((openAfter_unwrapOperands _ _).trans hcasts)]
  · rw [hsame]

def enclosedText (s : List Char) : List Char := '(' :: (s ++ [')'])

variable {d : Dialect} {s e : List Char}

theorem spells_iterate_enclosed (h : Spells d s ts) (n : Nat) :
    Spells d (enclosedText^[n] s) (enclosed^[n] ts) := by
  induction n generalizing s ts with
  | zero => exact h
  | succ n ih => exact ih h.parens

theorem unwrap_iterate_enclosed (h : openAfter 0 ts = some 0) (n : Nat) :
    unwrapAll (unwrapOperands (dropCasts (enclosed^[n] ts))) =
      unwrapAll (unwrapOperands (dropCasts ts)) := by
  induction n generalizing ts with
  | zero => rfl
  | succ n ih => rw [Function.iterate_succ_apply, ih (openAfter_enclosed h), unwrap_enclosed h]

end SchemaDrift.Token

namespace SchemaDrift

open Token

/-- However many pairs of parentheses are put around an expression with closed quotes and balanced
parentheses, its canonical text stays the same. -/
theorem canonicalExpr_iterate_enclosedText {d : Dialect} {e : List Char}
    (hclosed : closedFrom d none e = true) (hparens : openAfter 0 (lex d e) = some 0) (n : Nat) :
    canonicalExpr d (enclosedText^[n] e) = canonicalExpr d e := by
  have htokens := (spells_iterate_enclosed (spells_of_closedFrom hclosed) n).map_ungapped_lex
  rw [canonicalExpr, canonicalExpr, Token.canonicalExpr, Token.canonicalExpr,
    render_operands_congr (map_folded_of_ungapped htokens), unwrap_iterate_enclosed hparens]

def priceCondition : List Char := "(price > (0)::numeric) AND lower((code)) <> ('x)')".toList

theorem canonicalExpr_iterate_enclosedText_priceCondition :
    closedFrom .postgres none priceCondition = true ∧
      openAfter 0 (lex .postgres priceCondition) = some 0 ∧
      canonicalExpr .postgres priceCondition = "(price > 0) and lower(code) <> 'x)'" ∧
      canonicalExpr .postgres (enclosedText^[3] priceCondition) =
        canonicalExpr .postgres priceCondition := by
  have hclosed : closedFrom .postgres none priceCondition = true := by decide +kernel
  have hparens : openAfter 0 (lex .postgres priceCondition) = some 0 := by decide +kernel
  exact ⟨hclosed, hparens, by decide +kernel, canonicalExpr_iterate_enclosedText hclosed hparens 3⟩

end SchemaDrift
