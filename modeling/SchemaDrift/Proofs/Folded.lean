import SchemaDrift.Proofs.Letters
import SchemaDrift.Proofs.Relex

namespace SchemaDrift.Token

def folded (t : Token) : Token :=
  ⟨t.kind, [], if t.isWord then Text.asciiUpper t.text else t.text⟩

variable (t u : Token) (ts : List Token)

@[simp]
theorem kind_folded : t.folded.kind = t.kind := rfl

@[simp]
theorem isWord_folded : t.folded.isWord = t.isWord := rfl

@[simp]
theorem isName_folded : t.folded.isName = t.isName := rfl

theorem text_folded_of_word (h : t.isWord = true) : t.folded.text = Text.asciiUpper t.text :=
  if_pos h

theorem text_folded_of_not_word (h : t.isWord = false) : t.folded.text = t.text :=
  if_neg (Bool.eq_false_iff.1 h)

theorem apply_text_of_folded {α : Type} {f : List Char → α}
    (hf : ∀ s, f (Text.asciiUpper s) = f s) {t u : Token} (h : t.folded = u.folded) :
    f t.text = f u.text := by
  have hfolded (v : Token) : f v.folded.text = f v.text := by
    by_cases hword : v.isWord = true
    · rw [text_folded_of_word v hword, hf]
    · rw [text_folded_of_not_word v (Bool.eq_false_iff.2 hword)]
  rw [← hfolded t, h, hfolded]

@[simp]
theorem isSymbol_folded (s : String) : t.folded.isSymbol s = t.isSymbol s := by
  by_cases hk : t.kind = .symbol
  · have hword : t.isWord = false := by simp [isWord, hk]
    rw [isSymbol, text_folded_of_not_word t hword, kind_folded, isSymbol]
  · rw [isSymbol, kind_folded, isSymbol, beq_eq_false_iff_ne.2 hk, Bool.false_and, Bool.false_and]

@[simp]
theorem isKeyword_folded (k : String) : t.folded.isKeyword k = t.isKeyword k := by
  by_cases hword : t.isWord = true
  · rw [isKeyword, text_folded_of_word t hword, isWord_folded, Text.sameWord,
      Text.asciiUpper_asciiUpper, isKeyword, Text.sameWord]
  · simp [isKeyword, hword]

@[simp]
theorem isCastWord_folded : t.folded.isCastWord = t.isCastWord := by
  simp [isCastWord, castWords]

@[simp]
theorem piece_folded : t.folded.piece = t.piece := by
  by_cases hword : t.isWord = true
  · rw [piece, isWord_folded, if_pos hword, text_folded_of_word t hword, Text.lower_asciiUpper,
      piece, if_pos hword]
  · rw [Bool.not_eq_true] at hword
    simp only [piece, isWord_folded, text_folded_of_not_word t hword, hword, Bool.false_eq_true,
      if_false]

/-- A text of one character other than a letter. -/
theorem text_folded_beq {c : Char}
    (hc : ∀ n < 26, ((Char.ofNat (97 + n)).toUpper == c) = (Char.ofNat (97 + n) == c)) :
    (t.folded.text == [c]) = (t.text == [c]) := by
  by_cases hword : t.isWord = true
  · rw [text_folded_of_word t hword]
    cases t.text with
    | nil => rfl
    | cons e s =>
        cases s with
        | nil => simp [Text.asciiUpper, Text.apply_toUpper (f := (· == c)) hc e]
        | cons e' s => simp [Text.asciiUpper]
  · rw [text_folded_of_not_word t (Bool.not_eq_true _ ▸ hword)]

@[simp]
theorem text_folded_beq_opening : (t.folded.text == ['(']) = (t.text == ['(']) :=
  text_folded_beq t (by decide)

@[simp]
theorem text_folded_beq_openingBracket : (t.folded.text == ['[']) = (t.text == ['[']) :=
  text_folded_beq t (by decide)

@[simp]
theorem text_folded_beq_closingBracket : (t.folded.text == [']']) = (t.text == [']']) :=
  text_folded_beq t (by decide)

@[simp]
theorem tight_folded : tight t.folded u.folded = tight t u := by
  have h (v : Token) (p : List Char → Bool) :
      (v.folded.kind == .symbol && p v.folded.text) = (v.kind == .symbol && p v.text) := by
    by_cases hk : v.kind = .symbol
    · rw [text_folded_of_not_word v (by simp [isWord, hk]), kind_folded]
    · rw [kind_folded, beq_eq_false_iff_ne.2 hk, Bool.false_and, Bool.false_and]
  rw [tight, h, h, tight]

@[simp]
theorem render_map_folded : render (ts.map folded) = render ts := by
  have hafter (v : Token) (us : List Token) :
      renderAfter v.folded (us.map folded) = renderAfter v us := by
    induction us generalizing v with
    | nil => rfl
    | cons u us ih => simp [renderAfter, ih]
  cases ts with
  | nil => rfl
  | cons t ts => simp [render, hafter]

@[simp]
theorem groupFrom_map_folded (depth : Nat) :
    groupFrom depth (ts.map folded) =
      ((groupFrom depth ts).1.map folded, (groupFrom depth ts).2.map folded) := by
  induction ts generalizing depth with
  | nil => rfl
  | cons t ts ih =>
      simp only [List.map_cons, groupFrom, isSymbol_folded, ih]
      split
      · split <;> rfl
      · rfl

@[simp]
theorem dropWhile_map_folded {p : Token → Bool} (hp : ∀ t, p (folded t) = p t) :
    (ts.map folded).dropWhile p = (ts.dropWhile p).map folded := by
  simp only [List.dropWhile_map, Function.comp_def, hp]

@[simp]
theorem dropBrackets_map_folded : dropBrackets (ts.map folded) = (dropBrackets ts).map folded := by
  fun_induction dropBrackets ts with
  | case1 t u ts h ih => simp [dropBrackets, h, ih]
  | case2 t u ts h => simp [dropBrackets, h]
  | case3 ts h =>
      match ts with
      | [] => rfl
      | [t] => rfl
      | t :: u :: ts => exact absurd rfl (h t u ts)

@[simp]
theorem dropCastType_map_folded : dropCastType (ts.map folded) = (dropCastType ts).map folded := by
  cases ts with
  | nil => rfl
  | cons t ts =>
      simp only [List.map_cons, dropCastType, isName_folded,
        dropWhile_map_folded ts isCastWord_folded]
      split
      · cases ts.dropWhile isCastWord with
        | nil => rfl
        | cons u us =>
            simp only [List.map_cons, isSymbol_folded, groupFrom_map_folded]
            split
            · exact dropBrackets_map_folded _
            · exact dropBrackets_map_folded (u :: us)
      · rfl

@[simp]
theorem dropCasts_map_folded : dropCasts (ts.map folded) = (dropCasts ts).map folded := by
  fun_induction dropCasts ts with
  | case1 => simp [dropCasts]
  | case2 t ts h ih => simp [dropCasts, h, ih]
  | case3 t ts h ih => simp [dropCasts, h, ih]

@[simp]
theorem unwrapOperandsOnce_map_folded (before : Option Token) :
    unwrapOperandsOnce (before.map folded) (ts.map folded) =
      (unwrapOperandsOnce before ts).map folded := by
  have hname (o : Option Token) : ((o.map folded).map isName).getD false =
      (o.map isName).getD false := by
    cases o <;> rfl
  fun_induction unwrapOperandsOnce before ts with
  | case1 before a b c rest h ih =>
      rw [List.map_cons, List.map_cons, List.map_cons, unwrapOperandsOnce, if_pos]
      · exact ih
      · simpa only [isSymbol_folded, kind_folded, hname] using h
  | case2 before a b c rest h ih =>
      rw [List.map_cons, List.map_cons, List.map_cons, unwrapOperandsOnce, if_neg]
      · rw [List.map_cons, ← ih]
        rfl
      · simpa only [isSymbol_folded, kind_folded, hname] using h
  | case3 before ts h =>
      rw [unwrapOperandsOnce.eq_def]
      cases ts with
      | nil => rfl
      | cons a ts =>
          cases ts with
          | nil => rfl
          | cons b ts =>
              cases ts with
              | nil => rfl
              | cons c rest => exact absurd rfl (h a b c rest)

@[simp]
theorem unwrapOperands_map_folded :
    unwrapOperands (ts.map folded) = (unwrapOperands ts).map folded := by
  have honce := fun ts => unwrapOperandsOnce_map_folded ts none
  rw [Option.map_none] at honce
  fun_induction unwrapOperands ts with
  | case1 ts h ih => rw [unwrapOperands, honce, if_pos (by simpa using h), ih]
  | case2 ts h => rw [unwrapOperands, honce, if_neg (by simpa using h)]

@[simp]
theorem unwrap?_map_folded : unwrap? (ts.map folded) = (unwrap? ts).map (List.map folded) := by
  cases ts with
  | nil => rfl
  | cons t ts =>
      simp only [List.map_cons, unwrap?, isSymbol_folded, groupFrom_map_folded, List.length_map,
        List.isEmpty_map]
      split <;> rfl

@[simp]
theorem unwrapAll_map_folded : unwrapAll (ts.map folded) = (unwrapAll ts).map folded := by
  fun_induction unwrapAll ts with
  | case1 ts us h ih =>
      rw [unwrapAll]
      split
      · next vs hvs =>
          rw [unwrap?_map_folded, h, Option.map_some, Option.some.injEq] at hvs
          rw [← hvs, ih]
      · next hvs =>
          rw [unwrap?_map_folded, h] at hvs
          cases hvs
  | case2 ts h =>
      rw [unwrapAll]
      split
      · next vs hvs =>
          rw [unwrap?_map_folded, h] at hvs
          cases hvs
      · rfl

theorem splitCommas_map {f : Token → Token} (hf : ∀ t s, (f t).isSymbol s = t.isSymbol s) :
    splitCommas (ts.map f) = (splitCommas ts).map (List.map f) := by
  have hfrom (depth : Int) (part us : List Token) :
      splitCommasFrom depth (part.map f) (us.map f) =
        (splitCommasFrom depth part us).map (List.map f) := by
    induction us generalizing depth part with
    | nil =>
        simp only [List.map_nil, splitCommasFrom, List.isEmpty_map]
        split <;> simp
    | cons u us ih =>
        simp only [List.map_cons, splitCommasFrom, hf]
        split
        · simpa using ih 0 []
        · exact ih _ (u :: part)
  exact hfrom 0 [] ts

@[simp]
theorem splitCommas_map_folded :
    splitCommas (ts.map folded) = (splitCommas ts).map (List.map folded) :=
  splitCommas_map ts isSymbol_folded

theorem map_folded_bare : (bare ts).map folded = ts.map folded := by
  cases ts <;> rfl

/-- The source of tokens reads like the tokens. -/
theorem Cut.canonical_span {d : Dialect} {ts : List Token} (h : Cut d ts) :
    canonical d (span ts) = render ts := by
  rw [canonical, h.lex_span, ← render_map_folded, map_folded_bare, render_map_folded]

/-- What an expression comes to, whatever its gaps and its letter case. -/
theorem render_operands_congr {ts us : List Token} (h : ts.map folded = us.map folded) :
    render (unwrapAll (unwrapOperands (dropCasts ts))) =
      render (unwrapAll (unwrapOperands (dropCasts us))) := by
  have hfolded (vs : List Token) :
      render (unwrapAll (unwrapOperands (dropCasts (vs.map folded)))) =
        render (unwrapAll (unwrapOperands (dropCasts vs))) := by
    simp
  rw [← hfolded ts, h, hfolded]

theorem Cut.canonicalExpr_span {d : Dialect} {ts : List Token} (h : Cut d ts) :
    canonicalExpr d (span ts) = render (unwrapAll (unwrapOperands (dropCasts ts))) := by
  rw [canonicalExpr, h.lex_span, render_operands_congr (map_folded_bare ts)]

theorem canonicalExpr_span_lex {d : Dialect} {s : List Char}
    (h : ∀ t ∈ (lex d s).head?, t.endsAlone = true) :
    canonicalExpr d (span (lex d s)) = canonicalExpr d s := by
  rw [canonicalExpr, lex_span_lex h, render_operands_congr (map_folded_bare _), canonicalExpr]

end SchemaDrift.Token
