import SchemaDrift.Proofs.Juxtaposition
import SchemaDrift.Proofs.TypeExtents

namespace SchemaDrift

open Reader

namespace Token

inductive IsOperand : List Token → Prop
  | single {t : Token} (ht : t.kind ≠ .symbol) : IsOperand [t]
  | group {a b : Token} {ts : List Token} (ha : a.isSymbol "(" = true)
      (hts : openAfter 0 ts = some 0) (hb : b.isSymbol ")" = true) : IsOperand (a :: (ts ++ [b]))

variable {a b t : Token} {ts us : List Token} {n : Nat}

theorem openAfter_dropBrackets (n : Nat) (ts : List Token) :
    openAfter n (dropBrackets ts) = openAfter n ts := by
  fun_induction dropBrackets ts with
  | case1 t u ts h ih =>
      obtain ⟨ht, hu⟩ := Bool.and_eq_true_iff.1 h
      rw [ih, openAfter_of_text (by rw [beq_iff_eq.1 ht]; decide),
        openAfter_of_text (by rw [beq_iff_eq.1 hu]; decide)]
  | case2 | case3 => rfl

section

variable (hb : b.isSymbol ")" = true)

include hb

theorem endsType_of_closing (us : List Token) : Grammar.EndsType (b :: us) := by
  rintro t ht
  cases ht
  exact ⟨not_isCastWord_of_isSymbol hb, not_isSymbol_of_ne hb (by decide)⟩

theorem dropBrackets_append (ts us : List Token) :
    dropBrackets (ts ++ b :: us) = dropBrackets ts ++ b :: us := by
  have htext := text_of_isSymbol hb
  fun_induction dropBrackets ts with
  | case1 t u ts h ih =>
      rw [List.cons_append, List.cons_append, dropBrackets, if_pos h]
      exact ih
  | case2 t u ts h =>
      rw [List.cons_append, List.cons_append, dropBrackets, if_neg h]
  | case3 ts h =>
      rcases ts with _ | ⟨t, _ | ⟨u, ts⟩⟩
      · cases us with
        | nil => rfl
        | cons u us => rw [List.nil_append, dropBrackets, htext, if_neg (by simp)]
      · rw [List.singleton_append, dropBrackets, htext, if_neg (by simp)]
      · exact absurd rfl (h t u ts)

theorem dropCastType_append (hopen : openAfter n ts = some 0) (us : List Token) :
    dropCastType (ts ++ b :: us) = dropCastType ts ++ b :: us ∧
      openAfter n (dropCastType ts) = some 0 := by
  rw [dropCastType_eq, dropCastType_eq]
  cases ts with
  | nil =>
      have hname : headIs isName (b :: us) = false := not_isName_of_isSymbol hb
      rw [List.nil_append, hname]
      exact ⟨rfl, hopen⟩
  | cons t ts =>
      have hname : headIs isName (t :: ts ++ b :: us) = headIs isName (t :: ts) := rfl
      obtain ⟨happend, hrest⟩ := Grammar.afterCastType_append (endsType_of_closing hb us) hopen
        (List.cons_ne_nil t ts)
      rw [hname, happend]
      split
      · exact ⟨dropBrackets_append hb _ us, (openAfter_dropBrackets n _).trans hrest⟩
      · exact ⟨rfl, hopen⟩

/-- No cast goes beyond the parenthesis that closes what it stands in. -/
theorem dropCasts_append_closing (hopen : openAfter n ts = some 0) (us : List Token) :
    dropCasts (ts ++ b :: us) = dropCasts ts ++ b :: dropCasts us := by
  fun_induction dropCasts ts generalizing n with
  | case1 =>
      rw [List.nil_append, List.nil_append, dropCasts, if_neg]
      rw [not_isSymbol_of_ne hb (by decide)]
      exact Bool.false_ne_true
  | case2 t ts ht ih =>
      rw [openAfter_of_text (by rw [text_of_isSymbol ht]; decide)] at hopen
      obtain ⟨happend, hrest⟩ := dropCastType_append hb hopen us
      rw [List.cons_append, dropCasts, if_pos ht, happend]
      exact ih hrest
  | case3 t ts ht ih =>
      rw [openAfter] at hopen
      rw [List.cons_append, dropCasts, if_neg ht]
      split at hopen
      · split at hopen
        · cases hopen
        · exact congrArg (t :: ·) (ih hopen)
      · exact congrArg (t :: ·) (ih hopen)

end

theorem IsOperand.dropCasts_append (h : IsOperand ts) (us : List Token) :
    dropCasts (ts ++ us) = dropCasts ts ++ dropCasts us := by
  cases h with
  | @single t ht =>
      have hcast : ¬ t.isSymbol "::" = true := fun hcast =>
        ht (beq_iff_eq.1 (Bool.and_eq_true_iff.1 hcast).1)
      rw [List.singleton_append, dropCasts, if_neg hcast, dropCasts, if_neg hcast, dropCasts]
      rfl
  | @group a b ts ha hts hb =>
      have hcast : ¬ a.isSymbol "::" = true := by
        rw [not_isSymbol_of_ne ha (by decide)]
        exact Bool.false_ne_true
      have hnil : dropCasts [] = [] := by rw [dropCasts]
      rw [List.cons_append, List.append_assoc, List.singleton_append, dropCasts, if_neg hcast,
        dropCasts, if_neg hcast, dropCasts_append_closing hb hts, dropCasts_append_closing hb hts,
        hnil, List.cons_append, List.append_assoc, List.singleton_append]

def castSign : Token := ⟨.symbol, [], "::".toList⟩

theorem dropCasts_cast (hts : IsOperand ts) (hus : IsType [] us) :
    dropCasts (ts ++ castSign :: us) = dropCasts ts := by
  have hnil : dropCasts [] = [] := by rw [dropCasts]
  have hsign : castSign.isSymbol "::" = true := rfl
  rw [hts.dropCasts_append, dropCasts, if_pos hsign, hus.dropCastType_eq, hnil, List.append_nil]

section

variable {d : Dialect} {e s : List Char}

theorem IsOperand.endsNoCast (h : IsOperand ts) : EndsNoCast ts := by
  intro t ht
  cases h with
  | @single u hu =>
      cases ht
      exact isSymbol_of_kind_ne (t := u) hu ":"
  | group _ _ hb =>
      rw [List.map_cons, List.map_append, ← List.cons_append, List.map_singleton,
        List.getLast?_concat] at ht
      cases ht
      exact not_isSymbol_of_ne hb (by decide)

theorem head_castSign (last : Option Char) (cs : List Char) :
    head d last ':' (':' :: cs) = (some .symbol, 1) := rfl

/-- An operand, the sign and the type are lexed one after the other. -/
theorem spells_cast (he : closedFrom d none e = true) (hs : closedFrom d none s = true)
    (hoperand : EndsNoCast (lex d e)) :
    Spells d (e ++ ':' :: ':' :: s) (lex d e ++ castSign :: lex d s) := by
  intro last gap b t hlast hb ht
  have hsign : (lexFrom d none [] (':' :: ':' :: (s ++ t))).1.map ungapped =
      castSign :: (lexFrom d (some ':') [] (s ++ t)).1.map ungapped := by
    rw [lexFrom, head_castSign]
    rfl
  rw [List.append_assoc, List.cons_append, List.cons_append, lexFrom_congr_last hlast,
    map_ungapped_lexFrom_append he (by decide) (.cons _) (fun _ => hoperand), hsign,
    spells_of_closedFrom hs (some ':') [] b t (by decide) hb ht, List.map_append,
    List.append_assoc]
  rfl

end

end Token

namespace Grammar

variable {d : Dialect} {late : List (List String)} {t : Token} {ts us : List Token}

section

variable {stops : List String}

theorem dropUntil_operand (h : Token.IsOperand ts)
    (hstop : ∀ t, ts = [t] → stops.any t.isKeyword = false) (us : List Token) :
    dropUntil stops (ts ++ us) = dropUntil stops us := by
  cases h with
  | @single t ht =>
      have hsymbol := Token.isSymbol_of_kind_ne ht
      rw [List.singleton_append, dropUntil, hsymbol, hsymbol, hsymbol, hstop t rfl]
      rfl
  | @group a b ts ha hts hb =>
      rw [List.cons_append, List.append_assoc, List.singleton_append, dropUntil, if_pos ha,
        Token.groupFrom_append hts, Token.groupFrom, if_pos hb, if_pos (Nat.le_refl 1)]

theorem dropUntil_phrase {ks : List String} {ws : List Token}
    (hks : ∀ k ∈ ks, ∀ s ∈ stops, Text.asciiUpper k.toList ≠ Text.asciiUpper s.toList)
    (hws : List.Forall₂ (fun k t => t.isKeyword k = true) ks ws) (us : List Token) :
    dropUntil stops (ws ++ us) = dropUntil stops us := by
  induction hws with
  | nil => rfl
  | @cons k t ks ws ht _ ih =>
      obtain ⟨hk, hks⟩ := List.forall_mem_cons.1 hks
      have hname := Token.isName_of_isWord (Token.isWord_of_isKeyword ht)
      have hstop : stops.any t.isKeyword = false :=
        List.any_eq_false.2 fun s hs => by simp [Token.not_isKeyword_of_ne ht (hk s hs)]
      rw [List.cons_append, dropUntil, Token.isSymbol_of_isName hname,
        Token.isSymbol_of_isName hname, Token.isSymbol_of_isName hname, hstop]
      exact ih hks

theorem dropUntil_bracket {s : String} (ht : t.isSymbol s = true) (hs : s ∈ ["[", "]"])
    (us : List Token) : dropUntil stops (t :: us) = dropUntil stops us := by
  have hne : ∀ s ∈ ["[", "]"], ∀ s' ∈ ["(", "::", ","], s.toList ≠ s'.toList := by decide
  have hsymbol (s' : String) (hs' : s' ∈ ["(", "::", ","]) : t.isSymbol s' = false :=
    Token.not_isSymbol_of_ne ht (hne s hs s' hs')
  have hstop : stops.any t.isKeyword = false :=
    List.any_eq_false.2 fun k _ => by simp [Token.isKeyword_of_isSymbol ht]
  rw [dropUntil, hsymbol "(" (by decide), hsymbol "::" (by decide), hsymbol "," (by decide), hstop]
  rfl

theorem dropUntil_isTail
    (hlate : ∀ ks ∈ late, ∀ k ∈ ks, ∀ s ∈ stops,
      Text.asciiUpper k.toList ≠ Text.asciiUpper s.toList)
    (h : Token.IsTail late ts) (us : List Token) :
    dropUntil stops (ts ++ us) = dropUntil stops us := by
  induction h with
  | nil => rfl
  | phrase hks hws _ ih => rw [List.append_assoc, dropUntil_phrase (hlate _ hks) hws, ih]
  | brackets ha hb _ ih =>
      rw [List.cons_append, List.cons_append, dropUntil_bracket ha (by decide),
        dropUntil_bracket hb (by decide), ih]

end

def quietPhrases : List (List String) :=
  Token.typePhrases.filter fun ks => ks.all fun k => !columnClauseWords.contains k

/-- The search stops where the cast ends. -/
theorem dropUntil_cast (hts : Token.IsOperand ts)
    (hstop : ∀ t, ts = [t] → columnClauseWords.any t.isKeyword = false)
    (hus : Token.IsType quietPhrases us) {rest : List Token} (hrest : StartsClause rest) :
    dropUntil columnClauseWords (ts ++ Token.castSign :: us ++ rest) = rest := by
  have hlate : ∀ ks ∈ quietPhrases, ks ∈ Token.typePhrases :=
    fun _ hks => (List.mem_filter.1 hks).1
  have hquiet : ∀ ks ∈ quietPhrases, ∀ k ∈ ks, ∀ s ∈ columnClauseWords,
      Text.asciiUpper k.toList ≠ Text.asciiUpper s.toList := by
    decide
  have hopening : Token.castSign.isSymbol "(" = false := rfl
  have hsign : Token.castSign.isSymbol "::" = true := rfl
  obtain ⟨vs, hvs, hafter⟩ := hus.exists_afterCastType hlate hrest.endsType
  rw [List.append_assoc, List.cons_append, dropUntil_operand hts hstop, dropUntil,
    if_neg (by rw [hopening]; exact Bool.false_ne_true), if_pos hsign, hafter,
    dropUntil_isTail hquiet hvs, dropUntil_of_startsClause hrest]

/-- The search stops at the same token, whatever is skipped before the tokens. -/
theorem exists_of_dropUntil {stops : List String} {tokens : List Token}
    (h : tokens.map Token.ungapped = (ts ++ us).map Token.ungapped)
    (hdrop : dropUntil stops (ts ++ us) = us) :
    ∃ taken rest, tokens = taken ++ rest ∧ taken.map Token.ungapped = ts.map Token.ungapped ∧
      rest.map Token.ungapped = us.map Token.ungapped ∧
      sourceUntil stops d tokens = .ok (some (Token.span taken), rest) := by
  have hlength : (dropUntil stops tokens).length = us.length := by
    have hfolded := dropUntil_map_folded stops tokens
    rw [Token.map_folded_of_ungapped h, dropUntil_map_folded, hdrop] at hfolded
    have := congrArg List.length hfolded
    rwa [List.length_map, List.length_map, eq_comm] at this
  rw [List.map_append] at h
  obtain ⟨taken, rest, rfl, htaken, hrest⟩ := List.map_eq_append_iff.1 h
  have hlengths := congrArg List.length hrest
  rw [List.length_map, List.length_map] at hlengths
  have hsuffix := List.suffix_of_suffix_length_le (dropUntil_suffix stops (taken ++ rest))
    (List.suffix_append taken rest) (by rw [hlength, hlengths])
  have hdropped := hsuffix.eq_of_length (by rw [hlength, hlengths])
  refine ⟨taken, rest, rfl, htaken, hrest, ?_⟩
  rw [sourceUntil_eq, hdropped, List.length_append, Nat.add_sub_cancel, List.take_left]

section

variable {e s : List Char} (he : Token.closedFrom .postgres none e = true)
  (hs : Token.closedFrom .postgres none s = true)
  (hoperand : Token.IsOperand (Token.lex .postgres e))

include he hs hoperand

theorem canonicalExpr_cast (htype : Token.IsType [] (Token.lex .postgres s)) :
    canonicalExpr .postgres (e ++ ':' :: ':' :: s) = canonicalExpr .postgres e := by
  have htokens := (Token.spells_cast he hs hoperand.endsNoCast).map_ungapped_lex
  rw [canonicalExpr, canonicalExpr, Token.canonicalExpr, Token.canonicalExpr,
    Token.render_operands_congr (Token.map_folded_of_ungapped htokens),
    Token.dropCasts_cast hoperand htype]

theorem exists_sourceUntil_cast (htype : Token.IsType quietPhrases (Token.lex .postgres s))
    (hstop : ∀ t, Token.lex .postgres e = [t] → columnClauseWords.any t.isKeyword = false)
    {u : List Char} (hu : atKeyword "NOT" (Token.lex .postgres u) = true) :
    ∃ taken rest, Token.lex .postgres (e ++ ':' :: ':' :: (s ++ ' ' :: u)) = taken ++ rest ∧
      taken.map Token.ungapped =
        (Token.lex .postgres (e ++ ':' :: ':' :: s)).map Token.ungapped ∧
      rest.map Token.ungapped = (Token.lex .postgres u).map Token.ungapped ∧
      sourceUntil columnClauseWords .postgres (taken ++ rest) =
        .ok (some (Token.span taken), rest) := by
  have hspells := Token.spells_cast he hs hoperand.endsNoCast
  have hstart : StartsClause (Token.lex .postgres u) := by
    intro t ht
    rw [atKeyword, headIs, ht] at hu
    exact .inr hu
  have htokens := hspells.map_ungapped_lex_blank u
  obtain ⟨taken, rest, hsplit, htaken, hrest, hsource⟩ :=
    exists_of_dropUntil htokens (dropUntil_cast hoperand hstop htype hstart)
  refine ⟨taken, rest, ?_, ?_, hrest, hsplit ▸ hsource⟩
  · rw [← hsplit, List.append_assoc, List.cons_append, List.cons_append]
  · rw [htaken, hspells.map_ungapped_lex]

/-- A cast of a single operand is dropped whole, up to phrases that stand behind the parameters or
the brackets of its type. The search for the next clause passes over those that hold no word of a
clause, and over every operand that is no such word itself. -/
theorem cast_dropped_whole (htype : Token.IsType Token.typePhrases (Token.lex .postgres s)) :
    (∃ p, typeName .postgres (Token.lex .postgres s) = .ok (some p, [])) ∧
      (Token.IsType [] (Token.lex .postgres s) →
        canonicalExpr .postgres (e ++ ':' :: ':' :: s) = canonicalExpr .postgres e) ∧
      (Token.IsType quietPhrases (Token.lex .postgres s) →
        (∀ t, Token.lex .postgres e = [t] → columnClauseWords.any t.isKeyword = false) →
        ∀ u, atKeyword "NOT" (Token.lex .postgres u) = true →
          ∃ taken rest, Token.lex .postgres (e ++ ':' :: ':' :: (s ++ ' ' :: u)) = taken ++ rest ∧
            taken.map Token.ungapped =
              (Token.lex .postgres (e ++ ':' :: ':' :: s)).map Token.ungapped ∧
            rest.map Token.ungapped = (Token.lex .postgres u).map Token.ungapped ∧
            sourceUntil columnClauseWords .postgres (taken ++ rest) =
              .ok (some (Token.span taken), rest)) :=
  ⟨exists_typeName (fun _ hks => hks) htype, canonicalExpr_cast he hs hoperand,
    fun hquiet hstop _ hu => exists_sourceUntil_cast he hs hoperand hquiet hstop hu⟩

end

def castOperand : List Char := "'a'".toList

def wholeType : List Char := "character varying(3)[]".toList

def latePhrase : List Char := "timestamp(3) without time zone".toList

theorem lex_castOperand : Token.lex .postgres castOperand = [⟨.string, [], castOperand⟩] := by
  decide +kernel

theorem isOperand_castOperand : Token.IsOperand (Token.lex .postgres castOperand) := by
  rw [lex_castOperand]
  exact .single (by decide)

theorem isType_wholeType (late : List (List String)) :
    Token.IsType late (Token.lex .postgres wholeType) := by
  have hlex : Token.lex .postgres wholeType =
      Token.bareWord "character" :: ([⟨.word, [' '], "varying".toList⟩] ++
        Token.sign '(' :: ([⟨.number, [], ['3']⟩] ++ Token.sign ')' ::
          [Token.sign '[', Token.sign ']'])) := by
    decide +kernel
  have hphrase : List.Forall₂ (fun k (t : Token) => t.isKeyword k = true) ["VARYING"]
      [⟨.word, [' '], "varying".toList⟩] :=
    .cons (by decide) .nil
  rw [hlex]
  exact .name (by decide) (.phrase (by decide) hphrase
    (.params (by decide) (by decide) (by decide) (.brackets (by decide) (by decide) .nil)))

theorem cast_dropped_whole_varying :
    (∃ p, typeName .postgres (Token.lex .postgres wholeType) = .ok (some p, [])) ∧
      canonicalExpr .postgres (castOperand ++ ':' :: ':' :: wholeType) =
        canonicalExpr .postgres castOperand ∧
      ∃ taken rest, Token.lex .postgres (castOperand ++ ':' :: ':' ::
          (wholeType ++ ' ' :: "NOT NULL".toList)) = taken ++ rest ∧
        taken.map Token.ungapped =
          (Token.lex .postgres (castOperand ++ ':' :: ':' :: wholeType)).map Token.ungapped ∧
        rest.map Token.ungapped = (Token.lex .postgres "NOT NULL".toList).map Token.ungapped ∧
        sourceUntil columnClauseWords .postgres (taken ++ rest) =
          .ok (some (Token.span taken), rest) := by
  obtain ⟨htype, hcanonical, hsource⟩ := cast_dropped_whole (by decide +kernel) (by decide +kernel)
    isOperand_castOperand (isType_wholeType Token.typePhrases)
  refine ⟨htype, hcanonical (isType_wholeType []), hsource (isType_wholeType quietPhrases) ?_ _
    (by decide +kernel)⟩
  intro t ht
  cases lex_castOperand.symm.trans ht
  decide

/-- The words behind the parameters of a type are left, and with them the end of a default. -/
theorem late_phrase_left :
    Token.IsOperand (Token.lex .postgres castOperand) ∧
      (∃ p, typeName .postgres (Token.lex .postgres latePhrase) = .ok (some p, [])) ∧
      canonicalExpr .postgres (castOperand ++ ':' :: ':' :: latePhrase) =
        "'a' without time zone" ∧
      canonicalExpr .postgres castOperand = "'a'" ∧
      atKeyword "WITH" (dropUntil columnClauseWords
        (Token.lex .postgres "'a'::timestamp(3) with time zone NOT NULL".toList)) = true := by
  have htype : typeName .postgres (Token.lex .postgres latePhrase) =
      .ok (some ⟨⟨.timestamp, ["3"], String.ofList latePhrase⟩, false⟩, []) := by
    decide +kernel
  exact ⟨isOperand_castOperand, ⟨_, htype⟩, by decide +kernel, by decide +kernel,
    by decide +kernel⟩

end Grammar

end SchemaDrift
