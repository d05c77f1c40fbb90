import SchemaDrift.Proofs.Gaps
import SchemaDrift.Proofs.TypeExtents

namespace SchemaDrift

open Reader

namespace Grammar

variable {d : Dialect} {us : List Token} {words : List String} {r q : TypeDraft}

def modifierPhrases : List (List String) :=
  [["UNSIGNED"], ["SIGNED"], ["ZEROFILL"], ["FOR", "BIT", "DATA"], ["FOR", "SBCS", "DATA"],
    ["FOR", "MIXED", "DATA"]]

/-- Tokens that are pairs of brackets and modifiers, and the words that they add to the type in
front of them. Brackets that quote a name end the type, and nothing behind them counts. -/
inductive IsSuffix : List Token → List String → Prop
  | nil : IsSuffix [] []
  | modifier {ks : List String} {ws ts : List Token} {words : List String}
      (hks : ks ∈ modifierPhrases) (hws : List.Forall₂ (fun k t => t.isKeyword k = true) ks ws)
      (h : IsSuffix ts words) : IsSuffix (ws ++ ts) (String.intercalate " " ks :: words)
  | brackets {a b : Token} {ts : List Token} {words : List String} (ha : a.isSymbol "[" = true)
      (hb : b.isSymbol "]" = true) (h : IsSuffix ts words) :
      IsSuffix (a :: b :: ts) ("[]" :: words)
  | quoted {t : Token} (ht : t.kind = .quoted) (hbracket : t.text.head? = some '[')
      (ts : List Token) : IsSuffix (t :: ts) []

theorem mem_continuations_of_modifierPhrases {ks : List String} (hks : ks ∈ modifierPhrases) :
    ks ∈ continuations := by
  have hall : ∀ ks ∈ modifierPhrases, ks ∈ continuations := by decide
  exact hall ks hks

theorem exists_head_of_modifier {ks : List String} (hks : ks ∈ modifierPhrases) {ws : List Token}
    (hws : List.Forall₂ (fun k t => t.isKeyword k = true) ks ws) :
    ∃ k ∈ ["UNSIGNED", "SIGNED", "ZEROFILL", "FOR"], ∃ t vs, t.isKeyword k = true ∧
      ws = t :: vs := by
  have hhead : ∀ ks ∈ modifierPhrases, ∃ k ∈ ks.head?,
      k ∈ ["UNSIGNED", "SIGNED", "ZEROFILL", "FOR"] := by
    decide
  obtain ⟨k, hk, hmem⟩ := hhead ks hks
  cases hws with
  | nil => cases hk
  | cons ht _ =>
      cases hk
      exact ⟨k, hmem, _, _, ht, rfl⟩

theorem not_isWord_of_quoted {t : Token} (ht : t.kind = .quoted) : t.isWord = false := by
  rw [Token.isWord, ht]
  rfl

theorem startsAnew_of_not_isWord {t : Token} (ht : t.isWord = false) (htext : t.text ≠ [']'])
    (ts : List Token) : StartsAnew (t :: ts) := by
  intro u hu
  cases hu
  refine ⟨fun _ _ k _ => by rw [Token.isKeyword, ht, Bool.false_and], htext, fun hword => ?_⟩
  rw [ht] at hword
  cases hword

/-- No word that begins a modifier is the second word of anything. -/
theorem startsAnew_of_isKeyword {k : String} (hk : k ∈ ["UNSIGNED", "SIGNED", "ZEROFILL", "FOR"])
    {t : Token} (ht : t.isKeyword k = true) (ts : List Token) : StartsAnew (t :: ts) := by
  have hfirst : ∀ k ∈ ["UNSIGNED", "SIGNED", "ZEROFILL", "FOR"],
      (∀ ks ∈ continuations, ∀ k' ∈ ks.tail,
        Text.asciiUpper k.toList ≠ Text.asciiUpper k'.toList) ∧
      Text.asciiUpper [']'] ≠ Text.asciiUpper k.toList ∧
      ∀ p ∈ leadingContinuations, p.2 ≠ String.ofList (Text.upper k.toList) := by
    decide +kernel
  obtain ⟨htails, hclosing, hleading⟩ := hfirst k hk
  intro u hu
  cases hu
  refine ⟨fun ks hks k' hk' => Token.not_isKeyword_of_ne ht (htails ks hks k' hk'), ?_, ?_⟩
  · intro htext
    rw [← htext] at hclosing
    exact hclosing (beq_iff_eq.1 (Bool.and_eq_true_iff.1 ht).2)
  · intro hword word
    have hupper := upperWord?_of_isKeyword ht ts
    rw [upperWord?, if_pos hword, Option.some.injEq] at hupper
    rw [hupper, List.contains_eq_mem, decide_eq_false_iff_not]
    exact fun hmem => hleading _ hmem rfl

namespace IsSuffix

theorem regap (h : IsSuffix us words) (gap : List Char) : IsSuffix (Token.regap gap us) words := by
  cases h with
  | nil => exact nil
  | modifier hks hws h =>
      obtain ⟨k, -, t, vs, ht, rfl⟩ := exists_head_of_modifier hks hws
      cases hws with
      | @cons _ _ _ _ ht hws =>
          have ht' : ({ t with gap := gap ++ t.gap } : Token).isKeyword _ = true := ht
          exact modifier hks (.cons ht' hws) h
  | @brackets a _ _ _ ha hb h =>
      have ha' : ({ a with gap := gap ++ a.gap } : Token).isSymbol "[" = true := ha
      exact brackets ha' hb h
  | @quoted t ht hbracket ts =>
      have ht' : ({ t with gap := gap ++ t.gap } : Token).kind = .quoted := ht
      exact quoted ht' hbracket ts

theorem mem_words (h : IsSuffix us words) : ∀ w ∈ words, w ∈ typeModifiers ∨ w = "[]" := by
  induction h with
  | nil | quoted => exact fun w hw => by cases hw
  | modifier hks _ _ ih =>
      have hname : ∀ ks ∈ modifierPhrases, String.intercalate " " ks ∈ typeModifiers := by
        decide +kernel
      exact List.forall_mem_cons.2 ⟨.inl (hname _ hks), ih⟩
  | brackets _ _ _ ih => exact List.forall_mem_cons.2 ⟨.inr rfl, ih⟩

/-- What stands behind a type goes on with nothing in it. -/
theorem startsAnew (h : IsSuffix us words) : StartsAnew us := by
  cases h with
  | nil => exact startsClause_nil.startsAnew
  | modifier hks hws h =>
      obtain ⟨k, hk, t, vs, ht, rfl⟩ := exists_head_of_modifier hks hws
      exact startsAnew_of_isKeyword hk ht _
  | brackets ha hb h =>
      refine startsAnew_of_not_isWord (Token.not_isWord_of_isSymbol ha) ?_ _
      rw [Token.text_of_isSymbol ha]
      decide
  | @quoted t ht hbracket ts =>
      refine startsAnew_of_not_isWord (not_isWord_of_quoted ht) ?_ ts
      intro htext
      rw [htext] at hbracket
      cases hbracket

/-- A type takes what stands behind it word by word. -/
theorem exists_iterate (h : IsSuffix us words) (r : TypeDraft) :
    ∃ rest, iterate typeStep r d us = .ok (some { r with words := r.words ++ words }, rest) := by
  induction h generalizing r with
  | nil =>
      rw [List.append_nil]
      exact ⟨[], startsClause_nil.iterate_typeStep r⟩
  | modifier hks hws _ ih =>
      rw [iterate_phrase (mem_continuations_of_modifierPhrases hks) hws]
      simpa using ih { r with words := r.words ++ [_] }
  | brackets ha hb _ ih =>
      rw [iterate_brackets ha hb]
      simpa using ih { r with words := r.words ++ ["[]"] }
  | @quoted t ht hbracket ts =>
      have hat (s : String) : atSymbol s (t :: ts) = false :=
        Token.isSymbol_of_kind_ne (by rw [ht]; decide) s
      have hstop : typeStep r d (t :: ts) = .ok (some none, t :: ts) := by
        rw [typeStep_eq, find?_continuations_of_not_isWord (not_isWord_of_quoted ht), hat, hat,
          Bool.and_false, Bool.false_and]
        rfl
      rw [List.append_nil]
      exact ⟨t :: ts, iterate_of_stop hstop⟩

end IsSuffix

theorem closeBrackets_append (x y : List Char) :
    closeBrackets (x ++ ' ' :: '[' :: ']' :: y) =
      closeBrackets x ++ '[' :: ']' :: closeBrackets y := by
  fun_induction closeBrackets x with
  | case1 cs ih =>
      rw [List.cons_append, List.cons_append, List.cons_append, closeBrackets, ih]
      rfl
  | case2 c cs h ih =>
      rw [List.cons_append, closeBrackets, ih]
      · rfl
      · intro us hc hus
        rcases cs with _ | ⟨e, _ | ⟨e', cs⟩⟩
        · cases hus
        · cases hus
        · cases hus
          exact h cs hc rfl
  | case3 => simp [closeBrackets]

theorem intercalate_concat (s x y : List Char) (xs : List (List Char)) :
    s.intercalate (x :: xs ++ [y]) = s.intercalate (x :: xs) ++ s ++ y := by
  induction xs generalizing x with
  | nil =>
      rw [List.singleton_append, List.intercalate_cons_cons, List.intercalate_singleton,
        List.intercalate_singleton]
  | cons x' xs ih =>
      rw [List.cons_append, List.cons_append, List.intercalate_cons_cons, ← List.cons_append, ih,
        List.intercalate_cons_cons]
      simp only [List.append_assoc]

theorem joinTypeWords_concat (ws : List String) :
    joinTypeWords (ws ++ ["[]"]) = joinTypeWords ws ++ "[]" := by
  cases ws with
  | nil => decide +kernel
  | cons w ws =>
      have hlist : (String.intercalate " " (w :: ws ++ ["[]"])).toList =
          (String.intercalate " " (w :: ws)).toList ++ ' ' :: '[' :: ']' :: [] := by
        rw [String.toList_intercalate, List.map_append, List.map_cons, List.map_singleton,
          intercalate_concat, String.toList_intercalate, List.append_assoc]
        rfl
      rw [joinTypeWords, joinTypeWords, hlist, closeBrackets_append, String.ofList_append]
      rfl

theorem joinTypeWords_append (ws : List String) {vs : List String} (hvs : ∀ v ∈ vs, v = "[]") :
    joinTypeWords (ws ++ vs) = joinTypeWords ws ++ String.join vs := by
  induction vs generalizing ws with
  | nil => simp
  | cons v vs ih =>
      obtain ⟨rfl, hrest⟩ := List.forall_mem_cons.1 hvs
      rw [List.append_cons, ih _ hrest, joinTypeWords_concat, String.join_cons, String.append_assoc]

theorem getLast?_join {vs : List String} (hvs : ∀ v ∈ vs, v = "[]") (hne : vs ≠ []) (x : String) :
    (x ++ String.join vs).toList.getLast? = some ']' := by
  obtain ⟨vs, v, rfl⟩ := List.eq_nil_or_concat' vs |>.resolve_left hne
  obtain rfl := hvs v (by simp)
  simp [String.toList_join]

/-- No family has a name with brackets. -/
theorem familyOf_of_getLast? {name : String} (h : name.toList.getLast? = some ']') :
    familyOf name = .other name := by
  have hnames : ∀ f ∈ familyNames, ∀ n ∈ f.2, n.toList.getLast? ≠ some ']' := by
    decide +kernel
  have hfind : familyNames.find? (fun f => f.2.contains name) = none := by
    rw [List.find?_eq_none]
    intro f hf hname
    exact hnames f hf name (by simpa using hname) h
  rw [familyOf, hfind]

def nameWords (words : List String) : List String :=
  words.filter (fun w => !typeModifiers.contains w)

def TypeDraft.base (t : TypeDraft) : String := joinTypeWords (nameWords t.words)

theorem finish_dataType (t : TypeDraft) (source : List Char) : (t.finish source).dataType =
    ⟨familyOf t.base, t.params ++ t.words.filter typeModifiers.contains, String.ofList source⟩ :=
  rfl

@[mk_iff]
structure IsSpelling (d : Dialect) (s : String) (r : TypeDraft) : Prop where
  closed : Token.closedFrom d none s.toList = true
  parens : Token.openAfter 0 (Token.lex d s.toList) = some 0
  reads : typeWords d (Token.lex d s.toList) = .ok (some r, [])

deriving instance DecidableEq for TypeDraft

instance (s : String) (r : TypeDraft) : Decidable (IsSpelling d s r) :=
  decidable_of_iff' _ (isSpelling_iff d s r)

theorem typeOfText_of_typeWords {s : String} {rest : List Token}
    (h : typeWords d (Token.lex d s.toList) = .ok (some r, rest)) :
    ∃ source, typeOfText d s = .ok (r.finish source).dataType := by
  have hsource : ∃ source, withSource typeWords d (Token.lex d s.toList) =
      .ok (some (r, source), rest) := by
    rw [withSource, h]
    exact ⟨_, rfl⟩
  obtain ⟨source, hsource⟩ := hsource
  have hname : typeName d (Token.lex d s.toList) = .ok (some (r.finish source), rest) := by
    unfold typeName
    rw [bind_of_eq hsource]
    rfl
  refine ⟨source, ?_⟩
  rw [typeOfText, run?, hname]
  rfl

/-- What follows is no part of the last word: it begins with a blank or a bracket, or a parenthesis
closes before it. -/
def StandsApart (d : Dialect) (s u : List Char) : Prop :=
  (∀ c ∈ u.head?, Text.isBlank c = true ∨ c = '[') ∨
    ∃ s', s = s' ++ [')'] ∧ Token.closedFrom d none s' = true

theorem StandsApart.exists_lex_append {s u : List Char} (h : StandsApart d s u)
    (hs : Token.closedFrom d none s = true) :
    ∃ gap, Token.lex d (s ++ u) = Token.lex d s ++ Token.regap gap (Token.lex d u) := by
  rcases h with hhead | ⟨s', rfl, hs'⟩
  · refine Token.lex_append_of_closed hs fun c hc => ?_
    rcases hhead c hc with hblank | rfl
    · have hbreak : Text.isBreak c = true := by
        rw [Text.isBreak, hblank]
        rfl
      refine ⟨Token.mem_seams_of_isBreak hbreak, ?_⟩
      rintro rfl
      cases hblank
    · decide
  · refine ⟨[], ?_⟩
    rw [Token.regap_nil, List.append_assoc, List.singleton_append, Token.lex_append_closing hs']

/-- The words and parameters of a spelling stay as they are, and those of the suffix come behind
them. -/
theorem IsSpelling.typeOfText_append {s u : String} (hs : IsSpelling d s r)
    (hu : IsSuffix (Token.lex d u.toList) words) (hsu : StandsApart d s.toList u.toList) :
    ∃ source, typeOfText d (s ++ u) =
      .ok ({ r with words := r.words ++ words }.finish source).dataType := by
  obtain ⟨gap, hlex⟩ := hsu.exists_lex_append hs.closed
  have hsuffix := hu.regap gap
  obtain ⟨rest, hrest⟩ := hsuffix.exists_iterate (d := d) r
  have hwords : typeWords d (Token.lex d (s ++ u).toList) =
      .ok (some { r with words := r.words ++ words }, rest) := by
    rw [String.toList_append, hlex, typeWords_append hsuffix.startsAnew hs.parens hs.reads,
      if_pos rfl, hrest]
  exact typeOfText_of_typeWords hwords

section

variable (hu : IsSuffix us words)

include hu

theorem IsSuffix.eq_brackets : ∀ w ∈ nameWords words, w = "[]" := by
  intro w hw
  obtain ⟨hw, hother⟩ := List.mem_filter.1 hw
  exact (hu.mem_words w hw).resolve_left (by simpa using hother)

/-- What a suffix adds to the name of the family. -/
theorem IsSuffix.base_append (r : TypeDraft) :
    ({ r with words := r.words ++ words } : TypeDraft).base =
      r.base ++ String.join (nameWords words) := by
  have happend : nameWords (r.words ++ words) = nameWords r.words ++ nameWords words :=
    List.filter_append ..
  rw [TypeDraft.base, happend, joinTypeWords_append _ hu.eq_brackets, TypeDraft.base]

/-- Brackets hide the family, so that the names in front of them have to be the same. -/
theorem IsSuffix.familyOf_append_eq_iff {x y : String} (h : familyOf x = familyOf y) :
    familyOf (x ++ String.join (nameWords words)) =
        familyOf (y ++ String.join (nameWords words)) ↔ ("[]" ∈ words → x = y) := by
  have hbrackets := hu.eq_brackets
  by_cases hmem : "[]" ∈ words
  · have hne : nameWords words ≠ [] :=
      List.ne_nil_of_mem (List.mem_filter.2 ⟨hmem, by decide⟩)
    rw [familyOf_of_getLast? (getLast?_join hbrackets hne x),
      familyOf_of_getLast? (getLast?_join hbrackets hne y), TypeFamily.other.injEq,
      String.append_left_inj]
    exact ⟨fun heq _ => heq, fun heq => heq hmem⟩
  · have hnil : nameWords words = [] := by
      rw [List.eq_nil_iff_forall_not_mem]
      intro w hw
      exact hmem (hbrackets w hw ▸ List.mem_of_mem_filter hw)
    rw [hnil, String.join_nil, String.append_empty, String.append_empty]
    exact iff_of_true h (fun hin => absurd hin hmem)

end

/-- Two spellings of one type are one type with modifiers behind both. With brackets among what
stands behind them, they are if they name it by the same words. -/
theorem sameAs_typeOfText_append_iff {s t u : String} {a b : DataType} (hs : IsSpelling d s r)
    (ht : IsSpelling d t q) (ha : typeOfText d s = .ok a) (hb : typeOfText d t = .ok b)
    (hsame : a.sameAs b = true) (hu : IsSuffix (Token.lex d u.toList) words)
    (hsu : StandsApart d s.toList u.toList) (htu : StandsApart d t.toList u.toList) :
    ∃ a' b', typeOfText d (s ++ u) = .ok a' ∧ typeOfText d (t ++ u) = .ok b' ∧
      (a'.sameAs b' = true ↔ ("[]" ∈ words → r.base = q.base)) := by
  obtain ⟨source, hr⟩ := typeOfText_of_typeWords hs.reads
  obtain ⟨source', hq⟩ := typeOfText_of_typeWords ht.reads
  obtain rfl := Except.ok.inj (ha.symm.trans hr)
  obtain rfl := Except.ok.inj (hb.symm.trans hq)
  rw [DataType.sameAs_iff, finish_dataType, finish_dataType] at hsame
  obtain ⟨hfamily, hparams⟩ := hsame
  obtain ⟨source, hru⟩ := hs.typeOfText_append hu hsu
  obtain ⟨source', hqu⟩ := ht.typeOfText_append hu htu
  refine ⟨_, _, hru, hqu, ?_⟩
  rw [DataType.sameAs_iff, finish_dataType, finish_dataType, hu.base_append, hu.base_append]
  dsimp only at hfamily hparams ⊢
  rw [hu.familyOf_append_eq_iff hfamily, List.filter_append, List.filter_append,
    ← List.append_assoc, ← List.append_assoc, hparams]
  exact and_iff_left rfl

/-- Two names of one type with the same parameter. A modifier changes nothing between them, a pair
of brackets does. -/
theorem sameAs_typeOfText_append_iff_varchar :
    ∃ long short, IsSpelling .postgres "character varying (8)" long ∧
      IsSpelling .postgres "VARCHAR(8)" short ∧
      ∃ x y x' y', typeOfText .postgres "character varying (8) for bit data" = .ok x ∧
        typeOfText .postgres "VARCHAR(8) for bit data" = .ok y ∧ x.sameAs y = true ∧
        typeOfText .postgres "character varying (8)[] zerofill" = .ok x' ∧
        typeOfText .postgres "VARCHAR(8)[] zerofill" = .ok y' ∧ x'.sameAs y' = false := by
  have hlong : IsSpelling .postgres "character varying (8)" ⟨["CHARACTER", "VARYING"], ["8"]⟩ := by
    decide +kernel
  have hshort : IsSpelling .postgres "VARCHAR(8)" ⟨["VARCHAR"], ["8"]⟩ := by
    decide +kernel
  have ha : typeOfText .postgres "character varying (8)" =
      .ok ⟨.varchar, ["8"], "character varying (8)"⟩ := by
    decide +kernel
  have hb : typeOfText .postgres "VARCHAR(8)" = .ok ⟨.varchar, ["8"], "VARCHAR(8)"⟩ := by
    decide +kernel
  have hmodifier : IsSuffix (Token.lex .postgres " for bit data".toList) ["FOR BIT DATA"] := by
    have hlex : Token.lex .postgres " for bit data".toList =
        [⟨.word, [' '], "for".toList⟩, ⟨.word, [' '], "bit".toList⟩,
          ⟨.word, [' '], "data".toList⟩] ++ [] := by
      decide +kernel
    have hks : ["FOR", "BIT", "DATA"] ∈ modifierPhrases := by decide
    rw [hlex]
    exact .modifier hks (.cons rfl (.cons rfl (.cons rfl .nil))) .nil
  have hbrackets : IsSuffix (Token.lex .postgres "[] zerofill".toList) ["[]", "ZEROFILL"] := by
    have hlex : Token.lex .postgres "[] zerofill".toList =
        ⟨.symbol, [], "[".toList⟩ :: ⟨.symbol, [], "]".toList⟩ ::
          ([⟨.word, [' '], "zerofill".toList⟩] ++ []) := by
      decide +kernel
    have hks : ["ZEROFILL"] ∈ modifierPhrases := by decide
    rw [hlex]
    exact .brackets rfl rfl (.modifier hks (.cons rfl .nil) .nil)
  have hblank (s : List Char) : StandsApart .postgres s " for bit data".toList :=
    .inl fun c hc => .inl (Option.some.inj hc ▸ rfl)
  have hbracket (s : List Char) : StandsApart .postgres s "[] zerofill".toList :=
    .inl fun c hc => .inr (Option.some.inj hc).symm
  obtain ⟨x, y, hx, hy, hxy⟩ := sameAs_typeOfText_append_iff hlong hshort ha hb (by decide)
    hmodifier (hblank _) (hblank _)
  obtain ⟨x', y', hx', hy', hxy'⟩ := sameAs_typeOfText_append_iff hlong hshort ha hb (by decide)
    hbrackets (hbracket _) (hbracket _)
  refine ⟨_, _, hlong, hshort, x, y, x', y', hx, hy, hxy.2 (by decide), hx', hy', ?_⟩
  rw [Bool.eq_false_iff, Ne, hxy']
  decide +kernel

/-- Arrays of one type under two names are two types. -/
theorem array_of_synonym :
    ∃ a b a' b', typeOfText .postgres "int" = .ok a ∧ typeOfText .postgres "integer" = .ok b ∧
      a.sameAs b = true ∧ typeOfText .postgres "int[]" = .ok a' ∧
      typeOfText .postgres "integer[]" = .ok b' ∧ a'.sameAs b' = false :=
  ⟨⟨.integer, [], "int"⟩, ⟨.integer, [], "integer"⟩, ⟨.other "INT[]", [], "int[]"⟩,
    ⟨.other "INTEGER[]", [], "integer[]"⟩, by decide +kernel, by decide +kernel, by decide,
    by decide +kernel, by decide +kernel, by decide⟩

end Grammar

end SchemaDrift
