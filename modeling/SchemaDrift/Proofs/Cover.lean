import SchemaDrift.Proofs.Lexing
import SchemaDrift.Text.Measure
import SchemaDrift.Token.Canonical

namespace SchemaDrift

theorem Text.ne_append_of_indexOf? {q s : List Char} (h : Text.indexOf? q s = none)
    (hq : q ≠ []) (before after : List Char) : s ≠ before ++ (q ++ after) := by
  intro hs
  induction before generalizing s with
  | nil =>
      obtain ⟨a, q, rfl⟩ := List.exists_cons_of_ne_nil hq
      rw [hs, List.nil_append, List.cons_append, indexOf?, if_pos] at h
      · cases h
      · exact List.isPrefixOf_iff_prefix.2 (List.prefix_append _ after)
  | cons c before ih =>
      rw [hs, List.cons_append, indexOf?] at h
      split at h
      · cases h
      · exact ih (Option.map_eq_none_iff.1 h) rfl

namespace Token

variable {d : Dialect} {last : Option Char} {c : Char}

inductive Ignored : List Char → List Char → Prop
  | blank {c : Char} {rest : List Char} (hc : Text.isBlank c = true) : Ignored [c] rest
  | line {body rest : List Char} (hbody : '\n' ∉ body) (hrest : EndsLine rest) :
      Ignored ('-' :: '-' :: body) rest
  | block {body rest : List Char}
      (hfirst : ∀ k < body.length, ¬ ['*', '/'] <+: (body ++ (['*', '/'] ++ rest)).drop k) :
      Ignored ('/' :: '*' :: (body ++ ['*', '/'])) rest
  | openBlock {body : List Char} (hbody : ∀ before after, body ≠ before ++ (['*', '/'] ++ after)) :
      Ignored ('/' :: '*' :: body) []

inductive Skipped : List Char → List Char → Prop
  | ignored {run rest : List Char} (h : Ignored run rest) : Skipped run rest
  /-- The letter of a literal such as `X'41'`. -/
  | letter {c : Char} {rest : List Char} (hc : isLiteralPrefix c = true) :
      Skipped [c] ('\'' :: rest)

inductive Gap (P : List Char → List Char → Prop) : List Char → List Char → Prop
  | nil {rest : List Char} : Gap P [] rest
  | cons {run gap rest : List Char} (h : P run (gap ++ rest)) (t : Gap P gap rest) :
      Gap P (run ++ gap) rest

/-- The text is gaps and tokens in turn, up to its end. No token is empty. -/
inductive Covers (P : List Char → List Char → Prop) : List Char → List Token → Prop
  | done {trailing : List Char} (h : Gap P trailing []) : Covers P trailing []
  | token {t : Token} {ts : List Token} {rest : List Char} (hgap : Gap P t.gap (t.text ++ rest))
      (htext : t.text ≠ []) (h : Covers P rest ts) : Covers P (t.gap ++ (t.text ++ rest)) (t :: ts)

def spans (n : Nat) : List Token → List (Nat × Nat)
  | [] => []
  | t :: ts =>
      let start := n + Text.byteSize t.gap
      (start, start + Text.byteSize t.text) :: spans (start + Text.byteSize t.text) ts

theorem ignored_comment {body rest : List Char}
    (h : commentSize (body ++ rest) = body.length) : Ignored ('/' :: '*' :: body) rest := by
  unfold commentSize at h
  cases hi : Text.indexOf? ['*', '/'] (body ++ rest) with
  | some n =>
      rw [hi] at h
      obtain ⟨inner, after, hs, rfl, hfirst⟩ :=
        (Text.indexOf?_eq_some_iff (List.cons_ne_nil _ _)).1 hi
      have hlen : body.length = (inner ++ ['*', '/']).length := by
        rw [← h]
        simp
      rw [← List.append_assoc] at hs
      obtain ⟨rfl, rfl⟩ := List.append_inj hs hlen
      rw [List.append_assoc] at hfirst
      exact .block hfirst
  | none =>
      rw [hi] at h
      dsimp only at h
      rw [List.length_append, Nat.add_eq_left, List.length_eq_zero_iff] at h
      subst h
      rw [List.append_nil] at hi
      exact .openBlock (Text.ne_append_of_indexOf? hi (List.cons_ne_nil _ _))

theorem skipped_of_head {body rest : List Char}
    (h : head d last c (body ++ rest) = (none, body.length)) : Skipped (c :: body) rest := by
  obtain ⟨o, hfits, htaken⟩ := exists_opening h
  have hbody := congrArg Prod.snd htaken
  cases o with
  | blank =>
      obtain rfl := List.length_eq_zero_iff.1 hbody.symm
      exact .ignored (.blank hfits)
  | line =>
      obtain ⟨rfl, hnext⟩ := hfits
      have hline : body = (body ++ rest).takeWhile (· != '\n') := by
        have htake := List.prefix_iff_eq_take.1
          (List.takeWhile_prefix (· != '\n') (l := body ++ rest))
        rw [show ((body ++ rest).takeWhile (· != '\n')).length = body.length from hbody,
          List.take_left] at htake
        exact htake.symm
      have hrest : rest = (body ++ rest).dropWhile (· != '\n') := by
        rw [← drop_length_takeWhile, ← hline, List.drop_left]
      cases body with
      | nil =>
          obtain ⟨cs, rfl⟩ := List.head?_eq_some_iff.1 hnext
          cases hline
      | cons e body =>
          obtain rfl : e = '-' := Option.some.inj hnext
          refine .ignored (.line ?_ ?_)
          · exact fun hmem => not_mem_takeWhile_line _ (hline ▸ List.mem_cons_of_mem _ hmem)
          · rw [hrest]
            exact .dropWhile _
  | block =>
      obtain ⟨rfl, hnext⟩ := hfits
      cases body with
      | nil => cases hbody
      | cons e body =>
          obtain rfl : e = '*' := Option.some.inj hnext
          exact .ignored (ignored_comment (Nat.succ.inj hbody))
  | letter =>
      obtain rfl := List.length_eq_zero_iff.1 hbody.symm
      obtain ⟨cs, rfl⟩ := List.head?_eq_some_iff.1 hfits.2
      exact .letter hfits.1
  | single | double | bracket | dollar | number | word | pair | sign => cases htaken

theorem Gap.snoc {P : List Char → List Char → Prop} {gap run rest : List Char}
    (h : Gap P gap (run ++ rest)) (hrun : P run rest) : Gap P (gap ++ run) rest := by
  generalize hs : run ++ rest = s at h
  induction h with
  | nil =>
      rw [List.nil_append, ← List.append_nil run]
      exact .cons hrun .nil
  | cons h t ih =>
      subst hs
      rw [← List.append_assoc] at h
      rw [List.append_assoc]
      exact .cons h (ih rfl)

theorem Lexes.covers {gap s trailing : List Char} {ts : List Token}
    (h : Lexes d last gap s ts trailing) (hgap : Gap Skipped gap s) :
    Covers Skipped (gap ++ s) ts := by
  induction h with
  | nil => 
      rw [List.append_nil]
      exact .done hgap
  | @skip last c gap body rest trailing ts h t ih =>
      have hcovers := ih (hgap.snoc (skipped_of_head h))
      rwa [List.append_assoc] at hcovers
  | @token last c gap body rest trailing kind ts h t ih =>
      exact .token (t := ⟨kind, gap, c :: body⟩) hgap (List.cons_ne_nil _ _) (ih .nil)

theorem covers_lex (d : Dialect) (s : List Char) : Covers Skipped s (lex d s) :=
  (lexes_lex d s).covers .nil

namespace Covers

variable {P : List Char → List Char → Prop} {s : List Char} {ts : List Token}

theorem spans_ordered (h : Covers P s ts) (n : Nat) :
    (spans n ts).Pairwise (fun a b => a.2 ≤ b.1) ∧
      ∀ a ∈ spans n ts, n ≤ a.1 ∧ a.1 < a.2 ∧ a.2 ≤ n + Text.byteSize s := by
  induction h generalizing n with
  | done => exact ⟨.nil, nofun⟩
  | @token t ts rest hgap htext h ih =>
      obtain ⟨hpairs, hbounds⟩ := ih (n + Text.byteSize t.gap + Text.byteSize t.text)
      have hpos := Text.byteSize_pos htext
      simp only [spans, List.pairwise_cons, List.forall_mem_cons, Text.byteSize_append]
      refine ⟨⟨fun a ha => (hbounds a ha).1, hpairs⟩, ⟨by omega, by omega, by omega⟩, ?_⟩
      intro a ha
      obtain ⟨hlow, hlt, hhigh⟩ := hbounds a ha
      exact ⟨by omega, hlt, by omega⟩

end Covers

/-- No token begins with a blank. -/
theorem Lexes.not_isBlank {gap s trailing : List Char} {ts : List Token}
    (h : Lexes d last gap s ts trailing) :
    ∀ t ∈ ts, ∀ c ∈ t.text.head?, Text.isBlank c = false := by
  induction h with
  | nil => exact nofun
  | skip h t ih => exact ih
  | @token last c gap body rest trailing kind ts h t ih =>
      refine List.forall_mem_cons.2 ⟨?_, ih⟩
      rintro c ⟨⟩
      by_contra hc
      rw [head, if_pos (Bool.not_eq_false _ ▸ hc)] at h
      cases h

theorem not_isLiteralPrefix_of_isBlank (hc : Text.isBlank c = true) :
    isLiteralPrefix c = false := by
  simp only [Text.isBlank, Bool.or_eq_true, beq_iff_eq] at hc
  rcases hc with (((rfl | rfl) | rfl) | rfl) | rfl <;> rfl

theorem Ignored.not_isLiteralPrefix {run rest : List Char} (h : Ignored run rest)
    (hrest : rest ≠ []) (hblank : ∀ c ∈ rest.head?, Text.isBlank c = false) :
    ∀ c ∈ run.getLast?, isLiteralPrefix c = false := by
  cases h with
  | blank hc =>
      rintro c ⟨⟩
      exact not_isLiteralPrefix_of_isBlank hc
  | line hbody hend =>
      cases hend with
      | nil => exact absurd rfl hrest
      | cons => exact absurd (hblank '\n' rfl) (by decide)
  | @block body =>
      have hrun : '/' :: '*' :: (body ++ ['*', '/']) = '/' :: '*' :: (body ++ ['*']) ++ ['/'] := by
        simp
      rw [hrun, List.getLast?_concat]
      rintro c ⟨⟩
      rfl
  | openBlock => exact absurd rfl hrest

theorem Gap.not_isLiteralPrefix {gap rest : List Char} (h : Gap Ignored gap rest)
    (hrest : rest ≠ []) (hblank : ∀ c ∈ rest.head?, Text.isBlank c = false) :
    ∀ c ∈ gap.getLast?, isLiteralPrefix c = false := by
  induction h with
  | nil => exact nofun
  | @cons run gap rest h t ih =>
      intro c hc
      rcases List.eq_nil_or_concat gap with rfl | ⟨init, e, rfl⟩
      · rw [List.append_nil] at hc
        exact h.not_isLiteralPrefix hrest hblank c hc
      · refine ih hrest hblank c ?_
        rw [List.concat_eq_append, ← List.append_assoc, List.getLast?_concat] at hc
        rw [List.concat_eq_append, List.getLast?_concat]
        exact hc

theorem Skipped.head?_ne {run rest : List Char} (h : Skipped run rest) :
    run.head? ≠ some '\'' ∧ run ≠ [] := by
  cases h with
  | ignored h =>
      cases h with
      | @blank c _ hc =>
          refine ⟨?_, List.cons_ne_nil _ _⟩
          rintro ⟨⟩
          cases hc
      | line => exact ⟨nofun, List.cons_ne_nil _ _⟩
      | block => exact ⟨nofun, List.cons_ne_nil _ _⟩
      | openBlock => exact ⟨nofun, List.cons_ne_nil _ _⟩
  | @letter c _ hc =>
      refine ⟨?_, List.cons_ne_nil _ _⟩
      rintro ⟨⟩
      cases hc

theorem Gap.ignored {gap rest : List Char} (h : Gap Skipped gap rest)
    (hlast : rest ≠ [] → ∀ c ∈ gap.getLast?, isLiteralPrefix c = false) :
    Gap Ignored gap rest := by
  induction h with
  | nil => exact .nil
  | @cons run gap rest h t ih =>
      have hgap : Gap Ignored gap rest := by
        refine ih (fun hrest c hc => hlast hrest c ?_)
        rw [List.getLast?_append, hc]
        rfl
      generalize hs : gap ++ rest = s at h
      cases h with
      | ignored h =>
          subst hs
          exact .cons h hgap
      | @letter c tail hc =>
          cases t with
          | nil =>
              obtain rfl : rest = '\'' :: tail := hs
              exact absurd (hlast (List.cons_ne_nil _ _) c rfl) (by rw [hc]; decide)
          | @cons run gap _ h t =>
              obtain ⟨hhead, hnil⟩ := h.head?_ne
              obtain ⟨a, run, rfl⟩ := List.exists_cons_of_ne_nil hnil
              exact absurd (congrArg List.head? hs) hhead

/-- Nothing but the letter of a literal is left out. -/
theorem covers_ignored_iff (d : Dialect) (s : List Char) :
    Covers Ignored s (lex d s) ↔
      ∀ t ∈ lex d s, ∀ c ∈ t.gap.getLast?, isLiteralPrefix c = false := by
  have hblank := (lexes_lex d s).not_isBlank
  have hcovers := covers_lex d s
  generalize lex d s = ts at *
  constructor
  · intro h
    clear hcovers
    induction h with
    | done => exact nofun
    | @token t ts rest hgap htext h ih =>
        rw [List.forall_mem_cons] at hblank ⊢
        refine ⟨hgap.not_isLiteralPrefix (List.append_ne_nil_of_left_ne_nil htext _) ?_,
          ih hblank.2⟩
        obtain ⟨c, cs, htext⟩ := List.exists_cons_of_ne_nil htext
        rw [htext]
        rw [htext] at hblank
        exact hblank.1
  · intro h
    induction hcovers with
    | done hgap => exact .done (hgap.ignored (absurd rfl))
    | @token t ts rest hgap htext t' ih =>
        rw [List.forall_mem_cons] at hblank h
        exact .token (hgap.ignored (fun _ => h.1)) htext (ih hblank.2 h.2)

/-- The tokens follow one another within the text, and between them nothing is left out but
blanks, comments and the letters of literals. -/
theorem lex_covers (d : Dialect) (s : List Char) :
    Covers Skipped s (lex d s) ∧
      (Covers Ignored s (lex d s) ↔
        ∀ t ∈ lex d s, ∀ c ∈ t.gap.getLast?, isLiteralPrefix c = false) ∧
      (spans 0 (lex d s)).Pairwise (fun a b => a.2 ≤ b.1) ∧
      ∀ a ∈ spans 0 (lex d s), a.1 < a.2 ∧ a.2 ≤ Text.byteSize s := by
  obtain ⟨hpairs, hbounds⟩ := (covers_lex d s).spans_ordered 0
  refine ⟨covers_lex d s, covers_ignored_iff d s, hpairs, ?_⟩
  intro a ha
  obtain ⟨-, hlt, hle⟩ := hbounds a ha
  rw [Nat.zero_add] at hle
  exact ⟨hlt, hle⟩

/-- The letter of `X'41'` is in no token, and is not seen where texts are compared. -/
theorem hexLiteral_letter_lost :
    ¬ Covers Ignored "X'41'".toList (lex .postgres "X'41'".toList) ∧
      SchemaDrift.canonicalSql .postgres "X'41'".toList =
        SchemaDrift.canonicalSql .postgres "'41'".toList ∧
      SchemaDrift.canonicalExpr .postgres "X'41'".toList =
        SchemaDrift.canonicalExpr .postgres "'41'".toList := by
  refine ⟨?_, by decide +kernel, by decide +kernel⟩
  rw [covers_ignored_iff]
  intro h
  have hletter := h ⟨.string, ['X'], "'41'".toList⟩ (by decide +kernel) 'X' rfl
  cases hletter

end Token

end SchemaDrift
