import SchemaDrift.Proofs.QuotedTokens
import SchemaDrift.Token.Canonical

namespace SchemaDrift

namespace Token

variable {d : Dialect} {last : Option Char} {c : Char} {body x y : List Char}

theorem length_takeWhile_truncate {p : Char → Bool}
    (h : ((body ++ (x ++ y)).takeWhile p).length = body.length) :
    ((body ++ x).takeWhile p).length = body.length := by
  have hbody : (body ++ (x ++ y)).takeWhile p = body := by
    have htake := List.prefix_iff_eq_take.1 (List.takeWhile_prefix p (l := body ++ (x ++ y)))
    rwa [h, List.take_left] at htake
  have hp : ∀ e ∈ body, p e = true := by
    intro e he
    rw [← hbody] at he
    exact List.mem_takeWhile_imp he
  rw [List.takeWhile_append_of_pos hp, List.append_right_eq_self] at hbody
  have hx : x.takeWhile p = [] := by
    cases x with
    | nil => rfl
    | cons e x =>
        rw [List.cons_append, List.takeWhile_cons] at hbody
        rw [List.takeWhile_cons]
        split at hbody
        · cases hbody
        · next he => rw [if_neg he]
  rw [List.takeWhile_append_of_pos hp, hx, List.append_nil]

theorem quotedSize_truncate {close : Char} (hclose : close ≠ '\\') {backslash : Bool}
    (h : quotedSize close backslash (body ++ (x ++ y)) = body.length) :
    quotedSize close backslash (body ++ x) = body.length := by
  unfold quotedSize at h ⊢
  cases hsize : Text.quotedSize close backslash (body ++ (x ++ y)) with
  | some n =>
      rw [hsize, Option.getD_some] at h
      obtain ⟨inner, rest, hs, hn, htail⟩ := (Text.quotedSize_eq_some_iff hclose).1 hsize
      obtain ⟨rfl, rfl⟩ := List.append_inj hs (h.symm.trans hn)
      have htail' : QuoteTail close backslash body x := by
        refine htail.of_head? (fun hx => ?_)
        obtain ⟨x, rfl⟩ := List.head?_eq_some_iff.1 hx
        rfl
      rw [Text.quotedSize_of_quoteTail hclose htail', Option.getD_some]
  | none =>
      rw [hsize, Option.getD_none, List.length_append, Nat.add_eq_left, List.length_eq_zero_iff,
        List.append_eq_nil_iff] at h
      obtain ⟨rfl, rfl⟩ := h
      rw [List.append_nil] at hsize ⊢
      rw [List.append_nil] at hsize
      rw [hsize, Option.getD_none]

theorem indexOf?_truncate {q : List Char} (hq : q ≠ []) {n : Nat}
    (h : Text.indexOf? q (body ++ (x ++ y)) = some n) (hn : n + q.length ≤ body.length) :
    Text.indexOf? q (body ++ x) = some n := by
  obtain ⟨before, rest, hs, rfl, hfirst⟩ := (Text.indexOf?_eq_some_iff hq).1 h
  have hrun : before ++ q <+: body ++ (x ++ y) := by
    rw [hs, ← List.append_assoc]
    exact List.prefix_append _ _
  obtain ⟨tail, rfl⟩ : before ++ q <+: body := by
    refine List.prefix_of_prefix_length_le hrun (List.prefix_append _ _) ?_
    rw [List.length_append]
    exact hn
  refine (Text.indexOf?_eq_some_iff hq).2 ⟨before, tail ++ x, by simp, rfl, ?_⟩
  intro k hk hpre
  refine hfirst k hk (hpre.trans ?_)
  have hle : k ≤ (before ++ q ++ tail ++ x).length := by
    simp only [List.length_append]
    omega
  rw [← List.append_assoc _ x y, List.drop_append_of_le_length hle]
  exact List.prefix_append _ _

theorem commentSize_truncate (hx : x ≠ []) (h : commentSize (body ++ (x ++ y)) = body.length) :
    commentSize (body ++ x) = body.length := by
  unfold commentSize at h ⊢
  split at h
  · next n hn =>
      rw [indexOf?_truncate (List.cons_ne_nil _ _) hn (Nat.le_of_eq h)]
      exact h
  · rw [List.length_append, Nat.add_eq_left, List.length_eq_zero_iff, List.append_eq_nil_iff] at h
    exact absurd h.1 hx

/-- A dollar quote that does not take in all of the text ends with its tag. -/
theorem exists_tag_of_dollarSize {n : Nat} (hx : x ≠ [])
    (htag : Text.dollarTagSize ('$' :: (body ++ x)) = some n)
    (h : (dollarSize (body ++ x)).2 = body.length) :
    ∃ tag inner, IsTag tag ∧ '$' :: body = tag ++ (inner ++ tag) ∧
      ∀ k < inner.length, ¬ tag <+: (inner ++ tag).drop k := by
  obtain ⟨tag, rest, hs, rfl, hopener⟩ := Text.dollarTagSize_eq_some_iff.1 htag
  unfold dollarSize at h
  rw [htag] at h
  simp only [hs, List.take_left, List.drop_left] at h
  cases hclose : Text.indexOf? tag rest with
  | none =>
      rw [hclose] at h
      dsimp only at h
      rw [List.length_append, Nat.add_eq_left] at h
      exact absurd (List.length_eq_zero_iff.1 h) hx
  | some m =>
      rw [hclose] at h
      obtain ⟨inner, after, rfl, rfl, hfirst⟩ :=
        (Text.indexOf?_eq_some_iff (ne_nil_of_isTag hopener)).1 hclose
      have hpos := List.length_pos_iff.2 (ne_nil_of_isTag hopener)
      have hlen : ('$' :: body).length = (tag ++ (inner ++ tag)).length := by
        simp only [List.length_cons, List.length_append]
        dsimp only at h
        omega
      have hparts : '$' :: body ++ x = tag ++ (inner ++ tag) ++ after := by
        rw [List.cons_append, hs]
        simp
      refine ⟨tag, inner, hopener, (List.append_inj hparts hlen).1, fun k hk hpre => ?_⟩
      refine hfirst k hk (hpre.trans ?_)
      have hle : k ≤ (inner ++ tag).length := by
        rw [List.length_append]
        omega
      rw [← List.append_assoc, List.drop_append_of_le_length hle]
      exact List.prefix_append _ _

theorem dollarSize_of_closed {tag inner : List Char} (htag : IsTag tag)
    (hinner : ∀ k < inner.length, ¬ tag <+: (inner ++ tag).drop k)
    (hbody : '$' :: body = tag ++ (inner ++ tag)) (x : List Char) :
    dollarSize (body ++ x) = (.string, tag.length + inner.length + tag.length - 1) := by
  have hs : '$' :: (body ++ x) = tag ++ (inner ++ (tag ++ x)) := by
    rw [← List.cons_append, hbody, List.append_assoc, List.append_assoc]
  exact dollarSize_of_tag htag hinner hs

theorem dollarSize_truncate (h : (dollarSize (body ++ (x ++ y))).2 = body.length) :
    dollarSize (body ++ x) = dollarSize (body ++ (x ++ y)) := by
  by_cases hnil : x ++ y = []
  · obtain ⟨rfl, rfl⟩ := List.append_eq_nil_iff.1 hnil
    rfl
  cases htag : Text.dollarTagSize ('$' :: (body ++ (x ++ y))) with
  | some n =>
      obtain ⟨tag, inner, hopener, hbody, hinner⟩ := exists_tag_of_dollarSize hnil htag h
      rw [dollarSize_of_closed hopener hinner hbody, dollarSize_of_closed hopener hinner hbody]
  | none =>
      have hnone : Text.dollarTagSize ('$' :: (body ++ x)) = none := by
        by_contra hsome
        obtain ⟨n, hn⟩ := Option.ne_none_iff_exists'.1 hsome
        obtain ⟨tag, rest, hs, rfl, hopener⟩ := Text.dollarTagSize_eq_some_iff.1 hn
        have hs' : '$' :: (body ++ (x ++ y)) = tag ++ (rest ++ y) := by
          rw [← List.append_assoc tag, ← hs, List.cons_append, List.append_assoc]
        have hfull := Text.dollarTagSize_eq_some_iff.2 ⟨tag, rest ++ y, hs', rfl, hopener⟩
        rw [htag] at hfull
        cases hfull
      unfold dollarSize at h ⊢
      rw [htag] at h ⊢
      rw [hnone]
      dsimp only at h ⊢
      rw [length_takeWhile_truncate h, h]

/-- A token of one character begins also where the text ends with it. -/
theorem Opening.of_none_of_taken {kind : TokenKind}
    (h : (of d c cs.head?).taken d last c cs = (some kind, 0)) : of d c none = of d c cs.head? := by
  refine of_none ?_
  have hfits := fits_of d c cs.head?
  generalize of d c cs.head? = o at h hfits
  cases o with
  | blank | single | double | bracket | dollar | word | sign => rfl
  | line | block | letter | pair => cases h
  | number =>
      rcases hfits with hdigit | ⟨-, e, he, hnext⟩
      · exact congrArg not hdigit
      · obtain ⟨t, rfl⟩ := List.head?_eq_some_iff.1 he
        rw [taken, List.takeWhile_cons_of_pos (by rw [isAlphanum_of_isDigit hnext]; rfl)] at h
        cases h

theorem Opening.taken_truncate {o : Opening} {kind : Option TokenKind}
    (hfits : o.Fits d c (body ++ (x ++ y)).head?) (hx : kind = none → x ≠ [])
    (h : o.taken d last c (body ++ (x ++ y)) = (kind, body.length)) :
    o.taken d last c (body ++ x) = (kind, body.length) := by
  obtain ⟨hkind, hsize⟩ := Prod.mk.inj h
  cases o with
  | blank | letter | pair | sign => exact h
  | line | number | word => exact Prod.ext hkind (length_takeWhile_truncate hsize)
  | block =>
      cases body with
      | nil => cases hsize
      | cons e body =>
          exact Prod.ext hkind
            (congrArg (· + 1) (commentSize_truncate (hx hkind.symm) (Nat.succ.inj hsize)))
  | single | bracket => exact Prod.ext hkind (quotedSize_truncate (by decide) hsize)
  | double =>
      have hclose : c ≠ '\\' := by rcases hfits with rfl | rfl <;> decide
      exact Prod.ext hkind (quotedSize_truncate hclose hsize)
  | dollar =>
      rw [taken, dollarSize_truncate hsize]
      exact h

/-- What stands at the head of a text is there without what follows it. A skipped stretch may need
the character after it. -/
theorem head_truncate {kind : Option TokenKind}
    (h : head d last c (body ++ (x ++ y)) = (kind, body.length)) (hx : kind = none → x ≠ []) :
    head d last c (body ++ x) = (kind, body.length) := by
  have hopening :
      Opening.of d c (body ++ x).head? = Opening.of d c (body ++ (x ++ y)).head? := by
    cases hs : body ++ x with
    | cons e s =>
        rw [← List.append_assoc, hs]
        rfl
    | nil =>
        obtain ⟨rfl, rfl⟩ := List.append_eq_nil_iff.1 hs
        obtain ⟨kind, rfl⟩ := Option.ne_none_iff_exists'.1 fun hkind => hx hkind rfl
        rw [head_eq_taken] at h
        exact Opening.of_none_of_taken h
  rw [head_eq_taken] at h ⊢
  rw [hopening]
  exact Opening.taken_truncate (Opening.fits_of d c _) hx h

theorem Lexes.eq_nil {gap trailing : List Char} {ts : List Token}
    (h : Lexes d last gap [] ts trailing) : ts = [] := by
  generalize hs : ([] : List Char) = s at h
  cases h with
  | nil => rfl
  | skip | token => cases hs

/-- After a token the gap is empty. -/
theorem Lexes.of_append {gap s trailing : List Char} {ts us : List Token}
    (h : Lexes d last gap s (ts ++ us) trailing) (hts : ts ≠ []) :
    ∃ last' rest, Lexes d last' [] rest us trailing := by
  generalize hall : ts ++ us = all at h
  induction h generalizing ts with
  | nil => exact absurd (List.append_eq_nil_iff.1 hall).1 hts
  | skip h t ih => exact ih hts hall
  | token h t ih =>
      obtain ⟨u, ts, rfl⟩ := List.exists_cons_of_ne_nil hts
      rw [List.cons_append] at hall
      obtain ⟨-, rfl⟩ := List.cons.inj hall
      cases ts with
      | nil => exact ⟨_, _, t⟩
      | cons u ts => exact ih (List.cons_ne_nil _ _) rfl

theorem Lexes.truncate {gap s trailing : List Char} {ts us : List Token}
    (h : Lexes d last gap s (ts ++ us) trailing) (hts : ts ≠ []) :
    ∃ run rest, s = run ++ rest ∧ gap ++ run = ts.flatMap (fun t => t.gap ++ t.text) ∧
      Lexes d last gap run ts [] := by
  generalize hall : ts ++ us = all at h
  induction h generalizing ts with
  | nil => exact absurd (List.append_eq_nil_iff.1 hall).1 hts
  | @skip last c gap body rest trailing all h t ih =>
      obtain ⟨run, rest, rfl, hrun, hlexes⟩ := ih hts hall
      have hne : run ≠ [] := by
        rintro rfl
        exact hts hlexes.eq_nil
      refine ⟨c :: (body ++ run), rest, by simp, by simpa using hrun, ?_⟩
      exact .skip (head_truncate h (fun _ => hne)) hlexes
  | @token last c gap body rest trailing kind all h t ih =>
      obtain ⟨u, ts, rfl⟩ := List.exists_cons_of_ne_nil hts
      rw [List.cons_append] at hall
      obtain ⟨rfl, rfl⟩ := List.cons.inj hall
      rw [List.flatMap_cons]
      dsimp only
      by_cases hnil : ts = []
      · subst hnil
        refine ⟨c :: (body ++ []), rest, by simp, by simp, ?_⟩
        exact .token (head_truncate (x := []) h (fun hk => absurd hk (Option.some_ne_none _))) .nil
      · obtain ⟨run, rest, rfl, hrun, hlexes⟩ := ih hnil rfl
        refine ⟨c :: (body ++ run), rest, by simp, ?_, ?_⟩
        · rw [← hrun]
          simp
        · exact .token (head_truncate h (fun hk => absurd hk (Option.some_ne_none _))) hlexes

def isPlain (t : Token) : Bool :=
  t.text.head? != some '\'' ||
    Text.quotedSize '\'' true t.text.tail == Text.quotedSize '\'' false t.text.tail

theorem quotedSize_of_plain {rest : List Char} {backslash : Bool} (backslash' : Bool)
    (hplain : Text.quotedSize '\'' true body = Text.quotedSize '\'' false body)
    (h : quotedSize '\'' backslash (body ++ rest) = body.length) :
    quotedSize '\'' backslash' (body ++ rest) = body.length := by
  have hesc : '\'' ≠ '\\' := by decide
  unfold quotedSize at h ⊢
  cases hsize : Text.quotedSize '\'' backslash (body ++ rest) with
  | some n =>
      rw [hsize, Option.getD_some] at h
      obtain ⟨inner, after, hs, hn, htail⟩ := (Text.quotedSize_eq_some_iff hesc).1 hsize
      obtain ⟨rfl, rfl⟩ := List.append_inj hs (h.symm.trans hn)
      rw [Text.quotedSize_of_quoteTail hesc (htail.of_quotedSize hesc hplain backslash'),
        Option.getD_some]
  | none =>
      rw [hsize, Option.getD_none, List.length_append, Nat.add_eq_left,
        List.length_eq_zero_iff] at h
      subst h
      have hsame : Text.quotedSize '\'' backslash body = Text.quotedSize '\'' backslash' body := by
        cases backslash <;> cases backslash' <;> simp [hplain]
      rw [List.append_nil] at hsize ⊢
      rw [← hsame, hsize, Option.getD_none]

theorem head_of_plain {rest gap : List Char} {kind : TokenKind} (last' : Option Char)
    (hplain : isPlain ⟨kind, gap, c :: body⟩ = true)
    (h : head d last c (body ++ rest) = (some kind, body.length)) :
    head d last' c (body ++ rest) = (some kind, body.length) := by
  by_cases hc : c = '\''
  · subst hc
    have hbody : Text.quotedSize '\'' true body = Text.quotedSize '\'' false body := by
      simpa [isPlain] using hplain
    obtain ⟨hkind, hsize⟩ := Prod.mk.inj h
    refine Prod.ext hkind (quotedSize_of_plain _ hbody hsize)
  · rw [head_congr_of_ne last hc]
    exact h

def bare : List Token → List Token
  | [] => []
  | t :: ts => { t with gap := [] } :: ts

def endsAlone (t : Token) : Bool :=
  t.isPlain || (t.gap.getLast? != some 'E' && t.gap.getLast? != some 'e')

/-- What stands before matters to a quote after the letter of a literal only. -/
theorem head_congr_last {last' : Option Char} (hlast : last ∉ [some 'E', some 'e'])
    (hlast' : last' ∉ [some 'E', some 'e']) (c : Char) (cs : List Char) :
    head d last c cs = head d last' c cs := by
  simp only [List.mem_cons, List.not_mem_nil, or_false, not_or] at hlast hlast'
  rw [head_eq_taken, head_eq_taken]
  unfold Opening.taken
  rw [beq_eq_false_iff_ne.2 hlast.1, beq_eq_false_iff_ne.2 hlast.2,
    beq_eq_false_iff_ne.2 hlast'.1, beq_eq_false_iff_ne.2 hlast'.2]

theorem Lexes.bare {gap s trailing : List Char} {t : Token} {ts : List Token}
    (h : Lexes d last gap s (t :: ts) trailing)
    (ht : t.isPlain = true ∨ t.endsAlone = true ∧ last = gap.getLast?) :
    ∃ rest, gap ++ s = t.gap ++ rest ∧ Lexes d none [] rest (bare (t :: ts)) trailing := by
  generalize hall : t :: ts = all at h
  induction h with
  | nil => cases hall
  | skip h u ih =>
      obtain ⟨rest, hrest, hlexes⟩ := ih (ht.imp_right fun ht => ⟨ht.1, by
        rw [List.getLast?_append, List.getLast?_cons, Option.some_or]⟩) hall
      exact ⟨rest, by simpa using hrest, hlexes⟩
  | token h u =>
      cases hall
      refine ⟨_, rfl, .token ?_ u⟩
      rcases ht with hplain | ⟨halone, rfl⟩
      · exact head_of_plain none hplain h
      · rcases Bool.or_eq_true_iff.1 halone with hplain | hgap
        · exact head_of_plain none hplain h
        · rw [← h]
          exact head_congr_last (by decide) (by simpa using hgap) _ _

/-- Tokens that follow one another in some text. -/
structure Cut (d : Dialect) (ts : List Token) : Prop where
  source : ∃ s, ts <:+: lex d s
  plain : ∀ t ∈ ts, t.isPlain = true

theorem Cut.of_infix {ts us : List Token} (h : Cut d ts) (hus : us <:+: ts) : Cut d us where
  source := h.source.imp (fun _ hs => hus.trans hs)
  plain := fun t ht => h.plain t (hus.subset ht)

theorem Cut.lex_span {ts : List Token} (h : Cut d ts) : lex d (span ts) = bare ts := by
  cases ts with
  | nil => exact Lexes.lex_eq .nil
  | cons t ts =>
      obtain ⟨s, before, after, hs⟩ := h.source
      have hlexes := lexes_lex d s
      rw [← hs, List.append_assoc] at hlexes
      obtain ⟨last, rest, hlexes⟩ :
          ∃ last rest, Lexes d last [] rest (t :: ts ++ after) (lexFrom d none [] s).2 := by
        by_cases hnil : before = []
        · subst hnil
          exact ⟨_, _, hlexes⟩
        · exact hlexes.of_append hnil
      obtain ⟨run, rest, rfl, hrun, hlexes⟩ := hlexes.truncate (List.cons_ne_nil t ts)
      obtain ⟨inner, hinner, hlexes⟩ := hlexes.bare (.inl (h.plain t List.mem_cons_self))
      rw [hrun, List.flatMap_cons, List.append_assoc] at hinner
      obtain rfl := List.append_cancel_left hinner
      exact hlexes.lex_eq

/-- The source of all tokens of a text. -/
theorem lex_span_lex {s : List Char} (h : ∀ t ∈ (lex d s).head?, t.endsAlone = true) :
    lex d (span (lex d s)) = bare (lex d s) := by
  cases hlex : lex d s with
  | nil => exact Lexes.lex_eq .nil
  | cons t ts =>
      have ht : t.endsAlone = true := h t (by rw [hlex]; rfl)
      have hlexes := lexes_lex d s
      rw [hlex, ← List.append_nil (t :: ts)] at hlexes
      obtain ⟨run, rest, rfl, hrun, hlexes⟩ := hlexes.truncate (List.cons_ne_nil t ts)
      obtain ⟨inner, hinner, hlexes⟩ := hlexes.bare (.inr ⟨ht, rfl⟩)
      rw [hrun, List.flatMap_cons, List.append_assoc] at hinner
      obtain rfl := List.append_cancel_left hinner
      exact hlexes.lex_eq

end Token

end SchemaDrift
