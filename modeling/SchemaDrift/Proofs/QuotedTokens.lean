import SchemaDrift.Proofs.Lexing

namespace SchemaDrift

theorem QuoteTail.exists_concat {close : Char} {backslash : Bool} {body rest : List Char}
    (h : QuoteTail close backslash body rest) : ∃ init, body = init ++ [close] := by
  induction h with
  | close => exact ⟨[], rfl⟩
  | doubled h ih =>
      obtain ⟨init, rfl⟩ := ih
      exact ⟨_ :: _ :: init, rfl⟩
  | escaped hb h ih =>
      obtain ⟨init, rfl⟩ := ih
      exact ⟨_ :: _ :: init, rfl⟩
  | plain hb hc h ih =>
      obtain ⟨init, rfl⟩ := ih
      exact ⟨_ :: init, rfl⟩

/-- Without a backslash it does not matter whether one escapes. -/
theorem QuoteTail.of_not_mem {close : Char} {backslash : Bool} {body rest : List Char}
    (h : QuoteTail close backslash body rest) (hbody : '\\' ∉ body) (backslash' : Bool) :
    QuoteTail close backslash' body rest := by
  induction h with
  | close h => exact .close h
  | doubled h ih =>
      exact .doubled (ih (fun hmem => hbody (List.mem_cons_of_mem _ (List.mem_cons_of_mem _ hmem))))
  | escaped => exact absurd List.mem_cons_self hbody
  | plain hb hc h ih =>
      obtain ⟨hne, hbody⟩ := List.ne_and_not_mem_of_not_mem_cons hbody
      exact .plain (fun _ => hne.symm) hc (ih hbody)

theorem QuoteTail.head?_ne {close : Char} {backslash : Bool} {body rest : List Char}
    (h : QuoteTail close backslash body rest) : rest.head? ≠ some close := by
  induction h with
  | close h => exact h
  | doubled h ih | escaped hb h ih | plain hb hc h ih => exact ih

/-- A run that ends at one quote, whether a backslash escapes or not. -/
theorem QuoteTail.of_quotedSize {close : Char} {backslash : Bool} {body rest : List Char}
    (h : QuoteTail close backslash body rest) (hclose : close ≠ '\\')
    (hsame : Text.quotedSize close true body = Text.quotedSize close false body)
    (backslash' : Bool) : QuoteTail close backslash' body rest := by
  have hnil : QuoteTail close backslash body [] :=
    h.of_head? (fun h => absurd h.symm (Option.some_ne_none _))
  have hsize : Text.quotedSize close backslash body = Text.quotedSize close backslash' body := by
    cases backslash <;> cases backslash' <;> simp [hsame]
  have hclosed := Text.quotedSize_of_quoteTail hclose hnil
  rw [List.append_nil, hsize] at hclosed
  obtain ⟨inner, after, hs, hn, htail⟩ := (Text.quotedSize_eq_some_iff hclose).1 hclosed
  obtain rfl : body = inner := (List.append_inj ((List.append_nil _).trans hs) hn).1
  exact htail.of_head? (fun hrest => absurd hrest h.head?_ne)

def endsEitherWay : List Char → Bool
  | [] => true
  | q :: body => Text.quotedSize q true body == Text.quotedSize q false body

namespace Token

def isQuotation (t : Token) : Bool := t.kind == .string || t.kind == .quoted

def quotations (ts : List Token) : List (List Char) := (ts.filter isQuotation).map text

def opensTag (d : Dialect) (s : List Char) : Bool :=
  s.head? == some '$' && d.dollarQuotes && (Text.dollarTagSize s).isSome

def opens (d : Dialect) : List Char → Bool
  | [] => false
  | c :: cs =>
      c == '\'' || (c == '"' || c == '\x60') || (c == '[' && d.bracketIdentifiers) ||
        opensTag d (c :: cs) || (c == '-' && cs.head? == some '-') ||
          (c == '/' && cs.head? == some '*')

inductive Marks (d : Dialect) (last : Option Char) : Char → Char → Bool → Prop
  | single :
      Marks d last '\'' '\'' (d.backslashEscapes || last == some 'E' || last == some 'e')
  | double : Marks d last '"' '"' false
  | backtick : Marks d last '\x60' '\x60' false
  | bracket (hd : d.bracketIdentifiers = true) : Marks d last '[' ']' false

inductive Quotation (d : Dialect) (last : Option Char) : List Char → List Char → Prop
  | quote {c close : Char} {backslash : Bool} {body rest : List Char}
      (hq : Marks d last c close backslash) (h : QuoteTail close backslash body rest) :
      Quotation d last (c :: body) rest
  | dollar {tag body rest : List Char} (hd : d.dollarQuotes = true) (htag : IsTag tag)
      (hfirst : ∀ k < body.length, ¬ tag <+: (body ++ tag).drop k) :
      Quotation d last (tag ++ (body ++ tag)) rest

/-- The parts of a text after `last`, and its quoted runs. A word stands alone: what precedes it
would not take it in. -/
inductive Parts (d : Dialect) : Option Char → List Char → List (List Char) → Prop
  | nil {last : Option Char} : Parts d last [] []
  | char {last : Option Char} {c : Char} {s : List Char} {runs : List (List Char)}
      (hc : opens d (c :: s) = false) (h : Parts d (some c) s runs) : Parts d last (c :: s) runs
  | word {last : Option Char} {c : Char} {w s : List Char} {runs : List (List Char)}
      (hlast : ∀ e ∈ last, Piece.isWordChar e = false ∧ e ≠ '.')
      (hstart : Piece.isWordStart c = true) (hspace : Text.isSpace c = false)
      (hw : ∀ x ∈ w, Piece.isWordChar x = true) (h : Parts d (c :: w).getLast? s runs) :
      Parts d last (c :: (w ++ s)) runs
  | quotation {last : Option Char} {run s : List Char} {runs : List (List Char)}
      (hlast : run.head? = some '$' → ∀ e ∈ last, isWordChar e = false)
      (hq : Quotation d last run s) (h : Parts d run.getLast? s runs) :
      Parts d last (run ++ s) (run :: runs)

variable {d : Dialect} {last : Option Char} {c : Char} {s : List Char} {runs : List (List Char)}

theorem isWordChar_of_piece (h : Piece.isWordChar c = true) : isWordChar c = true := by
  simp only [Piece.isWordChar, isWordChar, Bool.or_eq_true] at h ⊢
  rcases h with ((h | h) | h) | h <;> simp [h]

theorem isWordChar_of_isAlphanum (h : c.isAlphanum = true) : Piece.isWordChar c = true := by
  simp [Piece.isWordChar, h]

theorem isAlphanum_of_isDigit (h : c.isDigit = true) : c.isAlphanum = true := by
  simp [Char.isAlphanum, h]

theorem isWordChar_of_isWordStart (h : isWordStart c = true) : isWordChar c = true := by
  simp only [isWordStart, isWordChar, Char.isAlphanum, Bool.or_eq_true] at h ⊢
  rcases h with (h | h) | h <;> simp [h]

/-- What the lexer takes in after a character that opens nothing. -/
theorem head_of_not_opens {cs : List Char} {kind : Option TokenKind} {n : Nat}
    (hc : opens d (c :: cs) = false) (h : head d last c cs = (kind, n)) :
    (kind ≠ some .string ∧ kind ≠ some .quoted) ∧
      (n = 0 ∨
        isWordChar c = true ∧ n = (cs.takeWhile isWordChar).length ∨
        (c = '.' ∨ c.isDigit = true) ∧
          n = (cs.takeWhile (fun e => e.isAlphanum || e == '.')).length ∨
        c = '$' ∧ n = (cs.takeWhile Char.isDigit).length ∨
        n = 1 ∧ ∃ e, cs.head? = some e ∧ e ∈ [':', '=', '>', '|']) := by
  simp only [opens, Bool.or_eq_false_iff] at hc
  obtain ⟨⟨⟨⟨⟨hsingle, hdouble⟩, hbracket⟩, htag⟩, hdashes⟩, hblock⟩ := hc
  obtain ⟨o, hfits, htaken⟩ := exists_opening h
  cases o with
  | blank | letter | sign =>
      cases htaken
      exact ⟨⟨by decide, by decide⟩, .inl rfl⟩
  | line => exact absurd hdashes (by simp [hfits.1, hfits.2])
  | block => exact absurd hblock (by simp [hfits.1, hfits.2])
  | single => exact absurd hsingle (by simp [show c = '\'' from hfits])
  | double => rcases hfits with rfl | rfl <;> simp at hdouble
  | bracket => exact absurd hbracket (by simp [hfits.1, hfits.2])
  | dollar =>
      obtain ⟨rfl, hd⟩ := hfits
      have hnone : Text.dollarTagSize ('$' :: cs) = none := by simpa [opensTag, hd] using htag
      rw [Opening.taken, dollarSize, hnone] at htaken
      dsimp only at htaken
      cases htaken
      exact ⟨⟨by decide, by decide⟩, .inr (.inr (.inr (.inl ⟨rfl, rfl⟩)))⟩
  | number =>
      cases htaken
      exact ⟨⟨by decide, by decide⟩, .inr (.inr (.inl ⟨hfits.symm.imp And.left id, rfl⟩))⟩
  | word =>
      cases htaken
      exact ⟨⟨by decide, by decide⟩, .inr (.inl ⟨isWordChar_of_isWordStart hfits, rfl⟩)⟩
  | pair =>
      cases htaken
      obtain ⟨-, e, he, hmem⟩ := hfits
      have hsecond : e ∈ twoCharSymbols.map Prod.snd := List.mem_map_of_mem hmem
      have hsubset : twoCharSymbols.map Prod.snd ⊆ [':', '=', '>', '|'] := by decide
      exact ⟨⟨by decide, by decide⟩, .inr (.inr (.inr (.inr ⟨rfl, e, he, hsubset hsecond⟩)))⟩

theorem Quotation.exists_cons {run : List Char} (h : Quotation d last run s) :
    ∃ q body, run = q :: body ∧ q ∈ ['\'', '"', '\x60', '[', '$'] := by
  cases h with
  | @quote c close backslash body _ hq =>
      refine ⟨c, body, rfl, ?_⟩
      cases hq <;> decide
  | dollar hd htag =>
      obtain ⟨name, rfl, -⟩ := htag
      exact ⟨'$', _, rfl, by decide⟩

theorem dollarSize_of_tag {tag body rest cs : List Char} (htag : IsTag tag)
    (hfirst : ∀ k < body.length, ¬ tag <+: (body ++ tag).drop k)
    (hs : '$' :: cs = tag ++ (body ++ (tag ++ rest))) :
    dollarSize cs = (.string, tag.length + body.length + tag.length - 1) := by
  have hsize := Text.dollarTagSize_eq_some_iff.2 ⟨tag, _, hs, rfl, htag⟩
  have hbody : Text.indexOf? tag (body ++ (tag ++ rest)) = some body.length := by
    rw [Text.indexOf?_eq_some_iff (ne_nil_of_isTag htag)]
    refine ⟨body, rest, rfl, rfl, ?_⟩
    intro k hk hpre
    have hle : k ≤ (body ++ tag).length := by
      rw [List.length_append]
      omega
    rw [← List.append_assoc, List.drop_append_of_le_length hle] at hpre
    refine hfirst k hk (List.prefix_of_prefix_length_le hpre (List.prefix_append _ _) ?_)
    rw [List.length_drop, List.length_append]
    omega
  rw [dollarSize, hsize]
  simp only [hs, List.take_left, List.drop_left, hbody]

theorem head_of_marks {close : Char} {backslash : Bool} (h : Marks d last c close backslash)
    (cs : List Char) :
    close ≠ '\\' ∧ ∃ kind, head d last c cs = (some kind, quotedSize close backslash cs) ∧
      (kind = .string ∨ kind = .quoted) := by
  cases h with
  | single => exact ⟨by decide, .string, rfl, .inl rfl⟩
  | double => exact ⟨by decide, .quoted, rfl, .inr rfl⟩
  | backtick => exact ⟨by decide, .quoted, rfl, .inr rfl⟩
  | bracket hd => exact ⟨by decide, .quoted, head_of_bracket hd last cs, .inr rfl⟩

/-- A quoted name runs from its mark to the next one that closes it. -/
theorem marks_of_head {cs : List Char} {n : Nat} (h : head d last c cs = (some .quoted, n)) :
    ∃ close, Marks d last c close false ∧ n = quotedSize close false cs := by
  obtain ⟨o, hfits, htaken⟩ := exists_opening h
  cases o with
  | double =>
      rcases hfits with rfl | rfl
      · exact ⟨_, .double, (Prod.mk.inj htaken).2.symm⟩
      · exact ⟨_, .backtick, (Prod.mk.inj htaken).2.symm⟩
  | bracket =>
      obtain ⟨rfl, hd⟩ := hfits
      exact ⟨_, .bracket hd, (Prod.mk.inj htaken).2.symm⟩
  | dollar =>
      rcases dollarSize_kind cs with hkind | hkind <;> rw [Opening.taken, hkind] at htaken <;>
        cases htaken
  | blank | line | block | single | number | letter | word | pair | sign => cases htaken

theorem head_of_quotation {body : List Char} (h : Quotation d last (c :: body) s) :
    ∃ kind, head d last c (body ++ s) = (some kind, body.length) ∧
      (kind = .string ∨ kind = .quoted) := by
  generalize hrun : c :: body = run at h
  cases h with
  | quote hq h =>
      cases hrun
      obtain ⟨hclose, kind, hhead, hkind⟩ := head_of_marks hq (body ++ s)
      rw [quotedSize, Text.quotedSize_of_quoteTail hclose h, Option.getD_some] at hhead
      exact ⟨kind, hhead, hkind⟩
  | @dollar tag inner _ hd htag hfirst =>
      have hs : c :: (body ++ s) = tag ++ (inner ++ (tag ++ s)) := by
        rw [← List.cons_append, hrun]
        simp
      have hlen := congrArg List.length hrun
      simp only [List.length_cons, List.length_append] at hlen
      obtain rfl : c = '$' := by
        obtain ⟨name, rfl, -⟩ := htag
        exact (List.cons.inj hrun).1
      refine ⟨.string, ?_, .inl rfl⟩
      rw [head_of_dollar hd, dollarSize_of_tag htag hfirst hs]
      congr 1
      omega

def Passes (p : Char → Bool) (c : Char) : Prop :=
  p = isWordChar ∧ isWordChar c = true ∨
    p '$' = false ∧ (∀ e, p e = true → Piece.isWordChar e = true ∨ e = '.') ∧
      (Piece.isWordChar c = true ∨ c = '.')

theorem Passes.next {p : Char → Bool} {e : Char} (h : Passes p c) (he : p e = true) :
    Passes p e := by
  rcases h with ⟨rfl, -⟩ | ⟨hdollar, hp, -⟩
  · exact .inl ⟨rfl, he⟩
  · exact .inr ⟨hdollar, hp, hp e he⟩

theorem Parts.dropWhile {p : Char → Bool}
    (hp : ['\'', '"', '\x60', '['].all (fun q => !p q) = true)
    (pre : List Char) (hpre : Passes p c) (h : Parts d (some c) s runs) :
    Parts d (pre ++ c :: s.takeWhile p).getLast? (s.dropWhile p) runs := by
  generalize hlast : some c = last at h
  induction h generalizing c pre with
  | nil =>
      subst hlast
      simpa using Parts.nil
  | @char last e s runs hc h ih =>
      subst hlast
      by_cases he : p e = true
      · have hrest := ih (pre ++ [c]) (hpre.next he) rfl
        rw [List.append_assoc] at hrest
        rwa [List.takeWhile_cons_of_pos he, List.dropWhile_cons_of_pos he]
      · rw [List.takeWhile_cons_of_neg he, List.dropWhile_cons_of_neg he, List.getLast?_concat]
        exact .char hc h
  | @word last e w s runs hl hstart hspace hw h ih =>
      subst hlast
      rcases hpre with ⟨rfl, hpre⟩ | ⟨-, -, hpre⟩
      · have hall : ∀ x ∈ e :: w, isWordChar x = true :=
          List.forall_mem_cons.2 ⟨isWordChar_of_isWordStart hstart,
            fun x hx => isWordChar_of_piece (hw x hx)⟩
        obtain h' | ⟨init, z, hz⟩ := List.eq_nil_or_concat (e :: w)
        · cases h'
        rw [List.concat_eq_append] at hz
        have hlast : some z = (e :: w).getLast? := by rw [hz, List.getLast?_concat]
        have hrest := ih (pre ++ c :: init)
          (.inl ⟨rfl, hall z (hz ▸ List.mem_concat_self)⟩) hlast
        rw [← List.cons_append, List.takeWhile_append_of_pos hall,
          List.dropWhile_append_of_pos hall, hz]
        simpa using hrest
      · obtain ⟨hword, hdot⟩ := hl c rfl
        rcases hpre with hpre | hpre
        · rw [hword] at hpre
          cases hpre
        · exact absurd hpre hdot
  | @quotation last run s runs hl hq h ih =>
      subst hlast
      obtain ⟨q, body, rfl, hmem⟩ := hq.exists_cons
      have hq' : ¬ p q = true := by
        intro hpq
        by_cases hq' : q = '$'
        · subst hq'
          rcases hpre with ⟨-, hword⟩ | ⟨hdollar, -⟩
          · rw [hl rfl c rfl] at hword
            cases hword
          · rw [hdollar] at hpq
            cases hpq
        · have hmem' : q ∈ ['\'', '"', '\x60', '['] := by
            simpa [hq'] using hmem
          have hnot := List.all_eq_true.1 hp q hmem'
          rw [hpq] at hnot
          cases hnot
      rw [List.cons_append, List.takeWhile_cons_of_neg hq', List.dropWhile_cons_of_neg hq',
        List.getLast?_concat]
      exact .quotation hl hq h

theorem quotations_lexFrom_of_not {body rest : List Char} {kind : Option TokenKind}
    (h : head d last c (body ++ rest) = (kind, body.length))
    (hkind : kind ≠ some .string ∧ kind ≠ some .quoted) (gap : List Char) :
    ∃ gap', quotations (lexFrom d last gap (c :: (body ++ rest))).1 =
      quotations (lexFrom d (c :: body).getLast? gap' rest).1 := by
  rw [lexFrom, h]
  simp only [List.take_left, List.drop_left]
  cases kind with
  | none => exact ⟨_, rfl⟩
  | some kind =>
      refine ⟨[], ?_⟩
      cases kind with
      | string => exact absurd rfl hkind.1
      | quoted => exact absurd rfl hkind.2
      | word | number | symbol => rfl

theorem quotations_lexFrom_of_quotation {body rest : List Char} {kind : TokenKind}
    (h : head d last c (body ++ rest) = (some kind, body.length))
    (hkind : kind = .string ∨ kind = .quoted) (gap : List Char) :
    quotations (lexFrom d last gap (c :: (body ++ rest))).1 =
      (c :: body) :: quotations (lexFrom d (c :: body).getLast? [] rest).1 := by
  rw [lexFrom, h]
  simp only [List.take_left, List.drop_left]
  rcases hkind with rfl | rfl <;> rfl

/-- Past what the lexer takes in after a character that opens nothing. -/
theorem Parts.exists_rest {n : Nat} (h : Parts d (some c) s runs)
    (hn : n = 0 ∨
      isWordChar c = true ∧ n = (s.takeWhile isWordChar).length ∨
      (c = '.' ∨ c.isDigit = true) ∧
        n = (s.takeWhile (fun e => e.isAlphanum || e == '.')).length ∨
      c = '$' ∧ n = (s.takeWhile Char.isDigit).length ∨
      n = 1 ∧ ∃ e, s.head? = some e ∧ e ∈ [':', '=', '>', '|']) :
    ∃ body rest, s = body ++ rest ∧ n = body.length ∧ Parts d (c :: body).getLast? rest runs := by
  rcases hn with rfl | ⟨hc, rfl⟩ | ⟨hc, rfl⟩ | ⟨rfl, rfl⟩ | ⟨rfl, e, hhead, he⟩
  · exact ⟨[], s, rfl, rfl, h⟩
  · exact ⟨_, _, List.takeWhile_append_dropWhile.symm, rfl,
      h.dropWhile (by decide) [] (.inl ⟨rfl, hc⟩)⟩
  · refine ⟨_, _, List.takeWhile_append_dropWhile.symm, rfl,
      h.dropWhile (by decide) [] (.inr ⟨by decide, fun e he => ?_, ?_⟩)⟩
    · rw [Bool.or_eq_true, beq_iff_eq] at he
      exact he.imp_left isWordChar_of_isAlphanum
    · exact hc.symm.imp_left (fun hc => isWordChar_of_isAlphanum (isAlphanum_of_isDigit hc))
  · refine ⟨_, _, List.takeWhile_append_dropWhile.symm, rfl,
      h.dropWhile (by decide) [] (.inr ⟨by decide, fun e he => ?_, .inl (by decide)⟩)⟩
    exact .inl (isWordChar_of_isAlphanum (isAlphanum_of_isDigit he))
  · obtain ⟨s, rfl⟩ := List.head?_eq_some_iff.1 hhead
    have hnot : [':', '=', '>', '|'].all (fun e => !Piece.isWordStart e &&
        !(['\'', '"', '\x60', '[', '$'].contains e)) = true := by decide
    obtain ⟨hword, hquote⟩ := Bool.and_eq_true_iff.1 (List.all_eq_true.1 hnot e he)
    rw [Bool.not_eq_true'] at hword hquote
    refine ⟨[e], s, rfl, rfl, ?_⟩
    generalize ht : e :: s = t at h
    cases h with
    | nil => cases ht
    | char hc h =>
        cases ht
        exact h
    | word hl hstart =>
        cases ht
        rw [hword] at hstart
        cases hstart
    | quotation hl hq h =>
        obtain ⟨q, body, rfl, hmem⟩ := hq.exists_cons
        cases ht
        rw [List.contains_iff_mem.2 hmem] at hquote
        cases hquote

theorem Parts.quotations_eq (h : Parts d last s runs) (gap : List Char) :
    quotations (lexFrom d last gap s).1 = runs := by
  induction hn : s.length using Nat.strong_induction_on generalizing last s runs gap with
  | h n ih =>
  subst hn
  cases h with
  | nil => simp [lexFrom, quotations]
  | @char _ c s runs hc h =>
      obtain ⟨kind, n, hhead⟩ : ∃ kind n, head d last c s = (kind, n) := ⟨_, _, rfl⟩
      obtain ⟨hkind, hn⟩ := head_of_not_opens hc hhead
      obtain ⟨body, rest, rfl, rfl, hrest⟩ := h.exists_rest hn
      obtain ⟨gap', hgap⟩ := quotations_lexFrom_of_not hhead hkind gap
      rw [hgap]
      refine ih rest.length ?_ hrest gap' rfl
      simp only [List.length_cons, List.length_append]
      omega
  | @word _ c w s runs hlast hstart hspace hw h =>
      have hall : ∀ x ∈ w, isWordChar x = true := fun x hx => isWordChar_of_piece (hw x hx)
      rcases head_of_isWordStart hstart last (w ++ s) with ⟨hhead, hquote⟩ | hhead
      · have hnil : w = [] := by
          cases w with
          | nil => rfl
          | cons x w =>
              obtain rfl : x = '\'' := by simpa using hquote
              exact absurd (hall _ List.mem_cons_self) (by decide)
        subst hnil
        have hhead : head d last c ([] ++ s) = (none, ([] : List Char).length) := hhead
        obtain ⟨gap', hgap⟩ := quotations_lexFrom_of_not hhead ⟨by decide, by decide⟩ gap
        rw [hgap]
        exact ih s.length (by simp) h gap' rfl
      · rw [List.takeWhile_append_of_pos hall] at hhead
        have hs : w ++ s = w ++ s.takeWhile isWordChar ++ s.dropWhile isWordChar := by
          rw [List.append_assoc, List.takeWhile_append_dropWhile]
        have hrest : Parts d (c :: (w ++ s.takeWhile isWordChar)).getLast?
            (s.dropWhile isWordChar) runs := by
          obtain h' | ⟨init, z, hz⟩ := List.eq_nil_or_concat (c :: w)
          · cases h'
          rw [List.concat_eq_append] at hz
          have hword : isWordChar z = true := by
            have hz' : z ∈ c :: w := hz ▸ List.mem_concat_self
            rcases List.mem_cons.1 hz' with rfl | hz'
            · exact isWordChar_of_isWordStart hstart
            · exact hall z hz'
          rw [hz, List.getLast?_concat] at h
          have hrest := h.dropWhile (by decide) init (.inl ⟨rfl, hword⟩)
          rwa [List.append_cons, ← hz] at hrest
        rw [hs] at hhead ⊢
        obtain ⟨gap', hgap⟩ := quotations_lexFrom_of_not hhead ⟨by decide, by decide⟩ gap
        rw [hgap]
        refine ih _ ?_ hrest gap' rfl
        have := (List.dropWhile_sublist isWordChar (l := s)).length_le
        simp only [List.length_cons, List.length_append]
        omega
  | @quotation _ run s runs hlast hq h =>
      obtain ⟨q, body, rfl, -⟩ := hq.exists_cons
      obtain ⟨kind, hhead, hkind⟩ := head_of_quotation hq
      rw [List.cons_append, quotations_lexFrom_of_quotation hhead hkind]
      rw [ih s.length (by simp only [List.length_cons, List.length_append]; omega) h [] rfl]

inductive Opener (d : Dialect) : List Char → Prop
  | single : Opener d ['\'']
  | double : Opener d ['"']
  | backtick : Opener d ['\x60']
  | bracket (hd : d.bracketIdentifiers = true) : Opener d ['[']
  | tag {tag : List Char} (hd : d.dollarQuotes = true) (h : IsTag tag) : Opener d tag
  | line : Opener d ['-', '-']
  | block : Opener d ['/', '*']

theorem opensTag_iff :
    opensTag d s = true ↔ d.dollarQuotes = true ∧ ∃ tag, IsTag tag ∧ tag <+: s := by
  rw [opensTag, Bool.and_eq_true, Bool.and_eq_true, beq_iff_eq, Option.isSome_iff_exists]
  constructor
  · rintro ⟨⟨hhead, hd⟩, n, hn⟩
    obtain ⟨s, rfl⟩ := List.head?_eq_some_iff.1 hhead
    obtain ⟨tag, rest, hs, -, htag⟩ := Text.dollarTagSize_eq_some_iff.1 hn
    exact ⟨hd, tag, htag, rest, hs.symm⟩
  · rintro ⟨hd, tag, htag, rest, rfl⟩
    obtain ⟨name, hname⟩ : ∃ name, tag = '$' :: name := by
      obtain ⟨name, rfl, -⟩ := htag
      exact ⟨_, rfl⟩
    refine ⟨⟨by rw [hname]; rfl, hd⟩, tag.length, ?_⟩
    rw [hname, List.cons_append, Text.dollarTagSize_eq_some_iff, ← hname]
    exact ⟨tag, rest, by rw [hname]; rfl, rfl, htag⟩

theorem opens_iff : opens d s = true ↔ ∃ p, Opener d p ∧ p <+: s := by
  cases s with
  | nil =>
      constructor
      · exact nofun
      · rintro ⟨p, hp, hs⟩
        obtain rfl := List.prefix_nil.1 hs
        cases hp with
        | tag hd h => exact absurd rfl (ne_nil_of_isTag h)
  | cons c s =>
      simp only [opens, Bool.or_eq_true, Bool.and_eq_true, beq_iff_eq, opensTag_iff]
      constructor
      · rintro (((((rfl | rfl | rfl) | ⟨rfl, hd⟩) | ⟨hd, tag, htag, hs⟩) | ⟨rfl, hs⟩) | ⟨rfl, hs⟩)
        · exact ⟨_, .single, s, rfl⟩
        · exact ⟨_, .double, s, rfl⟩
        · exact ⟨_, .backtick, s, rfl⟩
        · exact ⟨_, .bracket hd, s, rfl⟩
        · exact ⟨tag, .tag hd htag, hs⟩
        · obtain ⟨s, rfl⟩ := List.head?_eq_some_iff.1 hs
          exact ⟨_, .line, s, rfl⟩
        · obtain ⟨s, rfl⟩ := List.head?_eq_some_iff.1 hs
          exact ⟨_, .block, s, rfl⟩
      · rintro ⟨p, hp, hs⟩
        cases hp with
        | tag hd h => exact .inl (.inl (.inr ⟨hd, _, h, hs⟩))
        | single => exact .inl (.inl (.inl (.inl (.inl (List.cons_prefix_cons.1 hs).1.symm))))
        | double =>
            exact .inl (.inl (.inl (.inl (.inr (.inl (List.cons_prefix_cons.1 hs).1.symm)))))
        | backtick =>
            exact .inl (.inl (.inl (.inl (.inr (.inr (List.cons_prefix_cons.1 hs).1.symm)))))
        | bracket hd => exact .inl (.inl (.inl (.inr ⟨(List.cons_prefix_cons.1 hs).1.symm, hd⟩)))
        | line =>
            obtain ⟨rfl, t, rfl⟩ := List.cons_prefix_cons.1 hs
            exact .inl (.inr ⟨rfl, rfl⟩)
        | block =>
            obtain ⟨rfl, t, rfl⟩ := List.cons_prefix_cons.1 hs
            exact .inr ⟨rfl, rfl⟩

theorem opens_eq_false_iff : opens d s = false ↔ ∀ p, Opener d p → ¬ p <+: s := by
  rw [← Bool.not_eq_true, opens_iff, not_exists]
  exact forall_congr' fun p => not_and

theorem opens_append {t : List Char} (h : opens d (s ++ t) = false) : opens d s = false := by
  rw [opens_eq_false_iff] at h ⊢
  exact fun p hp hs => h p hp (hs.trans (List.prefix_append s t))

theorem Opener.not_mem {p : List Char} (h : Opener d p) : ' ' ∉ p := by
  cases h with
  | tag hd h =>
      obtain ⟨name, rfl, hname, -⟩ := h
      intro hmem
      rcases List.mem_cons.1 hmem with hmem | hmem
      · cases hmem
      rcases List.mem_append.1 hmem with hmem | hmem
      · exact absurd (hname _ hmem) (by decide)
      · exact absurd hmem (by decide)
  | single | double | backtick | bracket | line | block => decide

theorem opens_eq_false_of_head (hc : c ∉ ['\'', '"', '\x60', '[', '$', '-', '/']) (s : List Char) :
    opens d (c :: s) = false := by
  rw [opens_eq_false_iff]
  intro p hp hs
  cases hp with
  | tag hd h =>
      obtain ⟨name, rfl, -⟩ := h
      obtain rfl := (List.cons_prefix_cons.1 hs).1
      exact hc (by decide)
  | single | double | backtick | bracket | line | block =>
      obtain rfl := (List.cons_prefix_cons.1 hs).1
      exact hc (by decide)

theorem Parts.chars {run : List Char} (hrun : ∀ k < run.length, opens d ((run ++ s).drop k) = false)
    (h : Parts d (run.getLast?.or last) s runs) : Parts d last (run ++ s) runs := by
  induction run generalizing last with
  | nil => exact h
  | cons c run ih =>
      refine .char (hrun 0 (Nat.zero_lt_succ _)) (ih (fun k hk => ?_) ?_)
      · exact hrun (k + 1) (Nat.succ_lt_succ hk)
      · rw [List.getLast?_cons] at h
        cases hlast : run.getLast? <;> simpa [hlast] using h

theorem Quotation.exists_concat {run : List Char} (h : Quotation d last run s) :
    ∃ init q, run = init ++ [q] ∧ Text.isSpace q = false := by
  cases h with
  | @quote c close backslash body _ hq h =>
      have hspace : Text.isSpace close = false := by cases hq <;> decide
      obtain ⟨init, rfl⟩ := h.exists_concat
      exact ⟨c :: init, close, rfl, hspace⟩
  | @dollar tag body _ hd htag =>
      obtain ⟨name, rfl, -⟩ := htag
      exact ⟨'$' :: (name ++ ['$']) ++ (body ++ '$' :: name), '$', by simp, by decide⟩

theorem Quotation.of_append {run t : List Char} (h : Quotation d last run (s ++ t)) :
    Quotation d last run s := by
  cases h with
  | quote hq h =>
      refine .quote hq (h.of_head? ?_)
      intro hs
      obtain ⟨s, rfl⟩ := List.head?_eq_some_iff.1 hs
      rfl
  | dollar hd htag hfirst => exact .dollar hd htag hfirst

theorem Parts.eq_nil_of_isSpace (h : Parts d last s runs) (hs : ∀ x ∈ s, Text.isSpace x = true) :
    runs = [] := by
  induction h with
  | nil => rfl
  | char hc h ih => exact ih (fun x hx => hs x (List.mem_cons_of_mem _ hx))
  | word hl hstart hspace hw h ih =>
      rw [hs _ List.mem_cons_self] at hspace
      cases hspace
  | quotation hl hq h ih =>
      obtain ⟨init, q, rfl, hspace⟩ := hq.exists_concat
      rw [hs q (by simp)] at hspace
      cases hspace

theorem Parts.of_append_isSpace {t : List Char} (h : Parts d last (s ++ t) runs)
    (ht : ∀ x ∈ t, Text.isSpace x = true) : Parts d last s runs := by
  generalize hu : s ++ t = u at h
  induction h generalizing s with
  | nil =>
      obtain ⟨rfl, rfl⟩ := List.append_eq_nil_iff.1 hu
      exact .nil
  | @char last c u runs hc h ih =>
      cases s with
      | nil =>
          have hall : Parts d last (c :: u) runs := .char hc h
          obtain rfl := hall.eq_nil_of_isSpace (hu ▸ ht)
          exact .nil
      | cons e s =>
          rw [List.cons_append] at hu
          obtain ⟨rfl, rfl⟩ := List.cons.inj hu
          rw [← List.cons_append] at hc
          exact .char (opens_append hc) (ih rfl)
  | @word last c w u runs hl hstart hspace hw h ih =>
      cases s with
      | nil =>
          obtain rfl := (Parts.word hl hstart hspace hw h).eq_nil_of_isSpace (hu ▸ ht)
          exact .nil
      | cons e s =>
          obtain ⟨rfl, hs⟩ := List.cons.inj hu
          rcases List.append_eq_append_iff.1 hs with ⟨a, hw', ht'⟩ | ⟨a, hs', hu'⟩
          · subst hw'
            obtain rfl := h.eq_nil_of_isSpace (fun x hx => ht x (by simp [ht', hx]))
            have hnil := Parts.word (w := s) (d := d) hl hstart hspace
              (fun x hx => hw x (List.mem_append_left _ hx)) .nil
            rwa [List.append_nil] at hnil
          · subst hs'
            exact .word hl hstart hspace hw (ih hu'.symm)
  | @quotation last run u runs hl hq h ih =>
      rcases List.append_eq_append_iff.1 hu with ⟨a, hrun, ht'⟩ | ⟨a, hs', hu'⟩
      · have hnil : a = [] := by
          obtain rfl | ⟨init', z, rfl⟩ := List.eq_nil_or_concat a
          · rfl
          obtain ⟨init, q, hrun', hspace⟩ := hq.exists_concat
          rw [hrun', List.concat_eq_append, ← List.append_assoc] at hrun
          obtain rfl := List.singleton_inj.1 (List.append_inj_right' hrun rfl)
          rw [ht q (by simp [ht'])] at hspace
          cases hspace
        subst hnil
        rw [List.append_nil] at hrun
        rw [List.nil_append] at ht'
        subst hrun ht'
        obtain rfl := h.eq_nil_of_isSpace ht
        have hrun := Parts.quotation hl (hq.of_append (s := [])) .nil
        rwa [List.append_nil] at hrun
      · subst hs' hu'
        exact .quotation hl hq.of_append (ih rfl)

theorem Parts.of_isSpace (h : Parts d (some c) s runs) (hc : Text.isSpace c = true) :
    Parts d none s runs := by
  cases h with
  | nil => exact .nil
  | char hc h => exact .char hc h
  | word hl hstart hspace hw h => exact .word nofun hstart hspace hw h
  | quotation hl hq h =>
      refine .quotation (fun _ => nofun) ?_ h
      cases hq with
      | dollar hd htag hfirst => exact .dollar hd htag hfirst
      | quote hq h =>
          cases hq with
          | single =>
              have hne {e : Char} (he : Text.isSpace e = false) : (some c == some e) = false :=
                beq_eq_false_iff_ne.2 (by rintro ⟨⟩; rw [hc] at he; cases he)
              rw [hne (show Text.isSpace 'E' = false by decide),
                hne (show Text.isSpace 'e' = false by decide)] at h
              exact .quote .single h
          | double => exact .quote .double h
          | backtick => exact .quote .backtick h
          | bracket hd => exact .quote (.bracket hd) h

theorem Parts.of_isSpace_append {t : List Char} (h : Parts d none (t ++ s) runs)
    (ht : ∀ x ∈ t, Text.isSpace x = true) : Parts d none s runs := by
  induction t with
  | nil => exact h
  | cons c t ih =>
      obtain ⟨hc, ht⟩ := List.forall_mem_cons.1 ht
      refine ih ?_ ht
      generalize hu : c :: t ++ s = u at h
      cases h with
      | nil => cases hu
      | char hopen h =>
          obtain ⟨rfl, rfl⟩ := List.cons.inj hu
          exact h.of_isSpace hc
      | word hl hstart hspace =>
          obtain ⟨rfl, -⟩ := List.cons.inj hu
          rw [hc] at hspace
          cases hspace
      | quotation hl hq =>
          obtain ⟨q, body, rfl, hmem⟩ := hq.exists_cons
          obtain ⟨rfl, -⟩ := List.cons.inj hu
          have hnot : ['\'', '"', '\x60', '[', '$'].all (fun q => !Text.isSpace q) = true := by
            decide
          have hspace := List.all_eq_true.1 hnot c hmem
          rw [hc] at hspace
          cases hspace

/-- White space around a text holds no quoted run. -/
theorem Parts.trim (h : Parts d none s runs) : Parts d none (Text.trim s) runs := by
  have hstart : Parts d none (Text.trimStart s) runs := by
    rw [← List.takeWhile_append_dropWhile (p := Text.isSpace) (l := s)] at h
    exact h.of_isSpace_append (fun x hx => List.mem_takeWhile_imp hx)
  have hend : Text.trimStart s = Text.trim s ++
      ((Text.trimStart s).reverse.takeWhile Text.isSpace).reverse := by
    rw [Text.trim, Text.trimEnd, ← List.reverse_append, List.takeWhile_append_dropWhile,
      List.reverse_reverse]
  rw [hend] at hstart
  exact hstart.of_append_isSpace
    (fun x hx => List.mem_takeWhile_imp (List.mem_reverse.1 hx))

end Token

end SchemaDrift
