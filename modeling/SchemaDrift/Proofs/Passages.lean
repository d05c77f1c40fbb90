import SchemaDrift.Proofs.Lossless
import SchemaDrift.Proofs.QuotedTokens

namespace SchemaDrift

namespace Piece

variable {d : Dialect} {δ : Delimiter} {behind cs : List Char} {c : Char} {p : Piece} {n : Nat}

/-- Where there are dollar quotes, nothing sets the delimiter. -/
theorem sets_eq_none_of_next {started : Bool} (hd : d.dollarQuotes = true)
    (h : next d δ started behind c cs = .ok (p, n)) : p.sets = none := by
  obtain ⟨run, rest, -, -, hform⟩ := next_spec h
  obtain rfl : d = .postgres := beq_iff_eq.1 hd
  cases p with
  | comment sets =>
      cases hform with
      | line | hash | block => rfl
  | directive sets =>
      cases hform.2 with
      | delimiter hd => cases hd
  | blank | delimiter | quoted | word | mark => rfl

end Piece

/-- A step of reading. The run is passed after `behind`, backwards, and before `rest`. `started`
tells whether a statement has begun. -/
structure Passage where
  piece : Piece
  started : Bool
  behind : List Char
  run : List Char
  rest : List Char

namespace Passage

def text (p : Passage) : List Char :=
  match p.piece with
  | .quoted | .word | .mark => p.run
  | .blank | .delimiter => if p.started then p.run else []
  | .comment _ => if p.started then [' '] else []
  | .directive _ => []

def isQuoted (p : Passage) : Bool := p.piece == .quoted

def sameEscapes (d : Dialect) (p : Passage) : Bool :=
  endsEitherWay p.run ||
    match p.run.head? with
    | some '"' => !d.backslashEscapes
    | some '\'' =>
        d.backslashEscapes ||
          (p.started && (p.behind.head? == some 'E' || p.behind.head? == some 'e')) ==
            Piece.followsEscapePrefix p.behind
    | _ => true

/-- What both scanners take for the same. A dollar quote must not look like part of a word, nor a
tag in a word like the start of a quote, and a delimiter that is passed over must not hold one. -/
def plain (d : Dialect) (p : Passage) : Bool :=
  match p.piece with
  | .quoted =>
      p.sameEscapes d &&
        !(p.run.head? == some '$' && (p.behind.head?.map Token.isWordChar).getD false)
  | .word =>
      !(List.range p.run.length).any (fun k => Token.opensTag d (p.run.drop k)) ||
        !(p.behind.head? == some '.') && !(p.run.head?.map Text.isSpace).getD false
  | .delimiter =>
      !p.started ||
        (List.range p.run.length).all (fun k => !Token.opens d ((p.run ++ p.rest).drop k))
  | _ => true

end Passage

def quotedRuns (ps : List Passage) : List (List Char) :=
  (ps.filter Passage.isQuoted).map Passage.run

namespace Statement

def passages (d : Dialect) (here : Spot) (δ : Delimiter) (r : Draft) : List Passage :=
  match _hs : here.ahead with
  | [] => []
  | c :: cs =>
      match _hp : Piece.next d δ r.start.isSome here.behind c cs with
      | .error _ => []
      | .ok (piece, n) =>
          match _ha : accept here δ r n piece with
          | .stop _ _ => []
          | .go there δ' r' =>
              ⟨piece, r.start.isSome, here.behind, here.upTo there, there.ahead⟩ ::
                passages d there δ' r'
termination_by here.ahead.length
decreasing_by
  obtain ⟨⟨m, hm, rfl⟩, -⟩ := accept_eq_go _ha
  have := Piece.next_pos _hp
  rw [Spot.ahead_advance, List.length_drop, _hs, List.length_cons]
  omega

variable {d : Dialect} {here there : Spot} {δ δ' : Delimiter} {r r' : Draft}

theorem passages_of_stop {item : Option Item} {rest : Splitter}
    (h : turn d here δ r = .stop item rest) : passages d here δ r = [] := by
  rw [passages]
  unfold turn at h
  split
  · rfl
  · next c cs hs =>
      simp only [hs] at h
      split
      · rfl
      · next piece n hp =>
          simp only [hp] at h
          rw [h]

theorem passages_of_go {c : Char} {cs : List Char} {piece : Piece} {n : Nat}
    (hs : here.ahead = c :: cs)
    (hp : Piece.next d δ r.start.isSome here.behind c cs = .ok (piece, n))
    (ha : accept here δ r n piece = .go there δ' r') :
    passages d here δ r =
      ⟨piece, r.start.isSome, here.behind, here.upTo there, there.ahead⟩ ::
        passages d there δ' r' := by
  rw [passages]
  split
  · next hs' =>
      rw [hs] at hs'
      cases hs'
  next c' cs' hs' =>
  obtain ⟨rfl, rfl⟩ := List.cons.inj (hs.symm.trans hs')
  split
  · next hp' =>
      rw [hp] at hp'
      cases hp'
  next piece' n' hp' =>
  rw [hp] at hp'
  cases hp'
  split
  · next ha' =>
      rw [ha] at ha'
      cases ha'
  · next ha' =>
      rw [ha] at ha'
      cases ha'
      rfl

theorem statement_of_stop {st : Statement} {rest : Splitter}
    (h : turn d here δ r = .stop (some (.ok st)) rest) :
    r.start.isSome = true ∧ st.text = String.ofList (Text.trim r.text.reverse) := by
  unfold turn at h
  split at h
  · obtain ⟨hitem, -⟩ := Turn.stop.inj h
    unfold finish at hitem
    split at hitem
    · cases hitem
    next start hstart =>
    split at hitem
    · cases hitem
      exact ⟨by rw [hstart]; rfl, rfl⟩
    split at hitem
    · cases hitem
    · cases hitem
  · split at h
    · cases h
    · obtain ⟨-, -, -, start, hstart, hitem⟩ := accept_eq_stop h
      cases hitem
      exact ⟨by rw [hstart]; rfl, rfl⟩

/-- Taking a passage in. -/
theorem text_of_go {piece : Piece} {n : Nat} (h : accept here δ r n piece = .go there δ' r')
    (hr : r.start = none → r.text = []) :
    r'.text.reverse = r.text.reverse ++
        Passage.text ⟨piece, r.start.isSome, here.behind, here.upTo there, there.ahead⟩ ∧
      (r'.start = none → r'.text = []) := by
  obtain ⟨start, text, depth, lastWord, wordBefore, fallback⟩ := r
  dsimp only at hr
  cases piece with
  | blank =>
      cases h
      cases start <;> simp_all [Draft.filler, Passage.text, Spot.upTo_advance]
  | comment sets =>
      cases h
      cases start <;> simp_all [Draft.filler, Passage.text]
  | directive sets =>
      cases h
      simp_all [Passage.text]
  | quoted | mark =>
      cases h
      cases start <;> simp_all [Draft.code, Passage.text, Spot.upTo_advance]
  | word =>
      cases h
      cases start <;> simp_all [Draft.word, Draft.code, Passage.text, Spot.upTo_advance]
  | delimiter =>
      obtain ⟨rfl, rfl, ⟨hstart, rfl⟩ | rfl⟩ := accept_delimiter_eq_go h
      · simp_all [Passage.text]
      · cases start <;> simp_all [Draft.pass, Draft.filler, Passage.text, Spot.upTo_advance]

/-- The statement is what the passages keep, trimmed. -/
theorem Reads.text_eq {item : Option Item} {rest : Splitter} (h : Reads d here δ r item rest)
    (hr : r.start = none → r.text = []) {st : Statement} (hitem : item = some (.ok st)) :
    st.text = String.ofList
      (Text.trim (r.text.reverse ++ (passages d here δ r).flatMap Passage.text)) := by
  induction h with
  | stop h =>
      subst hitem
      rw [passages_of_stop h, List.flatMap_nil, List.append_nil]
      exact (statement_of_stop h).2
  | go h t ih =>
      obtain ⟨c, cs, piece, n, hs, hp, ha⟩ := exists_piece_of_go h
      obtain ⟨htext, hr'⟩ := text_of_go ha hr
      rw [ih hr' hitem, passages_of_go hs hp ha, List.flatMap_cons, htext, List.append_assoc]

theorem prefix_append_mono {q u t v : List Char} (h : q <+: u ++ t)
    (htv : ∀ q', q' <:+ q → q' <+: t → q' <+: v) : q <+: u ++ v := by
  obtain ⟨rest, hrest⟩ := h
  rcases List.append_eq_append_iff.1 hrest with ⟨a, rfl, -⟩ | ⟨a, rfl, rfl⟩
  · exact ⟨a ++ v, by rw [List.append_assoc]⟩
  · exact (List.prefix_append_right_inj u).2 (htv a (List.suffix_append u a) ⟨rest, rfl⟩)

theorem ahead_eq_of_go {piece : Piece} {n : Nat} (h : accept here δ r n piece = .go there δ' r') :
    here.ahead = here.upTo there ++ there.ahead := by
  obtain ⟨⟨m, -, rfl⟩, -⟩ := accept_eq_go h
  rw [Spot.upTo_advance, Spot.ahead_advance, List.take_append_drop]

/-- As far as it goes without a blank, what the passages keep stands in the script as it is. -/
theorem Reads.prefix_of_text {item : Option Item} {rest : Splitter} (h : Reads d here δ r item rest)
    (hr : r.start.isSome = true) {q : List Char} (hq : ' ' ∉ q)
    (hpre : q <+: (passages d here δ r).flatMap Passage.text) : q <+: here.ahead := by
  induction h generalizing q with
  | stop h =>
      rw [passages_of_stop h, List.flatMap_nil, List.prefix_nil] at hpre
      subst hpre
      exact List.nil_prefix
  | @go here there δ δ' r r' _ _ h t ih =>
      obtain ⟨c, cs, piece, n, hs, hp, ha⟩ := exists_piece_of_go h
      obtain ⟨start, hstart⟩ := Option.isSome_iff_exists.1 hr
      obtain ⟨-, -, hkeeps⟩ := accept_eq_go ha
      have hr' : r'.start.isSome = true := by rw [hkeeps start hstart]; rfl
      rw [passages_of_go hs hp ha, List.flatMap_cons, hr] at hpre
      rw [ahead_eq_of_go ha]
      have hrun (hpre : q <+: here.upTo there ++
          (passages d there δ' r').flatMap Passage.text) : q <+: here.upTo there ++ there.ahead :=
        prefix_append_mono hpre
          (fun q' hq' => ih hr' (fun hmem => hq (hq'.subset hmem)))
      cases piece with
      | blank | delimiter | quoted | word | mark => exact hrun hpre
      | comment sets =>
          cases q with
          | nil => exact List.nil_prefix
          | cons a q =>
              obtain rfl : a = ' ' := (List.cons_prefix_cons.1 hpre).1
              exact absurd List.mem_cons_self hq
      | directive sets =>
          obtain ⟨run, rest, -, -, hstarted, -⟩ := Piece.next_spec hp
          rw [hr] at hstarted
          cases hstarted

structure Beside (d : Dialect) (here : Spot) (δ : Delimiter) (r : Draft) (last : Option Char) :
    Prop where
  delimiter : d.dollarQuotes = true → δ = .semicolon
  unstarted : r.start = none → last = none
  started : r.start.isSome = true → last = here.behind.head? ∨
    last = some ' ' ∧ (here.behind.head? = some '/' ∨ EndsLine here.ahead)

theorem commentTail_exists_concat {depth : Nat} {body : List Char} (h : CommentTail depth body) :
    ∃ init, body = init ++ ['/'] := by
  induction h with
  | close => exact ⟨['*'], rfl⟩
  | inner h ih | opener h ih =>
      obtain ⟨init, rfl⟩ := ih
      exact ⟨_ :: _ :: init, rfl⟩
  | plain _ _ h ih =>
      obtain ⟨init, rfl⟩ := ih
      exact ⟨_ :: init, rfl⟩

theorem comment_end {run rest : List Char} {sets : Option Delimiter} (h : Comment d run rest sets) :
    run.getLast? = some '/' ∨ EndsLine rest := by
  cases h with
  | line hbody hrest => exact .inr hrest
  | hash hd hbody hrest => exact .inr hrest
  | block h =>
      obtain ⟨init, rfl⟩ := commentTail_exists_concat h
      exact .inl (by rw [← List.cons_append, ← List.cons_append, List.getLast?_concat])

/-- Quotes and comments of the lexer are among those of the splitter. -/
theorem not_opens {behind s : List Char} (hcomment : ¬ StartsComment d s)
    (hquote : ∀ what, ¬ StartsQuote d behind s what) : Token.opens d s = false := by
  rw [Token.opens_eq_false_iff]
  rintro p hp ⟨rest, rfl⟩
  cases hp with
  | single => exact hquote _ (.quote .single)
  | double => exact hquote _ (.quote .double)
  | backtick => exact hquote _ (.quote .backtick)
  | bracket hd => exact hquote _ (.quote (.bracket hd))
  | tag hd h => exact hquote _ (.dollar hd h)
  | line => exact hcomment (.inl ⟨rest, rfl⟩)
  | block => exact hcomment (.inr (.inl ⟨rest, rfl⟩))

theorem opens_of_ahead {u t v : List Char} (htv : ∀ q, ' ' ∉ q → q <+: t → q <+: v)
    (h : Token.opens d (u ++ v) = false) : Token.opens d (u ++ t) = false := by
  rw [Token.opens_eq_false_iff] at h ⊢
  intro p hp hpre
  exact h p hp (prefix_append_mono hpre
    (fun q hq => htv q (fun hmem => hp.not_mem (hq.subset hmem))))

theorem quotation_of_quoted {behind run rest t : List Char} {last : Option Char}
    (h : Quoted d behind run rest) (ht : ∀ q, ' ' ∉ q → q <+: t → q <+: rest)
    (hescapes : endsEitherWay run = false →
      (run.head? = some '"' → d.backslashEscapes = false) ∧
      (run.head? = some '\'' → (d.backslashEscapes || last == some 'E' || last == some 'e') =
        (d.backslashEscapes || Piece.followsEscapePrefix behind))) :
    Token.Quotation d last run t := by
  have hhead {close : Char} (hclose : close ≠ ' ') (htail : t.head? = some close) :
      rest.head? = some close := by
    obtain ⟨t, rfl⟩ := List.head?_eq_some_iff.1 htail
    obtain ⟨rest, rfl⟩ := ht [close] (by simpa using hclose.symm) ⟨t, rfl⟩
    rfl
  cases h with
  | @quote c close backslash what body _ hq h =>
      have hflag {backslash' : Bool} (hc : c = close) (hclose : close ≠ '\\')
          (hb : endsEitherWay (c :: body) = false → backslash = backslash') :
          QuoteTail close backslash' body rest := by
        subst hc
        cases hends : endsEitherWay (c :: body) with
        | false => rwa [← hb hends]
        | true => exact h.of_quotedSize hclose (beq_iff_eq.1 hends) backslash'
      cases hq with
      | single =>
          exact .quote .single ((hflag rfl (by decide)
            (fun hends => ((hescapes hends).2 rfl).symm)).of_head? (hhead (by decide)))
      | double =>
          exact .quote .double ((hflag rfl (by decide)
            (fun hends => (hescapes hends).1 rfl)).of_head? (hhead (by decide)))
      | backtick => exact .quote .backtick (h.of_head? (hhead (by decide)))
      | bracket hd => exact .quote (.bracket hd) (h.of_head? (hhead (by decide)))
  | @dollar tag body _ hd htag hfirst =>
      refine .dollar hd htag (fun k hk hpre => hfirst k hk ?_)
      rw [← List.append_assoc, List.drop_append_of_le_length]
      · exact hpre.trans (List.prefix_append _ _)
      · rw [List.length_append]
        omega

theorem prefix_of_boundary {p : Char → Bool} {q u t : List Char} (h : q <+: u ++ t)
    (hq : ∀ x ∈ q, p x = true) (ht : ∀ x ∈ t.head?, p x = false) : q <+: u := by
  obtain ⟨rest, hrest⟩ := h
  rcases List.append_eq_append_iff.1 hrest with ⟨a, rfl, -⟩ | ⟨a, rfl, rfl⟩
  · exact List.prefix_append q a
  · cases a with
    | nil => exact (List.append_nil u).symm ▸ List.prefix_rfl
    | cons x a =>
        have hx := ht x rfl
        rw [hq x (by simp)] at hx
        cases hx

theorem isWordChar_of_isTag {tag : List Char} (h : IsTag tag) :
    ∀ x ∈ tag, Piece.isWordChar x = true := by
  obtain ⟨name, rfl, hname, -⟩ := h
  have hname' : ∀ x ∈ name, Piece.isWordChar x = true := by
    intro x hx
    have := hname x hx
    simp only [Bool.or_eq_true] at this
    rcases this with h | h <;> simp [Piece.isWordChar, h]
  intro x hx
  simp only [List.mem_cons, List.mem_append, List.not_mem_nil, or_false] at hx
  rcases hx with rfl | hx | rfl
  · decide
  · exact hname' x hx
  · decide

/-- In a word only a dollar tag opens something. -/
theorem not_opens_in_word {w rest : List Char} (hw : ∀ x ∈ w, Piece.isWordChar x = true)
    (hrest : d.dollarQuotes = true → ∀ x ∈ rest.head?, Piece.isWordChar x = false)
    (htag : (List.range w.length).any (fun k => Token.opensTag d (w.drop k)) = false) :
    ∀ k < w.length, Token.opens d ((w ++ rest).drop k) = false := by
  intro k hk
  have hdrop : (w ++ rest).drop k = w.drop k ++ rest := List.drop_append_of_le_length hk.le
  have hw' : ∀ x ∈ w.drop k, Piece.isWordChar x = true := fun x hx => hw x (List.mem_of_mem_drop hx)
  have htag' : Token.opensTag d (w.drop k) = false := by
    rw [List.any_eq_false] at htag
    exact Bool.eq_false_iff.2 (htag k (List.mem_range.2 hk))
  obtain ⟨c, cs, hcs⟩ := List.exists_cons_of_ne_nil
    (List.ne_nil_of_length_pos (l := w.drop k) (by rw [List.length_drop]; omega))
  rw [hdrop, Token.opens_eq_false_iff]
  intro p hp hpre
  cases hp with
  | tag hd h =>
      refine Bool.eq_false_iff.1 htag' (Token.opensTag_iff.2 ⟨hd, _, h, ?_⟩)
      exact prefix_of_boundary hpre (isWordChar_of_isTag h) (hrest hd)
  | single | double | backtick | bracket | line | block =>
      rw [hcs] at hpre hw'
      obtain rfl := (List.cons_prefix_cons.1 hpre).1
      exact absurd (hw' _ List.mem_cons_self) (by decide)

theorem toUpper_mem_of_sameWord {w keyword : List Char} (h : Text.sameWord w keyword = true)
    {x : Char} (hx : x ∈ w) : x.toUpper ∈ Text.asciiUpper keyword := by
  rw [← beq_iff_eq.1 h]
  exact List.mem_map_of_mem hx

theorem not_mem_of_isBlank {c : Char} (h : Text.isBlank c = true) :
    c ∉ ['\'', '"', '\x60', '[', '$', '-', '/'] := by
  intro hmem
  have hblank : ['\'', '"', '\x60', '[', '$', '-', '/'].all (fun c => !Text.isBlank c) = true := by
    decide
  have hnot := List.all_eq_true.1 hblank c hmem
  rw [h] at hnot
  cases hnot

/-- Neither does `END IF` or its like. -/
theorem not_opens_in_closer {word blanks closed : List Char}
    (hword : Text.sameWord word "END".toList = true)
    (hblanks : ∀ b ∈ blanks, Text.isBlank b = true)
    (hclosed : isOneOf closed ("CASE" :: innerBlocks) = true) :
    ∀ c ∈ word ++ (blanks ++ closed), c ∉ ['\'', '"', '\x60', '[', '$', '-', '/'] := by
  intro c hc hmem
  have hall : ("END" :: "CASE" :: innerBlocks).all (fun k =>
      ['\'', '"', '\x60', '[', '$', '-', '/'].all
        (fun c => !(Text.asciiUpper k.toList).contains c.toUpper)) = true := by
    decide +kernel
  have hkeyword (k : String) (hk : k ∈ "END" :: "CASE" :: innerBlocks) :
      c.toUpper ∉ Text.asciiUpper k.toList := by
    have hnot := List.all_eq_true.1 (List.all_eq_true.1 hall k hk) c hmem
    rwa [Bool.not_eq_true', ← Bool.not_eq_true, List.contains_iff_mem] at hnot
  simp only [List.mem_append] at hc
  rcases hc with hc | hc | hc
  · exact hkeyword _ List.mem_cons_self (toUpper_mem_of_sameWord hword hc)
  · exact not_mem_of_isBlank (hblanks c hc) hmem
  · obtain ⟨k, hk, hsame⟩ := List.any_eq_true.1 hclosed
    exact hkeyword k (List.mem_cons_of_mem _ hk) (toUpper_mem_of_sameWord hsame hc)

theorem head?_behind_of_go {piece : Piece} {n : Nat}
    (h : accept here δ r n piece = .go there δ' r') :
    there.behind.head? = (here.upTo there).getLast?.or here.behind.head? := by
  obtain ⟨⟨m, -, rfl⟩, -⟩ := accept_eq_go h
  rw [Spot.upTo_advance]
  simp [Spot.advance]

theorem isSome_start_of_go {piece : Piece} {n : Nat}
    (h : accept here δ r n piece = .go there δ' r') :
    r'.start.isSome =
      (r.start.isSome || (piece == .quoted || piece == .word || piece == .mark)) := by
  obtain ⟨start, text, depth, lastWord, wordBefore, fallback⟩ := r
  cases piece with
  | delimiter =>
      obtain ⟨-, -, ⟨-, rfl⟩ | rfl⟩ := accept_delimiter_eq_go h <;> cases start <;> rfl
  | blank | comment | directive | quoted | word | mark =>
      cases h
      cases start <;> rfl

theorem upTo_ne_nil_of_go {piece : Piece} {n : Nat} {c : Char} {cs : List Char}
    (hs : here.ahead = c :: cs)
    (hp : Piece.next d δ r.start.isSome here.behind c cs = .ok (piece, n))
    (ha : accept here δ r n piece = .go there δ' r') : here.upTo there ≠ [] := by
  obtain ⟨⟨m, hm, rfl⟩, -⟩ := accept_eq_go ha
  have hn := Piece.next_pos hp
  obtain ⟨m, rfl⟩ : ∃ k, m = k + 1 := ⟨m - 1, by omega⟩
  rw [Spot.upTo_advance, hs]
  exact List.cons_ne_nil _ _

theorem Beside.go {piece : Piece} {n : Nat} {c : Char} {cs : List Char} {last : Option Char}
    (h : Beside d here δ r last) (hs : here.ahead = c :: cs)
    (hp : Piece.next d δ r.start.isSome here.behind c cs = .ok (piece, n))
    (ha : accept here δ r n piece = .go there δ' r') :
    Beside d there δ' r' ((Passage.text ⟨piece, r.start.isSome, here.behind, here.upTo there,
      there.ahead⟩).getLast?.or last) := by
  obtain ⟨run, rest, hrun, hn, hform⟩ := Piece.next_spec hp
  obtain ⟨⟨m, hm, hthere⟩, hδ, -⟩ := accept_eq_go ha
  have hstart := isSome_start_of_go ha
  have hbehind := head?_behind_of_go ha
  have hsome : (here.upTo there).getLast?.or last =
      (here.upTo there).getLast?.or here.behind.head? := by
    obtain h' | ⟨init, z, hz⟩ := List.eq_nil_or_concat (here.upTo there)
    · exact absurd h' (upTo_ne_nil_of_go hs hp ha)
    · rw [hz, List.concat_eq_append, List.getLast?_concat]
      rfl
  refine ⟨fun hd => ?_, fun hnone => ?_, fun hstarted => ?_⟩
  · rw [hδ, Piece.sets_eq_none_of_next hd hp]
    exact h.delimiter hd
  · rw [hnone, Option.isSome_none] at hstart
    have hstart := Bool.or_eq_false_iff.1 hstart.symm
    have hlast := h.unstarted (Option.isSome_eq_false_iff.1 hstart.1 |> Option.isNone_iff_eq_none.1)
    cases piece with
    | quoted | word | mark => cases hstart.2
    | blank | delimiter | comment | directive => simp [Passage.text, hstart.1, hlast]
  · rw [hstarted] at hstart
    cases piece with
    | quoted | word | mark => exact .inl (hsome.trans hbehind.symm)
    | blank | delimiter =>
        have hstarted : r.start.isSome = true := by simpa using hstart.symm
        rw [hstarted]
        exact .inl (hsome.trans hbehind.symm)
    | comment sets =>
        have hstarted : r.start.isSome = true := by simpa using hstart.symm
        rw [hstarted]
        refine .inr ⟨rfl, ?_⟩
        cases ha
        rw [hbehind, Spot.upTo_advance, Spot.ahead_advance, hs, hrun, hn, List.take_left,
          List.drop_left]
        exact (comment_end hform).imp_left (fun hlast => by rw [hlast]; rfl)
    | directive sets =>
        have hstarted : r.start.isSome = true := by simpa using hstart.symm
        rw [hform.1] at hstarted
        cases hstarted

theorem chars_of_ahead {u t v : List Char} {last : Option Char} {runs : List (List Char)}
    (htv : ∀ q, ' ' ∉ q → q <+: t → q <+: v)
    (hu : ∀ k < u.length, Token.opens d ((u ++ v).drop k) = false)
    (h : Token.Parts d (u.getLast?.or last) t runs) : Token.Parts d last (u ++ t) runs := by
  refine .chars (fun k hk => ?_) h
  have hopens := hu k hk
  rw [List.drop_append_of_le_length hk.le] at hopens ⊢
  exact opens_of_ahead htv hopens

theorem Beside.forall_mem {last : Option Char} {q : Char → Prop} (h : Beside d here δ r last)
    (hblank : q ' ') (hbehind : ∀ b ∈ here.behind.head?, q b) : ∀ e ∈ last, q e := by
  intro e he
  cases hstarted : r.start.isSome with
  | false =>
      rw [h.unstarted (Option.isNone_iff_eq_none.1 (Option.isSome_eq_false_iff.1 hstarted))] at he
      cases he
  | true =>
      rcases h.started hstarted with hlast | ⟨hlast, -⟩
      · exact hbehind e (hlast ▸ he)
      · obtain rfl := Option.some.inj (hlast.symm.trans he)
        exact hblank

/-- What the lexer sees of an escape prefix. -/
theorem Beside.endsInE {c : Char} {cs : List Char} {last : Option Char}
    (h : Beside d here δ r last) (hs : here.ahead = c :: cs) (hc : c ≠ '\n') :
    (last == some 'E' || last == some 'e') =
      (r.start.isSome && (here.behind.head? == some 'E' || here.behind.head? == some 'e')) := by
  cases hstarted : r.start.isSome with
  | false =>
      rw [h.unstarted (Option.isNone_iff_eq_none.1 (Option.isSome_eq_false_iff.1 hstarted))]
      rfl
  | true =>
      rcases h.started hstarted with hlast | ⟨hlast, hbehind | hline⟩
      · rw [hlast, Bool.true_and]
      · rw [hlast, hbehind]
        rfl
      · rw [hs] at hline
        cases hline
        exact absurd rfl hc

theorem quoted_of_go {n : Nat} {c : Char} {cs : List Char} (hs : here.ahead = c :: cs)
    (hp : Piece.next d δ r.start.isSome here.behind c cs = .ok (.quoted, n))
    (ha : accept here δ r n .quoted = .go there δ' r') :
    Quoted d here.behind (here.upTo there) there.ahead := by
  obtain ⟨hcode, -⟩ := Piece.ofCode_of_next hp (.inl rfl)
  obtain ⟨run, rest, hrun, hn, hform⟩ := Piece.ofCode_token hcode
  obtain ⟨-, hquoted⟩ | ⟨⟨⟩, -⟩ | ⟨⟨⟩, -⟩ := hform
  cases ha
  rwa [Spot.upTo_advance, Spot.ahead_advance, hs, hrun, hn, List.take_left, List.drop_left]

section

variable {p : Passage} {t : List Char} {last : Option Char} {runs : List (List Char)}

/-- A quoted run is a quotation for the lexer. -/
theorem Beside.parts_quoted (h : Beside d here δ r last) (hquoted : Quoted d p.behind p.run p.rest)
    (hahead : here.ahead = p.run ++ p.rest) (hpiece : p.piece = .quoted)
    (hstarted : p.started = r.start.isSome) (hbehind : p.behind = here.behind)
    (hplain : p.plain d = true) (ht : ∀ q, ' ' ∉ q → q <+: t → q <+: p.rest)
    (hparts : Token.Parts d (p.run.getLast?.or last) t runs) :
    Token.Parts d last (p.run ++ t) (p.run :: runs) := by
  simp only [Passage.plain, hpiece, Bool.and_eq_true] at hplain
  obtain ⟨hescapes, hdollar⟩ := hplain
  have hq : Token.Quotation d last p.run t := by
    refine quotation_of_quoted hquoted ht (fun hends => ⟨fun hhead => ?_, fun hhead => ?_⟩)
    · simpa [Passage.sameEscapes, hends, hhead] using hescapes
    · obtain ⟨run, hrun⟩ := List.head?_eq_some_iff.1 hhead
      rw [hrun, List.cons_append] at hahead
      rw [Bool.or_assoc, h.endsInE hahead (by decide), ← hstarted, ← hbehind]
      cases hd : d.backslashEscapes with
      | true => rfl
      | false => simpa [Passage.sameEscapes, hends, hhead, hd] using hescapes
  obtain ⟨q, body, hrun, -⟩ := hq.exists_cons
  rw [hrun] at hq hparts hdollar ⊢
  refine .quotation (fun hhead => h.forall_mem (by decide) (fun b hb => ?_)) hq ?_
  · obtain rfl := Option.some.inj hhead
    simpa [hbehind, Option.mem_def.1 hb] using hdollar
  · rwa [List.getLast?_cons, Option.some_or, ← List.getLast?_cons] at hparts

/-- A word is a word for the lexer too, if it holds a dollar tag. -/
theorem Beside.parts_word {c : Char} {w rest : List Char} (h : Beside d here δ r last)
    (hbehind : NoWordBefore here.behind) (hword : Piece.isWordStart c = true)
    (hchars : ∀ x ∈ c :: w, Piece.isWordChar x = true)
    (hrest : ∀ x ∈ rest.head?, Piece.isWordChar x = true → δ.toList <+: rest)
    (hplain : (!(List.range (c :: w).length).any (fun k => Token.opensTag d ((c :: w).drop k)) ||
      !(here.behind.head? == some '.') && !Text.isSpace c) = true)
    (ht : ∀ q, ' ' ∉ q → q <+: t → q <+: rest)
    (hparts : Token.Parts d ((c :: w).getLast?.or last) t runs) :
    Token.Parts d last (c :: w ++ t) runs := by
  by_cases htag : (List.range (c :: w).length).any
      (fun k => Token.opensTag d ((c :: w).drop k)) = true
  · rw [htag, Bool.not_true, Bool.false_or, Bool.and_eq_true, Bool.not_eq_true',
      Bool.not_eq_true', beq_eq_false_iff_ne] at hplain
    rw [List.getLast?_cons, Option.some_or, ← List.getLast?_cons] at hparts
    refine .word (h.forall_mem (by decide) (fun b hb => ⟨hbehind b hb, ?_⟩)) hword hplain.2
      (fun x hx => hchars x (List.mem_cons_of_mem _ hx)) hparts
    rintro rfl
    exact hplain.1 hb
  · refine chars_of_ahead ht ?_ hparts
    refine not_opens_in_word hchars (fun hd x hx => ?_) (Bool.eq_false_iff.2 htag)
    by_contra hx'
    rw [h.delimiter hd] at hrest
    obtain ⟨rest, rfl⟩ := hrest x hx (Bool.not_eq_false _ ▸ hx')
    obtain rfl := Option.some.inj hx
    exact hx' (by decide)

theorem parts_closer {word blanks closed rest : List Char}
    (hword : Text.sameWord word "END".toList = true)
    (hblanks : ∀ b ∈ blanks, Text.isBlank b = true)
    (hclosed : isOneOf closed ("CASE" :: innerBlocks) = true)
    (ht : ∀ q, ' ' ∉ q → q <+: t → q <+: rest)
    (hparts : Token.Parts d ((word ++ (blanks ++ closed)).getLast?.or last) t runs) :
    Token.Parts d last (word ++ (blanks ++ closed) ++ t) runs := by
  have hnot := not_opens_in_closer hword hblanks hclosed
  generalize word ++ (blanks ++ closed) = run at hnot hparts
  refine chars_of_ahead ht (fun k hk => ?_) hparts
  obtain ⟨x, xs, hx⟩ := List.exists_cons_of_length_pos (l := run.drop k)
    (by rw [List.length_drop]; exact Nat.sub_pos_of_lt hk)
  have hmem : x ∈ run := List.mem_of_mem_drop (hx ▸ List.mem_cons_self : x ∈ run.drop k)
  rw [List.drop_append_of_le_length hk.le, hx]
  exact Token.opens_eq_false_of_head (hnot x hmem) _

theorem taken_of_ahead {n : Nat} {u v : List Char} (hahead : here.ahead = u ++ v)
    (hn : n = u.length) :
    here.upTo (here.advance n) = u ∧ (here.advance n).ahead = v := by
  rw [Spot.upTo_advance, Spot.ahead_advance, hahead, hn, List.take_left, List.drop_left]
  exact ⟨rfl, rfl⟩

section

variable {n : Nat} {c : Char} {cs : List Char}

/-- A word alone, or with the one behind it that closes a block. -/
theorem Beside.parts_of_word (h : Beside d here δ r last) (hs : here.ahead = c :: cs)
    (hp : Piece.next d δ r.start.isSome here.behind c cs = .ok (.word, n))
    (ha : accept here δ r n .word = .go there δ' r')
    (hplain : Passage.plain d ⟨.word, r.start.isSome, here.behind, here.upTo there, there.ahead⟩ =
      true)
    (ht : ∀ q, ' ' ∉ q → q <+: t → q <+: there.ahead)
    (hparts : Token.Parts d ((here.upTo there).getLast?.or last) t runs) :
    Token.Parts d last (here.upTo there ++ t) runs := by
  obtain ⟨hcode, -⟩ := Piece.ofCode_of_next hp (.inr (.inl rfl))
  obtain ⟨run, rest, hrun, hn, hform⟩ := Piece.ofCode_token hcode
  obtain ⟨⟨⟩, -⟩ | ⟨-, hbehind, hword, hchars, hrest⟩ | ⟨⟨⟩, -⟩ := hform
  cases ha
  rw [hs, hrun, hn, List.take_left, List.drop_left] at hplain ht hparts ⊢
  rcases blockEffect_extra δ r run rest with
    hzero | ⟨hend, blanks, closed, tail, rfl, hblanks, -, hclosed, hlen⟩
  · obtain ⟨htaken, hleft⟩ := taken_of_ahead (hs.trans hrun)
      (n := run.length + (blockEffect δ r run rest).2) (by rw [hzero, Nat.add_zero])
    rw [htaken] at hplain hparts ⊢
    rw [hleft] at hplain ht
    cases run with
    | nil => exact hparts
    | cons e w =>
        obtain ⟨rfl, -⟩ := List.cons.inj hrun
        exact h.parts_word hbehind hword hchars hrest hplain ht hparts
  · obtain ⟨htaken, hleft⟩ := taken_of_ahead
      (n := run.length + (blockEffect δ r run (blanks ++ (closed ++ tail))).2)
      (u := run ++ (blanks ++ closed)) (v := tail)
      (by rw [hs, hrun, List.append_assoc, List.append_assoc])
      (by rw [hlen, List.length_append, List.length_append])
    rw [htaken] at hparts ⊢
    rw [hleft] at ht
    exact parts_closer hend hblanks hclosed ht hparts

/-- A sign that opens nothing. -/
theorem parts_of_mark (hs : here.ahead = c :: cs)
    (hp : Piece.next d δ r.start.isSome here.behind c cs = .ok (.mark, n))
    (ha : accept here δ r n .mark = .go there δ' r')
    (ht : ∀ q, ' ' ∉ q → q <+: t → q <+: there.ahead)
    (hparts : Token.Parts d ((here.upTo there).getLast?.or last) t runs) :
    Token.Parts d last (here.upTo there ++ t) runs := by
  obtain ⟨hcode, hcomment⟩ := Piece.ofCode_of_next hp (.inr (.inr rfl))
  obtain ⟨run, rest, hrun, hn, hform⟩ := Piece.ofCode_token hcode
  obtain ⟨⟨⟩, -⟩ | ⟨⟨⟩, -⟩ | ⟨-, rfl, hquote⟩ := hform
  cases ha
  obtain ⟨-, rfl⟩ := List.cons.inj hrun
  obtain ⟨htaken, hleft⟩ := taken_of_ahead (u := [c]) hs hn
  rw [htaken] at hparts ⊢
  rw [hleft] at ht
  refine chars_of_ahead ht (fun k hk => ?_) hparts
  obtain rfl : k = 0 := Nat.lt_one_iff.1 hk
  exact not_opens hcomment hquote

theorem parts_of_blank (hs : here.ahead = c :: cs)
    (hp : Piece.next d δ r.start.isSome here.behind c cs = .ok (.blank, n))
    (ha : accept here δ r n .blank = .go there δ' r')
    (ht : ∀ q, ' ' ∉ q → q <+: t → q <+: there.ahead)
    (hparts : Token.Parts d ((here.upTo there).getLast?.or last) t runs) :
    Token.Parts d last (here.upTo there ++ t) runs := by
  obtain ⟨run, rest, hrun, hn, a, rfl, hblank⟩ := Piece.next_spec hp
  cases ha
  obtain ⟨htaken, hleft⟩ := taken_of_ahead (hs.trans hrun) hn
  rw [htaken] at hparts ⊢
  rw [hleft] at ht
  refine chars_of_ahead ht (fun k hk => ?_) hparts
  obtain rfl : k = 0 := Nat.lt_one_iff.1 hk
  exact Token.opens_eq_false_of_head (not_mem_of_isBlank hblank) _

end

/-- What one passage adds to the parts of the text. -/
theorem Beside.parts {piece : Piece} {n : Nat} {c : Char} {cs : List Char}
    (h : Beside d here δ r last) (hs : here.ahead = c :: cs)
    (hp : Piece.next d δ r.start.isSome here.behind c cs = .ok (piece, n))
    (ha : accept here δ r n piece = .go there δ' r')
    (hpassage : p = ⟨piece, r.start.isSome, here.behind, here.upTo there, there.ahead⟩)
    (hplain : p.plain d = true)
    (ht : r'.start.isSome = true → ∀ q, ' ' ∉ q → q <+: t → q <+: there.ahead)
    (hparts : Token.Parts d (p.text.getLast?.or last) t runs) :
    Token.Parts d last (p.text ++ t) (quotedRuns [p] ++ runs) := by
  have hstart := isSome_start_of_go ha
  subst hpassage
  cases piece with
  | quoted =>
      exact h.parts_quoted (quoted_of_go hs hp ha) (ahead_eq_of_go ha) rfl rfl rfl hplain
        (ht (by rw [hstart]; simp)) hparts
  | word => exact h.parts_of_word hs hp ha hplain (ht (by rw [hstart]; simp)) hparts
  | mark => exact parts_of_mark hs hp ha (ht (by rw [hstart]; simp)) hparts
  | directive sets => exact hparts
  -- before the statement begins nothing of these is kept
  | blank =>
      cases hstarted : r.start.isSome with
      | false =>
          rw [hstarted] at hparts
          exact hparts
      | true =>
          rw [hstarted] at hparts
          exact parts_of_blank hs hp ha (ht (by rw [hstart, hstarted]; rfl)) hparts
  | comment sets =>
      cases hstarted : r.start.isSome with
      | false =>
          rw [hstarted] at hparts
          exact hparts
      | true =>
          rw [hstarted] at hparts
          exact .char (Token.opens_eq_false_of_head (by decide) _) hparts
  | delimiter =>
      cases hstarted : r.start.isSome with
      | false =>
          rw [hstarted] at hparts
          exact hparts
      | true =>
          rw [hstarted] at hparts hplain
          refine chars_of_ahead (ht (by rw [hstart, hstarted]; rfl)) (fun k hk => ?_) hparts
          have hall : (List.range (here.upTo there).length).all
              (fun k => !Token.opens d ((here.upTo there ++ there.ahead).drop k)) = true := hplain
          have hopens := List.all_eq_true.1 hall k (List.mem_range.2 hk)
          rwa [Bool.not_eq_true'] at hopens

end

theorem Reads.parts {item : Option Item} {rest : Splitter} (h : Reads d here δ r item rest)
    {last : Option Char} (hb : Beside d here δ r last)
    (hplain : ∀ p ∈ passages d here δ r, p.plain d = true) :
    Token.Parts d last ((passages d here δ r).flatMap Passage.text)
      (quotedRuns (passages d here δ r)) := by
  induction h generalizing last with
  | stop h =>
      rw [passages_of_stop h]
      exact .nil
  | @go here there δ δ' r r' _ _ h t ih =>
      obtain ⟨c, cs, piece, n, hs, hp, ha⟩ := exists_piece_of_go h
      rw [passages_of_go hs hp ha] at hplain ⊢
      obtain ⟨hfirst, hplain⟩ := List.forall_mem_cons.1 hplain
      have hparts := hb.parts hs hp ha rfl hfirst (fun hr' q hq => t.prefix_of_text hr' hq)
        (ih (hb.go hs hp ha) hplain)
      rw [List.flatMap_cons]
      unfold quotedRuns at hparts ⊢
      rwa [← List.map_append, ← List.filter_append] at hparts

theorem Reads.delimiter_eq_semicolon {item : Option Item} {rest : Splitter}
    (h : Reads d here δ r item rest) (hd : d.dollarQuotes = true) (hδ : δ = .semicolon)
    (hr : ∀ cut ∈ r.fallback, cut.2.2 = .semicolon) : rest.delimiter = .semicolon := by
  refine h.delimiter (P := (· = .semicolon)) (fun h hδ => ?_) hδ hr
  obtain ⟨c, cs, piece, n, hs, hp, ha⟩ := exists_piece_of_go h
  rw [(accept_eq_go ha).2.1, Piece.sets_eq_none_of_next hd hp]
  exact hδ

theorem Reads.quoted {item : Option Item} {rest : Splitter} (h : Reads d here δ r item rest) :
    ∀ p ∈ passages d here δ r, p.isQuoted = true → Quoted d p.behind p.run p.rest := by
  induction h with
  | stop h =>
      rw [passages_of_stop h]
      exact nofun
  | go h t ih =>
      obtain ⟨c, cs, piece, n, hs, hp, ha⟩ := exists_piece_of_go h
      rw [passages_of_go hs hp ha]
      refine List.forall_mem_cons.2 ⟨fun hquoted => ?_, ih⟩
      obtain rfl : piece = .quoted := beq_iff_eq.1 hquoted
      exact quoted_of_go hs hp ha

namespace Splitter

def passages (d : Dialect) (s : Splitter) : List Passage :=
  Statement.passages d s.spot s.delimiter .empty

def readings (d : Dialect) (s : Splitter) : List (Splitter × Item) :=
  (s :: (s.run d).1.map Prod.snd).zip ((s.run d).1.map Prod.fst)

theorem readings_of_some {s rest : Splitter} {i : Item} (h : s.next d = (some i, rest)) :
    s.readings d = (s, i) :: rest.readings d := by
  rw [readings, run_of_some h]
  rfl

theorem mem_readings {s : Splitter} {i : Item} (h : (s.next d).1 = some i) :
    (s, i) ∈ s.readings d := by
  rw [readings_of_some (Prod.ext h rfl)]
  exact List.mem_cons_self

theorem map_snd_readings (d : Dialect) (s : Splitter) :
    (s.readings d).map Prod.snd = (s.run d).1.map Prod.fst := by
  rw [readings, List.map_snd_zip]
  simp

theorem Yields.readings {s last : Splitter} {items : List Item} (h : Yields d s items last)
    (hδ : d.dollarQuotes = true → s.delimiter = .semicolon) :
    ∀ p ∈ s.readings d, (∃ rest, p.1.next d = (some p.2, rest)) ∧
      (d.dollarQuotes = true → p.1.delimiter = .semicolon) := by
  induction h with
  | done h =>
      rw [Splitter.readings, run_of_none h]
      exact nofun
  | @item s rest last i items h t ih =>
      rw [readings_of_some h]
      refine List.forall_mem_cons.2 ⟨⟨⟨rest, h⟩, hδ⟩, ih (fun hd => ?_)⟩
      exact (reads_iff_next.2 h).delimiter_eq_semicolon hd (hδ hd) nofun

end Splitter

/-- Where all passages of a statement are plain, its quoted tokens are the quoted runs that were
passed in reading it, and each is closed. -/
theorem quotations_of_split (d : Dialect) (script : String) :
    ((Splitter.start script).readings d).map Prod.snd = split d script ∧
      ∀ s st, (s, Except.ok st) ∈ (Splitter.start script).readings d →
        (∀ p ∈ s.passages d, p.plain d = true) →
          Token.quotations (Token.lex d st.text.toList) = quotedRuns (s.passages d) ∧
            ∀ run ∈ quotedRuns (s.passages d), ∃ behind rest, Quoted d behind run rest := by
  refine ⟨Splitter.map_snd_readings d _, fun s st hmem hplain => ?_⟩
  obtain ⟨⟨rest, hnext⟩, hδ⟩ :=
    (Splitter.yields_run d (.start script)).readings (fun _ => rfl) _ hmem
  have hreads := Splitter.reads_iff_next.2 hnext
  have hparts := hreads.parts ⟨hδ, fun _ => rfl, nofun⟩ hplain
  have htext := hreads.text_eq (fun _ => rfl) rfl
  refine ⟨?_, ?_⟩
  · rw [htext, String.toList_ofList]
    exact hparts.trim.quotations_eq []
  · intro run hrun
    obtain ⟨p, hp, rfl⟩ := List.mem_map.1 hrun
    obtain ⟨hmem, hquoted⟩ := List.mem_filter.1 hp
    exact ⟨_, _, hreads.quoted p hmem hquoted⟩

def literalScript : String :=
  "/* it's */ SELECT E'it\\'s', $a$;$a$ AS \"b c\" -- 'd'\n; SELECT 1"

theorem quotations_of_split_literalScript :
    ∃ s st, (s, Except.ok st) ∈ (Splitter.start literalScript).readings .postgres ∧
      (∀ p ∈ s.passages .postgres, p.plain .postgres = true) ∧
      quotedRuns (s.passages .postgres) =
        ["'it\\'s'".toList, "$a$;$a$".toList, "\"b c\"".toList] ∧
      Token.quotations (Token.lex .postgres st.text.toList) =
        quotedRuns (s.passages .postgres) := by
  have hnext : ((Splitter.start literalScript).next .postgres).1 =
      some (.ok ⟨"SELECT E'it\\'s', $a$;$a$ AS \"b c\"", 11, 1⟩) := by
    decide +kernel
  have hplain :
      ∀ p ∈ (Splitter.start literalScript).passages .postgres, p.plain .postgres = true := by
    decide +kernel
  have hmem := Splitter.mem_readings hnext
  exact ⟨_, _, hmem, hplain, by decide +kernel,
    ((quotations_of_split .postgres literalScript).2 _ _ hmem hplain).1⟩

/-- In MySQL a backslash escapes a double quote, but not for the lexer, which takes the rest of the
statement for a quoted name. -/
theorem doubleQuoted_backslash_misread :
    quotedRuns ((Splitter.start "SELECT \"it\\\"s\", b").passages .mySql) =
        ["\"it\\\"s\"".toList] ∧
      split .mySql "SELECT \"it\\\"s\", b" = [.ok ⟨"SELECT \"it\\\"s\", b", 0, 1⟩] ∧
      Token.quotations (Token.lex .mySql "SELECT \"it\\\"s\", b".toList) =
        ["\"it\\\"".toList, "\", b".toList] := by
  decide +kernel

end Statement

end SchemaDrift
