import SchemaDrift.Proofs.Lexemes
import SchemaDrift.Proofs.Moments

namespace SchemaDrift

theorem Spot.advance_of_nil {s : Spot} (h : s.ahead = []) (n : Nat) : s.advance n = s := by
  obtain ⟨behind, ahead, offset, line⟩ := s
  obtain rfl : ahead = [] := h
  unfold advance
  rw [List.take_nil, List.drop_nil]
  rfl

namespace Piece

def isCode : Piece → Bool
  | quoted | word | mark => true
  | blank | comment _ | directive _ | delimiter => false

variable {d : Dialect} {δ : Delimiter} {behind cs : List Char} {c : Char} {piece : Piece} {n : Nat}

/-- Code that a statement starts with is the same inside a statement. -/
theorem next_started_of_isCode (h : next d δ false behind c cs = .ok (piece, n))
    (hcode : piece.isCode = true) : next d δ true behind c cs = .ok (piece, n) := by
  unfold next at h ⊢
  split at h
  · cases h
    cases hcode
  next hdashes =>
  rw [if_neg hdashes]
  split at h
  · cases h
    cases hcode
  next hhash =>
  rw [if_neg hhash]
  split at h
  · split at h
    · cases h
      cases hcode
    · cases h
  next hblock =>
  rw [if_neg hblock]
  split at h
  · cases h
    cases hcode
  next hblank =>
  rw [if_neg hblank]
  split at h
  · cases h
    cases hcode
  · exact h

theorem error_ne_block {what : Unclosed} {started : Bool}
    (h : next d δ started behind c cs = .error what) : what ≠ .block := by
  rintro rfl
  generalize hs : c :: cs = s, hwhat : Unclosed.block = what at *
  cases hs ▸ next_error h with
  | comment => cases hwhat
  | quote _ hquote =>
      cases hquote with
      | quote hq => cases hq <;> cases hwhat
      | dollar => cases hwhat

theorem exists_of_headWord? {word tail : List Char}
    (h : headWord? (word ++ tail) = some word) :
    ∃ c cs, word = c :: cs ∧ isWordStart c = true ∧ (∀ x ∈ cs, isWordChar x = true) ∧
      ∀ x ∈ tail.head?, isWordChar x = false := by
  obtain ⟨c, cs, rfl⟩ := List.exists_cons_of_length_pos (headWord?_pos h)
  rw [List.cons_append, headWord?, Option.ite_none_right_eq_some, Option.some.injEq] at h
  obtain ⟨hstart, hword⟩ := h
  have hall : ∀ x ∈ c :: cs, isWordChar x = true := by
    intro x hx
    rw [← hword] at hx
    exact List.mem_takeWhile_imp hx
  refine ⟨c, cs, rfl, hstart, fun x hx => hall x (List.mem_cons_of_mem c hx), ?_⟩
  rw [← List.cons_append, List.takeWhile_append_of_pos hall, List.append_right_eq_self] at hword
  cases tail with
  | nil =>
      intro x hx
      cases hx
  | cons x tail =>
      rintro a ha
      cases ha
      rw [List.takeWhile_cons] at hword
      split at hword
      · cases hword
      · next hx => exact Bool.eq_false_iff.2 hx

end Piece

namespace Statement

variable {d : Dialect} {here there : Spot} {δ δ' : Delimiter} {r r' : Draft}

namespace Splitter

def seek (d : Dialect) (started : Bool) (wanted : Piece → Bool) (s : Splitter) : Splitter :=
  match _hs : s.spot.ahead with
  | [] => s
  | c :: cs =>
      match _hp : Piece.next d s.delimiter started s.spot.behind c cs with
      | .error _ => s
      | .ok (piece, n) =>
          if wanted piece then s
          else seek d started wanted ⟨s.spot.advance n, piece.sets.getD s.delimiter⟩
termination_by s.spot.ahead.length
decreasing_by
  have := Piece.next_pos _hp
  simp only [Spot.ahead_advance, _hs, List.length_drop, List.length_cons]
  omega

def toCode (d : Dialect) (s : Splitter) : Splitter := s.seek d false Piece.isCode

def toDelimiter (d : Dialect) (s : Splitter) : Splitter := s.seek d true (· == .delimiter)

variable {started : Bool} {wanted : Piece → Bool} {c : Char} {cs : List Char} {piece : Piece}
  {n : Nat}

theorem seek_of_nil (h : here.ahead = []) : seek d started wanted ⟨here, δ⟩ = ⟨here, δ⟩ := by
  rw [seek]
  split
  · rfl
  · next hs =>
      rw [h] at hs
      cases hs

theorem seek_of_next (hs : here.ahead = c :: cs)
    (hp : Piece.next d δ started here.behind c cs = .ok (piece, n)) :
    seek d started wanted ⟨here, δ⟩ =
      if wanted piece then ⟨here, δ⟩
      else seek d started wanted ⟨here.advance n, piece.sets.getD δ⟩ := by
  rw [seek]
  split
  · next hs' =>
      rw [hs] at hs'
      cases hs'
  · next hs' =>
      rw [hs] at hs'
      cases hs'
      split
      · next hp' =>
          rw [hp] at hp'
          cases hp'
      · next hp' =>
          rw [hp] at hp'
          cases hp'
          rfl

theorem toDelimiter_of_next (hs : here.ahead = c :: cs)
    (hp : Piece.next d δ true here.behind c cs = .ok (piece, n)) (hne : piece ≠ .delimiter) :
    toDelimiter d ⟨here, δ⟩ = toDelimiter d ⟨here.advance n, piece.sets.getD δ⟩ := by
  unfold toDelimiter
  rw [seek_of_next hs hp, if_neg]
  rwa [beq_iff_eq]

theorem toDelimiter_blanks {blanks rest : List Char} (hs : here.ahead = blanks ++ rest)
    (hblanks : ∀ b ∈ blanks, Text.isBlank b = true) :
    toDelimiter d ⟨here, δ⟩ = toDelimiter d ⟨here.advance blanks.length, δ⟩ := by
  induction blanks generalizing here with
  | nil => rw [List.length_nil, Spot.advance_zero]
  | cons b blanks ih =>
      obtain ⟨hb, hblanks⟩ := List.forall_mem_cons.1 hblanks
      have hahead : (here.advance 1).ahead = blanks ++ rest := by
        rw [Spot.ahead_advance, hs]
        rfl
      rw [toDelimiter_of_next hs (Piece.next_blank hb ..) (by simp), List.length_cons,
        Nat.add_comm blanks.length 1, ← Spot.advance_advance]
      exact ih hahead hblanks

/-- Blanks and a word after them, no delimiter in either. What stands before ends at a word or at
no word. -/
theorem toDelimiter_taken {blanks closed tail : List Char}
    (hs : here.ahead = blanks ++ (closed ++ tail))
    (hblanks : ∀ b ∈ blanks, Text.isBlank b = true)
    (hclosed : Piece.headWord? (closed ++ tail) = some closed)
    (hδ : ∀ k < blanks.length + closed.length, ¬ δ.toList <+: here.ahead.drop k)
    (hend : ∀ x ∈ here.ahead.head?, Piece.isWordChar x = true → δ.toList <+: here.ahead) :
    toDelimiter d ⟨here, δ⟩ =
      toDelimiter d ⟨here.advance (blanks.length + closed.length), δ⟩ := by
  obtain ⟨c, cs, rfl, hstart, hrun, htail⟩ := Piece.exists_of_headWord? hclosed
  have hahead : (here.advance blanks.length).ahead = c :: (cs ++ tail) := by
    rw [Spot.ahead_advance, hs, List.drop_left]
    rfl
  have hbehind : NoWordBefore (here.advance blanks.length).behind := by
    rcases List.eq_nil_or_concat blanks with rfl | ⟨front, b, rfl⟩
    · have hchar := Piece.isWordChar_of_isWordStart hstart
      exact absurd (hend c (by rw [hs]; rfl) hchar) (hδ 0 (Nat.succ_pos _))
    · rintro x hx
      rw [List.concat_eq_append] at hs hblanks hx
      rw [Spot.advance, hs, List.take_left, List.reverse_append] at hx
      cases hx
      exact Piece.not_isWordChar_of_isBlank (hblanks b (by simp))
  have hnone : ∀ k ≤ cs.length, ¬ δ.toList <+: (c :: (cs ++ tail)).drop k := by
    intro k hk hprefix
    refine hδ (blanks.length + k) (by rw [List.length_cons]; omega) ?_
    rwa [← List.drop_drop, ← Spot.ahead_advance, hahead]
  have hword : Piece.next d δ true (here.advance blanks.length).behind c (cs ++ tail) =
      .ok (.word, cs.length + 1) :=
    Piece.next_of_word hstart hbehind hrun hnone
      (fun x hx hchar => absurd hchar (Bool.eq_false_iff.1 (htail x hx)))
      fun hfalse => absurd hfalse (by decide)
  rw [toDelimiter_blanks hs hblanks, toDelimiter_of_next hahead hword (by simp),
    Spot.advance_advance]
  rfl

end Splitter

namespace Moment

def piece? (d : Dialect) (m : Moment) : Option (Piece × Nat) :=
  match m.here.ahead with
  | [] => none
  | c :: cs =>
      (Piece.next d m.delimiter m.draft.start.isSome m.here.behind c cs).toOption

/-- What the word at hand takes with it hides no delimiter, unless one was met before. -/
def hidesNone (d : Dialect) (m : Moment) : Bool :=
  m.draft.fallback.isSome ||
    match m.piece? d with
    | some (.word, n) =>
        let after := m.here.ahead.drop n
        let extra := (blockEffect m.delimiter m.draft (m.here.ahead.take n) after).2
        (List.range extra).all fun k => !Text.startsWith (after.drop k) m.delimiter.toList
    | _ => true

theorem not_delimiter_of_hidesNone {c : Char} {cs : List Char} {n : Nat}
    (hs : here.ahead = c :: cs)
    (hp : Piece.next d δ r.start.isSome here.behind c cs = .ok (.word, n))
    (hcut : r.fallback = none) (h : hidesNone d ⟨here, δ, r⟩ = true) :
    ∀ k < (blockEffect δ r (here.ahead.take n) (here.ahead.drop n)).2,
      ¬ δ.toList <+: (here.ahead.drop n).drop k := by
  intro k hk hprefix
  unfold hidesNone piece? at h
  rw [hcut] at h
  simp only [hs, hp, Except.toOption] at h
  rw [Option.isSome_none, Bool.false_or, List.all_eq_true] at h
  rw [hs] at hk hprefix
  have hnot := h k (List.mem_range.2 hk)
  rw [Bool.not_eq_true', Text.startsWith, Bool.eq_false_iff] at hnot
  exact hnot (List.isPrefixOf_iff_prefix.2 hprefix)

end Moment

/-- A turn inside a statement that meets no delimiter keeps the next one the next. -/
theorem toDelimiter_of_accept {c : Char} {cs : List Char} {piece : Piece} {n : Nat}
    (hs : here.ahead = c :: cs)
    (hp : Piece.next d δ true here.behind c cs = .ok (piece, n)) (hne : piece ≠ .delimiter)
    (ha : accept here δ r n piece = .go there δ' r')
    (hnone : piece = .word →
      ∀ k < (blockEffect δ r (here.ahead.take n) (here.ahead.drop n)).2,
        ¬ δ.toList <+: (here.ahead.drop n).drop k) :
    Splitter.toDelimiter d ⟨here, δ⟩ = Splitter.toDelimiter d ⟨there, δ'⟩ := by
  rw [Splitter.toDelimiter_of_next hs hp hne]
  cases piece with
  | blank | comment | directive | quoted | mark =>
      cases ha
      rfl
  | delimiter => exact absurd rfl hne
  | word =>
      cases ha
      obtain ⟨hcode, -⟩ := Piece.ofCode_of_next hp (.inr (.inl rfl))
      obtain ⟨run, rest, hrun, hn, ⟨⟨⟩, -⟩ | ⟨-, -, -, -, hrest⟩ | ⟨⟨⟩, -⟩⟩ :=
        Piece.ofCode_token hcode
      have hdrop : (here.advance n).ahead = rest := by
        rw [Spot.ahead_advance, hs, hrun, hn, List.drop_left]
      rcases blockEffect_extra δ r (here.ahead.take n) (here.ahead.drop n) with
        hzero | ⟨-, blanks, closed, tail, hparts, hblanks, hclosed, -, hlen⟩
      · rw [hzero]
        rfl
      · rw [hlen, ← Spot.advance_advance]
        rw [hlen] at hnone
        refine Splitter.toDelimiter_taken hparts hblanks hclosed (hnone rfl) ?_
        rwa [hdrop]

/-- Only at the end of the script is a block found to be open. -/
theorem finish_of_block {u : Unfinished} {rest : Splitter}
    (h : turn d here δ r = .stop (some (.error u)) rest) (hu : u.reason = .block) :
    here.ahead = [] ∧ finish here δ r = (some (.error u), rest) := by
  unfold turn at h
  split at h
  · next hend =>
      obtain ⟨hitem, hrest⟩ := Turn.stop.inj h
      exact ⟨hend, Prod.ext hitem hrest⟩
  split at h
  · next hp =>
      cases h
      exact absurd hu (Piece.error_ne_block hp)
  · obtain ⟨-, -, -, _, -, hitem⟩ := accept_eq_stop h
    cases hitem

structure Seeks (d : Dialect) (start : Splitter) (here : Spot) (δ : Delimiter) (r : Draft) :
    Prop where
  started : r.start = some start.spot
  ahead : r.fallback = none → start.toDelimiter d = Splitter.toDelimiter d ⟨here, δ⟩
  passed : ∀ stop resume inForce, r.fallback = some (stop, resume, inForce) →
    start.toDelimiter d = ⟨stop, inForce⟩ ∧ resume = stop.advance inForce.toList.length ∧
      inForce.toList <+: stop.ahead

/-- The statement that starts at `start` is left open, cut off at its first delimiter or at the end
of the script, and `rest` goes on right after it. -/
structure CutOff (d : Dialect) (start : Splitter) (u : Unfinished) (rest : Splitter) : Prop where
  item : .error u = unfinished .block start.spot (start.toDelimiter d).spot
  resumes : rest =
    ⟨(start.toDelimiter d).spot.advance (start.toDelimiter d).delimiter.toList.length,
      (start.toDelimiter d).delimiter⟩
  delimiter : (start.toDelimiter d).spot.ahead = [] ∨
    (start.toDelimiter d).delimiter.toList <+: (start.toDelimiter d).spot.ahead

/-- What is read on begins after no word, if the delimiter does not end in one. -/
theorem CutOff.noWordBefore {start rest : Splitter} {u : Unfinished} (h : CutOff d start u rest)
    (hend : NoWordBefore rest.delimiter.toList.reverse) :
    rest.spot.ahead = [] ∨ NoWordBefore rest.spot.behind := by
  obtain ⟨-, rfl, hnil | ⟨tail, htail⟩⟩ := h
  · exact .inl (by rw [Spot.advance_of_nil hnil, hnil])
  · refine .inr ?_
    obtain ⟨c, cs, hcs⟩ := List.exists_cons_of_ne_nil
      (show (start.toDelimiter d).delimiter.toList.reverse ≠ [] by simp [Delimiter.toList])
    rw [Spot.advance, ← htail, List.take_left, hcs]
    rw [hcs] at hend
    exact hend

namespace Seeks

variable {start : Splitter}

theorem of_eq (h : start.toDelimiter d = Splitter.toDelimiter d ⟨here, δ⟩)
    (hstart : r.start = some start.spot) (hcut : r.fallback = none) : Seeks d start here δ r where
  started := hstart
  ahead _ := h
  passed _ _ _ hsome := by
    rw [hcut] at hsome
    cases hsome

theorem of_fallback (s : Seeks d start here δ r) (hstart : r'.start = some start.spot)
    (hcut : r'.fallback = r.fallback) (hsome : r.fallback ≠ none) :
    Seeks d start there δ' r' where
  started := hstart
  ahead hnone := absurd (hcut.symm.trans hnone) hsome
  passed := by
    rw [hcut]
    exact s.passed

theorem go (s : Seeks d start here δ r) (h : turn d here δ r = .go there δ' r')
    (hm : Moment.hidesNone d ⟨here, δ, r⟩ = true) : Seeks d start there δ' r' := by
  obtain ⟨c, cs, piece, n, hs, hp, ha⟩ := exists_piece_of_go h
  have hstart : r'.start = some start.spot := (accept_eq_go ha).2.2 _ s.started
  have hnone : piece = .word → r.fallback = none →
      ∀ k < (blockEffect δ r (here.ahead.take n) (here.ahead.drop n)).2,
        ¬ δ.toList <+: (here.ahead.drop n).drop k := by
    rintro rfl hcut
    exact Moment.not_delimiter_of_hidesNone hs hp hcut hm
  rw [s.started, Option.isSome_some] at hp
  by_cases hdelimiter : piece = .delimiter
  · subst hdelimiter
    obtain ⟨run, rest, hrun, hn, rfl, -⟩ := Piece.next_spec hp
    simp only [accept, s.started] at ha
    split at ha
    · cases ha
    cases ha
    cases hcut : r.fallback with
    | some f => exact s.of_fallback hstart (by rw [Draft.pass, hcut]; rfl) (by simp [hcut])
    | none =>
        refine ⟨hstart, fun h => ?_, fun stop resume inForce h => ?_⟩
        · rw [Draft.pass, hcut] at h
          cases h
        · rw [Draft.pass, hcut] at h
          cases h
          refine ⟨?_, by rw [hn], rest, (hs.trans hrun).symm⟩
          rw [s.ahead hcut, Splitter.toDelimiter, Splitter.seek_of_next hs hp]
          rfl
  · have hkeeps := fallback_eq_of_accept ha hdelimiter
    cases hcut : r.fallback with
    | some f => exact s.of_fallback hstart hkeeps (by simp [hcut])
    | none =>
        have hstep := toDelimiter_of_accept hs hp hdelimiter ha fun hword => hnone hword hcut
        exact of_eq ((s.ahead hcut).trans hstep) hstart (hkeeps.trans hcut)

theorem finish (s : Seeks d start here δ r) (hend : here.ahead = []) {u : Unfinished}
    {rest : Splitter} (h : finish here δ r = (some (.error u), rest)) : CutOff d start u rest := by
  unfold Statement.finish at h
  rw [s.started] at h
  dsimp only at h
  split at h
  · cases h
  cases hcut : r.fallback with
  | some f =>
      obtain ⟨stop, resume, inForce⟩ := f
      obtain ⟨hfirst, rfl, hprefix⟩ := s.passed _ _ _ hcut
      rw [hcut] at h
      cases h
      exact ⟨by rw [hfirst]; rfl, by rw [hfirst], .inr (by rwa [hfirst])⟩
  | none =>
      have hfirst := (s.ahead hcut).trans (Splitter.seek_of_nil hend)
      rw [hcut] at h
      cases h
      refine ⟨by rw [hfirst]; rfl, ?_, .inl (by rwa [hfirst])⟩
      rw [hfirst, Spot.advance_of_nil hend]

end Seeks

/-- From the first code on: a turn outside statements passes over what is none, or begins one. -/
theorem toCode_of_go (h : turn d here δ .empty = .go there δ' r')
    (hm : Moment.hidesNone d ⟨here, δ, .empty⟩ = true) :
    r' = .empty ∧ Splitter.toCode d ⟨here, δ⟩ = Splitter.toCode d ⟨there, δ'⟩ ∨
      Seeks d (Splitter.toCode d ⟨here, δ⟩) there δ' r' := by
  obtain ⟨c, cs, piece, n, hs, hp, ha⟩ := exists_piece_of_go h
  have hstep : Splitter.toCode d ⟨here, δ⟩ = if piece.isCode then ⟨here, δ⟩
      else Splitter.toCode d ⟨here.advance n, piece.sets.getD δ⟩ := Splitter.seek_of_next hs hp
  cases hcode : piece.isCode with
  | false =>
      rw [hcode, if_neg Bool.false_ne_true] at hstep
      refine .inl ?_
      cases piece with
      | blank | comment | directive | delimiter =>
          cases ha
          exact ⟨rfl, hstep⟩
      | quoted | word | mark => cases hcode
  | true =>
      rw [hcode, if_pos rfl] at hstep
      have hne : piece ≠ .delimiter := by
        rintro rfl
        cases hcode
      have hnext := toDelimiter_of_accept hs (Piece.next_started_of_isCode hp hcode) hne ha
        (by rintro rfl; exact Moment.not_delimiter_of_hidesNone hs hp rfl hm)
      refine .inr (.of_eq ?_ ?_ ((fallback_eq_of_accept ha hne).trans rfl))
      · rw [hstep]
        exact hnext
      · rw [hstep]
        cases piece with
        | quoted | word | mark =>
            cases ha
            rfl
        | blank | comment | directive | delimiter => cases hcode

theorem Reads.cutOff {start : Splitter} {item : Option Item} {rest : Splitter} {u : Unfinished}
    (h : Reads d here δ r item rest) (s : Seeks d start here δ r)
    (hm : ∀ m ∈ moments d here δ r, m.hidesNone d = true) (hitem : item = some (.error u))
    (hu : u.reason = .block) : CutOff d start u rest := by
  induction h with
  | stop h =>
      subst hitem
      obtain ⟨hend, hfinish⟩ := finish_of_block h hu
      exact s.finish hend hfinish
  | go h _ ih =>
      rw [moments_of_go h, List.forall_mem_cons] at hm
      exact ih (s.go h hm.1) hm.2 hitem

theorem Reads.cutOff_of_empty {item : Option Item} {rest : Splitter} {u : Unfinished}
    (h : Reads d here δ .empty item rest)
    (hm : ∀ m ∈ moments d here δ .empty, m.hidesNone d = true) (hitem : item = some (.error u))
    (hu : u.reason = .block) : CutOff d (Splitter.toCode d ⟨here, δ⟩) u rest := by
  generalize hr : Draft.empty = r at h hm
  induction h with
  | stop h =>
      subst hr hitem
      cases (finish_of_block h hu).2
  | go h t ih =>
      subst hr
      rw [moments_of_go h, List.forall_mem_cons] at hm
      rcases toCode_of_go h hm.1 with ⟨rfl, hcode⟩ | s
      · rw [hcode]
        exact ih hitem rfl hm.2
      · exact t.cutOff s hm.2 hitem hu

theorem Item.shift_shift (p q : List Char) (i : Item) :
    Item.shift p (Item.shift q i) = Item.shift (p ++ q) i := by
  cases i <;> simp only [Item.shift, Text.byteSize_append, Text.newlines_append, Nat.add_comm,
    Nat.add_left_comm]

namespace Splitter

variable {s t : Splitter}

def items (d : Dialect) (s : Splitter) : List Item := (s.run d).1.map Prod.fst

theorem items_congr (h : s.next d = t.next d) : s.items d = t.items d :=
  ((yields_run d t).congr h).eq_run.1.symm

theorem items_of_nil (h : s.spot.ahead = []) : s.items d = [] := by
  rw [items, run_of_none (next_of_end h)]
  rfl

theorem items_of_blank {c : Char} {cs : List Char} (hs : here.ahead = c :: cs)
    (hc : Text.isBlank c = true) : items d ⟨here, δ⟩ = items d ⟨here.advance 1, δ⟩ :=
  items_congr (next_of_go (turn_of_blank hs hc))

theorem items_within {p : List Char} (hp : NoWordBefore p.reverse) (s : Splitter) :
    (s.within p []).items d = (s.items d).map (Item.shift p) :=
  ((yields_run d s).shift hp).eq_run.1.symm

theorem start_advance (script : List Char) (n : Nat) :
    (Spot.start script).advance n = (Spot.start (script.drop n)).within (script.take n) [] := by
  simp [Spot.start, Spot.advance, Spot.within]

/-- The rest of a script gives the items that it gives as a script of its own. -/
theorem items_advance (script : List Char) (n : Nat) (δ : Delimiter)
    (h : NoWordBefore (script.take n).reverse ∨
      ∀ c ∈ (script.drop n).head?, Text.isBlank c = true) :
    items d ⟨(Spot.start script).advance n, δ⟩ =
      (items d ⟨.start (script.drop n), δ⟩).map (Item.shift (script.take n)) := by
  have hbreak (script : List Char) (n : Nat) (h : NoWordBefore (script.take n).reverse) :
      items d ⟨(Spot.start script).advance n, δ⟩ =
        (items d ⟨.start (script.drop n), δ⟩).map (Item.shift (script.take n)) := by
    rw [start_advance]
    exact items_within h ⟨.start (script.drop n), δ⟩
  rcases h with hend | hblank
  · exact hbreak script n hend
  cases hdrop : script.drop n with
  | nil =>
      rw [items_of_nil (s := ⟨.start [], δ⟩) rfl]
      exact items_of_nil hdrop
  | cons c cs =>
      rw [hdrop] at hblank
      have hc : Text.isBlank c = true := hblank c rfl
      have htake : script.take (n + 1) = script.take n ++ [c] := by
        rw [List.take_add, hdrop]
        rfl
      have hdrop' : script.drop (n + 1) = cs := by
        rw [← List.drop_drop, hdrop]
        rfl
      -- the blank ends what comes before it, here and in the script of its own
      have hsolid (front : List Char) : NoWordBefore (front ++ [c]).reverse := by
        rw [List.reverse_append]
        rintro x hx
        cases hx
        exact Piece.not_isWordChar_of_isBlank hc
      have hthere := hbreak script (n + 1) (by rw [htake]; exact hsolid _)
      have hown := hbreak (c :: cs) 1 (hsolid [])
      rw [hdrop', htake] at hthere
      have hstart : (Spot.start (c :: cs)).ahead = c :: cs := rfl
      rw [items_of_blank hdrop hc, Spot.advance_advance, hthere, items_of_blank hstart hc, hown,
        List.map_map]
      exact List.map_congr_left fun i _ => (Item.shift_shift _ _ i).symm

/-- The block that is left open is cut off at the first delimiter, which comes into force again.
What follows is read as a script of its own. -/
theorem next_openBlock (d : Dialect) (script : List Char) (n : Nat) (δ : Delimiter)
    {u : Unfinished} {rest : Splitter}
    (h : next d ⟨(Spot.start script).advance n, δ⟩ = (some (.error u), rest))
    (hu : u.reason = .block)
    (hm : ∀ m ∈ Statement.moments d ((Spot.start script).advance n) δ .empty,
      m.hidesNone d = true) :
    CutOff d (toCode d ⟨(Spot.start script).advance n, δ⟩) u rest ∧
      (NoWordBefore rest.delimiter.toList.reverse ∨
          (∀ c ∈ rest.spot.ahead.head?, Text.isBlank c = true) →
        rest.items d = (items d ⟨.start rest.spot.ahead, rest.delimiter⟩).map
          (Item.shift ((Spot.start script).upTo rest.spot))) := by
  have hreads := reads_iff_next.2 h
  have hcut := hreads.cutOff_of_empty hm rfl hu
  refine ⟨hcut, fun hend => ?_⟩
  obtain ⟨ps, hlay, -, -⟩ := hreads.lay_of_empty
  obtain ⟨m, hspot⟩ := hlay.exists_advance
  rw [Spot.advance_advance] at hspot
  have hbehind : rest.spot.behind = (script.take (n + m)).reverse := by
    rw [hspot, Spot.advance, Spot.start, List.append_nil]
  have hahead : rest.spot.ahead = script.drop (n + m) := by rw [hspot, Spot.ahead_advance]; rfl
  have hitems := items_advance (d := d) script (n + m) rest.delimiter ?_
  · rw [← hspot] at hitems
    rw [hspot, Spot.upTo_advance, Spot.ahead_advance]
    exact hitems
  rw [← hbehind, ← hahead]
  rcases hend with hword | hblank
  · rcases hcut.noWordBefore hword with hnil | hbefore
    · refine .inr fun c hc => ?_
      rw [hnil] at hc
      cases hc
    · exact .inl hbefore
  · exact .inr hblank

/-- The directive after the cut is read again. -/
theorem next_openBlock_directive :
    ((Splitter.start "BEGIN a;\nDELIMITER @\nb; c@d").next .mySql).1 =
        some (.error ⟨.block, 0, 1, "BEGIN a"⟩) ∧
      ((Splitter.start "BEGIN a;\nDELIMITER @\nb; c@d").next .mySql).2.items .mySql =
        [.ok ⟨"b; c", 21, 3⟩, .ok ⟨"d", 26, 3⟩] := by
  have hitem : ((Splitter.start "BEGIN a;\nDELIMITER @\nb; c@d").next .mySql).1 =
      some (.error ⟨.block, 0, 1, "BEGIN a"⟩) := by decide +kernel
  refine ⟨hitem, ?_⟩
  obtain ⟨-, hitems⟩ := next_openBlock .mySql "BEGIN a;\nDELIMITER @\nb; c@d".toList 0 .semicolon
    (Prod.ext hitem rfl) rfl (by decide +kernel)
  rw [Splitter.start, ← Spot.advance_zero (.start _),
    hitems (.inl (Piece.noWordBefore_iff.2 (by decide +kernel)))]
  decide +kernel

/-- A delimiter `LOOP` after an `END` is taken along, and what it would end is not cut off. -/
theorem next_hiddenDelimiter :
    let s := Splitter.start "DELIMITER LOOP\nBEGIN BEGIN END LOOP x"
    let first := (s.toCode .mySql).toDelimiter .mySql
    first.delimiter = ⟨'L', "OOP".toList⟩ ∧ first.spot.ahead = "LOOP x".toList ∧
      unfinished .block (s.toCode .mySql).spot first.spot =
        .error ⟨.block, 15, 2, "BEGIN BEGIN END"⟩ ∧
      (s.next .mySql).1 = some (.error ⟨.block, 15, 2, "BEGIN BEGIN END LOOP x"⟩) ∧
      (s.next .mySql).2.items .mySql = [] := by
  decide +kernel

end Splitter

end Statement

end SchemaDrift
