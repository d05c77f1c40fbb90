import SchemaDrift.Proofs.Layout

namespace SchemaDrift.Statement

variable {d : Dialect} {start here there : Spot} {δ₀ δ δ' : Delimiter} {r r' : Draft}

theorem blockEffect_extra (δ : Delimiter) (r : Draft) (word rest : List Char) :
    (blockEffect δ r word rest).2 = 0 ∨
      Text.sameWord word "END".toList = true ∧ ∃ blanks closed tail,
        rest = blanks ++ (closed ++ tail) ∧ (∀ b ∈ blanks, Text.isBlank b = true) ∧
          Piece.headWord? (closed ++ tail) = some closed ∧
            isOneOf closed ("CASE" :: innerBlocks) = true ∧
              (blockEffect δ r word rest).2 = blanks.length + closed.length := by
  unfold blockEffect
  split
  · exact .inl rfl
  split
  · exact .inl rfl
  split
  · next hend =>
      rw [Bool.and_eq_true] at hend
      simp only [drop_length_takeWhile]
      split
      · exact .inl rfl
      · next closed hclosed =>
          obtain ⟨tail, htail⟩ := Piece.headWord?_prefix hclosed
          have hparts : rest = rest.takeWhile Text.isBlank ++ (closed ++ tail) := by
            rw [htail, List.takeWhile_append_dropWhile]
          have hblanks : ∀ b ∈ rest.takeWhile Text.isBlank, Text.isBlank b = true :=
            fun b hb => List.mem_takeWhile_imp hb
          have hhead : Piece.headWord? (closed ++ tail) = some closed := by rw [htail, hclosed]
          split
          · next hinner =>
              refine .inr ⟨hend.1, _, closed, tail, hparts, hblanks, hhead, ?_, rfl⟩
              rw [isOneOf, List.any_cons, ← isOneOf, hinner, Bool.or_true]
          split
          · next hcase =>
              refine .inr ⟨hend.1, _, closed, tail, hparts, hblanks, hhead, ?_, rfl⟩
              rw [isOneOf, List.any_cons, hcase, Bool.true_or]
          · exact .inl rfl
  · exact .inl rfl

/-- A word with what it takes with it. -/
theorem Scan.word {text run rest : List Char} (s : Scan d start δ₀ text here δ)
    (h : here.ahead = run ++ rest) (hc : Code d δ here.behind run rest) (r : Draft) {n : Nat}
    (hn : n = run.length + (blockEffect δ r run rest).2) :
    Scan d start δ₀ (text ++ here.ahead.take n) (here.advance n) δ := by
  rcases blockEffect_extra δ r run rest with
    hzero | ⟨hend, blanks, closed, tail, rfl, hblanks, -, hclosed, hlen⟩
  · rw [hn, hzero, Nat.add_zero, h, List.take_left]
    exact s.code h hc
  · have hrun : n = (run ++ (blanks ++ closed)).length := by
      rw [hn, hlen, List.length_append, List.length_append]
    have hahead : here.ahead = run ++ (blanks ++ closed) ++ tail := by
      rw [h, List.append_assoc, List.append_assoc]
    rw [hrun, hahead, List.take_left]
    exact s.closer h hc hend hblanks hclosed

namespace Draft

theorem filler_of_started (h : r.start = some start) (run : List Char) :
    r.filler run = { r with text := run.reverse ++ r.text } := by
  rw [filler, h]
  rfl

theorem code_of_started (h : r.start = some start) (here : Spot) (run : List Char) :
    r.code here run = { r with text := run.reverse ++ r.text } := by
  rw [code, h]

end Draft

structure Follows (d : Dialect) (start : Spot) (δ₀ : Delimiter) (here : Spot) (δ : Delimiter)
    (r : Draft) : Prop where
  started : r.start = some start
  scan : Scan d start δ₀ r.text.reverse here δ
  moved : here.ahead.length < start.ahead.length
  cut : ∀ stop resume inForce, r.fallback = some (stop, resume, inForce) →
    Lay d start δ₀
      [⟨start.upTo stop, some (unfinished .block start stop)⟩, ⟨inForce.toList, none⟩]
      resume inForce

theorem Span.lay_delimiter {stop : Spot} {item : Item} (s : Span d start δ₀ item stop δ)
    (h : δ.toList <+: stop.ahead) :
    Lay d start δ₀ [⟨start.upTo stop, some item⟩, ⟨δ.toList, none⟩]
      (stop.advance δ.toList.length) δ := by
  obtain ⟨rest, hrest⟩ := h
  exact .item s (.gap hrest.symm .delimiter .nil)

namespace Follows

theorem begin {c : Char} {cs run : List Char} {m : Nat} (hs : here.ahead = c :: cs) (hm : 0 < m)
    (hscan : Scan d here δ run (here.advance m) δ) (hstart : r.start = some here)
    (htext : r.text = run.reverse) (hcut : r.fallback = none) :
    Follows d here δ (here.advance m) δ r where
  started := hstart
  scan := by
    rw [htext, List.reverse_reverse]
    exact hscan
  moved := by
    rw [Spot.ahead_advance, List.length_drop, hs, List.length_cons]
    omega
  cut := by
    intro stop resume inForce h
    rw [hcut] at h
    cases h

/-- Reading on, whatever is taken in. -/
theorem extend (f : Follows d start δ₀ here δ r) {run : List Char} {m : Nat}
    (hscan : Scan d start δ₀ (r.text.reverse ++ run) (here.advance m) δ')
    (hstart : r'.start = r.start) (htext : r'.text = run.reverse ++ r.text)
    (hcut : r'.fallback = r.fallback) : Follows d start δ₀ (here.advance m) δ' r' where
  started := hstart.trans f.started
  scan := by
    rw [htext, List.reverse_append, List.reverse_reverse]
    exact hscan
  moved := by
    rw [Spot.ahead_advance, List.length_drop]
    exact Nat.lt_of_le_of_lt (Nat.sub_le _ _) f.moved
  cut := by
    rw [hcut]
    exact f.cut

theorem isSome_start (f : Follows d start δ₀ here δ r) : r.start.isSome = true := by
  rw [f.started]
  rfl

theorem pass {rest : List Char} (f : Follows d start δ₀ here δ r)
    (hs : here.ahead = δ.toList ++ rest)
    (hscan : Scan d start δ₀ (r.text.reverse ++ δ.toList) (here.advance δ.toList.length) δ) :
    Follows d start δ₀ (here.advance δ.toList.length) δ (r.pass here δ.toList.length δ) := by
  have hf : Follows d start δ₀ (here.advance δ.toList.length) δ (r.filler δ.toList) := by
    rw [Draft.filler_of_started f.started]
    exact f.extend hscan rfl rfl rfl
  unfold Draft.pass
  rw [hs, List.take_left]
  refine ⟨hf.started, hf.scan, hf.moved, ?_⟩
  intro stop resume inForce hcut
  cases hold : r.fallback with
  | some old =>
      rw [hold] at hcut
      exact f.cut stop resume inForce (hold.trans hcut)
  | none =>
      rw [hold] at hcut
      cases hcut
      have hδ : δ.toList <+: here.ahead := ⟨rest, hs.symm⟩
      exact (Span.block f.scan f.moved (.inr hδ)).lay_delimiter hδ

/-- A piece inside a statement that does not end it. -/
theorem accept {c : Char} {cs : List Char} {p : Piece} {n : Nat}
    (f : Follows d start δ₀ here δ r) (hs : here.ahead = c :: cs)
    (hp : Piece.next d δ true here.behind c cs = .ok (p, n))
    (h : accept here δ r n p = .go there δ' r') : Follows d start δ₀ there δ' r' := by
  obtain ⟨run, rest, hrun, hn, hform⟩ := Piece.next_spec hp
  have hahead : here.ahead = run ++ rest := hs.trans hrun
  have htake : here.ahead.take n = run := by rw [hahead, hn, List.take_left]
  have hdrop : here.ahead.drop n = rest := by rw [hahead, hn, List.drop_left]
  cases p with
  | blank =>
      obtain ⟨a, rfl, hblank⟩ := hform
      cases h
      rw [Draft.filler_of_started f.started, htake, hn]
      exact f.extend (f.scan.code hahead (.blank hblank)) rfl rfl rfl
  | comment sets =>
      cases h
      rw [Draft.filler_of_started f.started, hn]
      exact f.extend (f.scan.comment hahead hform) rfl rfl rfl
  | directive sets => cases hform.1
  | quoted | mark =>
      cases h
      rw [Draft.code_of_started f.started, htake, hn]
      exact f.extend (f.scan.code hahead hform) rfl rfl rfl
  | delimiter =>
      obtain ⟨rfl, hcomment⟩ := hform
      simp only [Statement.accept, f.started] at h
      split at h
      · cases h
      · cases h
        rw [hn]
        exact f.pass hahead (f.scan.code hahead (.delimiter hcomment))
  | word =>
      cases h
      unfold Draft.word
      rw [Draft.code_of_started f.started]
      refine f.extend (f.scan.word hahead hform r ?_) rfl rfl rfl
      rw [htake, hdrop, hn]

theorem go (f : Follows d start δ₀ here δ r) (h : turn d here δ r = .go there δ' r') :
    Follows d start δ₀ there δ' r' := by
  obtain ⟨c, cs, p, n, hs, hp, ha⟩ := exists_piece_of_go h
  rw [f.isSome_start] at hp
  exact f.accept hs hp ha

/-- At the end of the script. -/
theorem finish (f : Follows d start δ₀ here δ r) (hend : here.ahead = []) {item : Option Item}
    {rest : Splitter} (h : finish here δ r = (item, rest)) :
    ∃ i ps, item = some i ∧ Lay d start δ₀ ps rest.spot rest.delimiter ∧
      ps.filterMap Portion.item = [i] := by
  unfold Statement.finish at h
  simp only [f.started] at h
  split at h
  · cases h
    exact ⟨_, _, rfl, .item (.statement f.scan f.moved (.inl hend)) .nil, rfl⟩
  split at h
  · next hcut =>
      cases h
      exact ⟨_, _, rfl, f.cut _ _ _ hcut, rfl⟩
  · cases h
    exact ⟨_, _, rfl, .item (.block f.scan f.moved (.inl hend)) .nil, rfl⟩

theorem stop (f : Follows d start δ₀ here δ r) {item : Option Item} {rest : Splitter}
    (h : turn d here δ r = .stop item rest) :
    ∃ i ps, item = some i ∧ Lay d start δ₀ ps rest.spot rest.delimiter ∧
      ps.filterMap Portion.item = [i] := by
  unfold turn at h
  split at h
  · next hend =>
      cases h
      exact f.finish hend rfl
  · next c cs hs =>
      rw [f.isSome_start] at h
      split at h
      · next what hp =>
          cases h
          rw [f.started, Option.getD_some]
          exact ⟨_, _, rfl, .item (.unclosed f.scan (hs ▸ Piece.next_error hp)) .nil, rfl⟩
      · next p n hp =>
          obtain ⟨run, rest, hrun, hn, hform⟩ := Piece.next_spec hp
          obtain ⟨rfl, -, rfl, first, hfirst, rfl⟩ := accept_eq_stop h
          obtain rfl : start = first := Option.some.inj (f.started.symm.trans hfirst)
          obtain ⟨rfl, -⟩ := hform
          subst hn
          have hδ : δ.toList <+: here.ahead := ⟨rest, (hs.trans hrun).symm⟩
          exact ⟨_, _, rfl, (Span.statement f.scan f.moved (.inr hδ)).lay_delimiter hδ, rfl⟩

end Follows

/-- Outside statements a turn passes over a gap or begins a statement. -/
theorem go_of_empty (h : turn d here δ .empty = .go there δ' r') :
    (r' = .empty ∧ ∃ run rest, here.ahead = run ++ rest ∧ there = here.advance run.length ∧
      Gap d δ run rest δ') ∨ Follows d here δ there δ' r' := by
  obtain ⟨c, cs, p, n, hs, hp, ha⟩ := exists_piece_of_go h
  obtain ⟨run, rest, hrun, hn, hform⟩ := Piece.next_spec hp
  have hahead : here.ahead = run ++ rest := hs.trans hrun
  cases p with
  | blank =>
      cases ha
      obtain ⟨a, rfl, hblank⟩ := hform
      exact .inl ⟨rfl, [a], rest, hahead, by rw [hn], .blank hblank⟩
  | comment sets =>
      cases ha
      exact .inl ⟨rfl, run, rest, hahead, by rw [hn], .comment hform⟩
  | directive sets =>
      cases ha
      exact .inl ⟨rfl, run, rest, hahead, by rw [hn], .directive hform.2⟩
  | delimiter =>
      cases ha
      obtain ⟨rfl, -⟩ := hform
      exact .inl ⟨rfl, δ.toList, rest, hahead, by rw [hn], .delimiter⟩
  | quoted | mark =>
      cases ha
      have hscan := Scan.start.code hahead hform
      rw [← hn, List.nil_append] at hscan
      refine .inr (.begin hs (Piece.next_pos hp) hscan rfl ?_ rfl)
      rw [hahead, hn, List.take_left]
      rfl
  | word =>
      cases ha
      refine .inr (.begin hs (Nat.add_pos_left (Piece.next_pos hp) _)
        (Scan.start.word hahead hform .empty ?_) rfl rfl rfl)
      rw [hahead, hn, List.take_left, List.drop_left]

theorem stop_of_empty {item : Option Item} {rest : Splitter}
    (h : turn d here δ .empty = .stop item rest) :
    ∃ ps, Lay d here δ ps rest.spot rest.delimiter ∧ ps.filterMap Portion.item = item.toList ∧
      (item = none → rest.spot.ahead = []) := by
  unfold turn at h
  split at h
  · next hend =>
      cases h
      exact ⟨[], .nil, rfl, fun _ => hend⟩
  · next c cs hs =>
      split at h
      · next what hp =>
          cases h
          exact ⟨_, .item (.unclosed .start (hs ▸ Piece.next_error hp)) .nil, rfl, nofun⟩
      · next p n hp => cases p <;> cases h

/-- Reading from inside a statement gives that statement. -/
theorem Reads.lay {item : Option Item} {rest : Splitter} (h : Reads d here δ r item rest)
    (f : Follows d start δ₀ here δ r) :
    ∃ i ps, item = some i ∧ Lay d start δ₀ ps rest.spot rest.delimiter ∧
      ps.filterMap Portion.item = [i] := by
  induction h with
  | stop h => exact f.stop h
  | go h _ ih => exact ih (f.go h)

theorem Reads.lay_of_empty {item : Option Item} {rest : Splitter}
    (h : Reads d here δ .empty item rest) :
    ∃ ps, Lay d here δ ps rest.spot rest.delimiter ∧ ps.filterMap Portion.item = item.toList ∧
      (item = none → rest.spot.ahead = []) := by
  generalize hr : Draft.empty = r at h
  induction h with
  | stop h =>
      subst hr
      exact stop_of_empty h
  | go h t ih =>
      subst hr
      rcases go_of_empty h with ⟨rfl, run, rest, hahead, rfl, hgap⟩ | f
      · obtain ⟨ps, hlay, hitems, hend⟩ := ih rfl
        exact ⟨_, .gap hahead hgap hlay, hitems, hend⟩
      · obtain ⟨i, ps, rfl, hlay, hitems⟩ := t.lay f
        exact ⟨ps, hlay, hitems, nofun⟩

namespace Splitter

variable {s rest : Splitter} {item : Option Item}

theorem reads_iff_next : Reads d s.spot s.delimiter .empty item rest ↔ s.next d = (item, rest) :=
  reads_iff

theorem next_shorter {i : Item} (h : s.next d = (some i, rest)) :
    rest.spot.ahead.length < s.spot.ahead.length := by
  obtain ⟨ps, hlay, hitems, -⟩ := (reads_iff_next.2 h).lay_of_empty
  refine hlay.length_lt ?_
  rintro rfl
  cases hitems

inductive Yields (d : Dialect) : Splitter → List Item → Splitter → Prop
  | done {s last : Splitter} (h : s.next d = (none, last)) : Yields d s [] last
  | item {s rest last : Splitter} {i : Item} {items : List Item}
      (h : s.next d = (some i, rest)) (t : Yields d rest items last) : Yields d s (i :: items) last

theorem run_of_none (h : s.next d = (none, rest)) : s.run d = ([], rest) := by
  rw [run, h]

theorem run_of_some {i : Item} (h : s.next d = (some i, rest)) :
    s.run d = ((i, rest) :: (rest.run d).1, (rest.run d).2) := by
  rw [run, h]
  simp only [if_pos (next_shorter h)]

theorem yields_run (d : Dialect) (s : Splitter) :
    Yields d s ((s.run d).1.map Prod.fst) (s.run d).2 := by
  match h : s.next d with
  | (none, rest) =>
      rw [run_of_none h]
      exact .done h
  | (some i, rest) =>
      have := next_shorter h
      rw [run_of_some h]
      exact .item h (yields_run d rest)
termination_by s.spot.ahead.length

theorem Yields.lay {items : List Item} {last : Splitter} (h : Yields d s items last) :
    ∃ ps, Lay d s.spot s.delimiter ps last.spot last.delimiter ∧
      ps.filterMap Portion.item = items ∧ last.spot.ahead = [] := by
  induction h with
  | done h =>
      obtain ⟨ps, hlay, hitems, hend⟩ := (reads_iff_next.2 h).lay_of_empty
      exact ⟨ps, hlay, hitems, hend rfl⟩
  | item h _ ih =>
      obtain ⟨ps, hlay, hitems, -⟩ := (reads_iff_next.2 h).lay_of_empty
      obtain ⟨qs, hrest, hqs, hend⟩ := ih
      refine ⟨ps ++ qs, hlay.append hrest, ?_, hend⟩
      rw [List.filterMap_append, hitems, hqs]
      rfl

end Splitter

/-- How a script is laid out. Its portions follow one another without a break, the items are those
of the script, and what is no item holds no code. -/
structure Layout (d : Dialect) (script : String) (ps : List Portion) : Prop where
  lay : ∃ last δ, Lay d (.start script.toList) .semicolon ps last δ ∧ last.ahead = []
  covers : ps.flatMap Portion.run = script.toList
  items : ps.filterMap Portion.item = split d script
  nonempty : ∀ p ∈ ps, p.run ≠ []
  position : ∀ before p after item, ps = before ++ p :: after → p.item = some item →
    Item.offset item = Text.byteSize (before.flatMap Portion.run) ∧
      Item.line item = 1 + Text.newlines (before.flatMap Portion.run)
  spans : (ps.filterMap Portion.span?).Pairwise (fun s t => s.2 ≤ t.1) ∧
    ∀ s ∈ ps.filterMap Portion.span?, s.1 < s.2

/-- Splitting a script loses and repeats nothing: the items and what stands between them lay it out
from its start to its end. -/
theorem split_lossless (d : Dialect) (script : String) :
    (∃ last, Splitter.Yields d (.start script) (split d script) last) ∧
      ∃ ps, Layout d script ps := by
  have hyields := Splitter.yields_run d (.start script)
  obtain ⟨ps, hlay, hitems, hend⟩ := hyields.lay
  refine ⟨⟨_, hyields⟩, ps, ⟨_, _, hlay, hend⟩, ?_, hitems, hlay.run_ne_nil, ?_, ?_⟩
  · have hcovers := hlay.ahead_eq
    rw [hend, List.append_nil] at hcovers
    exact hcovers.symm
  · intro before p after item hps hitem
    have hposition := hlay.position hps hitem
    rwa [show (Splitter.start script).spot.offset = 0 from rfl, Nat.zero_add] at hposition
  · exact ⟨hlay.spans.1, fun s hs => (hlay.spans.2 s hs).2⟩

end SchemaDrift.Statement
