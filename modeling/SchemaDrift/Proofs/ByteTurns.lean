import SchemaDrift.Proofs.BytePieces
import SchemaDrift.Proofs.Lossless

namespace SchemaDrift

open Text

namespace Text

theorem newlines_charBytes (c : Char) : newlines (charBytes c) = newlines [c] := by
  by_cases hc : c.toNat < 128
  · rw [charBytes_of_ascii hc]
  · obtain ⟨b, bs, hb⟩ := exists_leads c
    have hwide := Nat.le_of_not_lt hc
    have hline : ('\n' : Char).toNat < 128 := by decide
    have hnot : '\n' ∉ charBytes c := by
      intro hmem
      rw [hb.charBytes_eq] at hmem
      have h := hb.apply_of_mem (isUniform_beq hline) _ hmem
      rw [beq_of_wide hline hwide, BEq.rfl] at h
      cases h
    have hnot' : '\n' ∉ [c] := by
      intro hmem
      rw [← List.mem_singleton.1 hmem] at hwide
      exact absurd hwide (by decide)
    rw [newlines, newlines, List.count_eq_zero_of_not_mem hnot, List.count_eq_zero_of_not_mem hnot']

theorem newlines_bytes (s : List Char) : newlines (bytes s) = newlines s := by
  induction s with
  | nil => rfl
  | cons c s ih =>
      rw [bytes_cons, newlines_append, newlines_charBytes, ih, ← newlines_append,
        List.singleton_append]

end Text

namespace Bytes

variable {script : List Char} {here there : Spot} {l l' : Lines} {n : Nat}

/-- What lies behind a place, in bytes. -/
theorem take_index_place (h : here.In script) :
    (bytes script).take here.place.index = bytes here.behind.reverse := by
  rw [h.script_eq, Spot.index_place, bytes_append, ← length_bytes, List.take_left]

structure Lines.IsRight (script : List Char) (l : Lines) (bound : Nat) : Prop where
  line_eq : l.line = 1 + newlines ((bytes script).take l.position)
  position_le : l.position ≤ bound

namespace Lines

theorem IsRight.mono {m : Nat} (hl : l.IsRight script n) (h : n ≤ m) : l.IsRight script m :=
  ⟨hl.line_eq, Nat.le_trans hl.position_le h⟩

theorem IsRight.upTo? (hl : l.IsRight script here.place.index) (h : here.In script) :
    ∃ l', l.upTo? script here.place.index = some l' ∧ l'.line = here.line ∧
      l'.IsRight script here.place.index := by
  have hline : here.line = 1 + newlines ((bytes script).take here.place.index) := by
    rw [take_index_place h, newlines_bytes, h.line_eq]
  have hle : here.place.index ≤ (bytes script).length := by
    rw [h.script_eq, Spot.index_place, length_bytes, byteSize_append]
    exact Nat.le_add_right _ _
  rw [Lines.upTo?]
  split
  · next hlt =>
      have htake : (bytes script).take here.place.index = (bytes script).take l.position ++
          ((bytes script).drop l.position).take (here.place.index - l.position) := by
        rw [← List.take_add, Nat.add_sub_cancel' (Nat.le_of_lt hlt)]
      rw [cut?, if_pos ⟨Nat.le_of_lt hlt, hle⟩]
      have hcount : l.line +
          newlines (((bytes script).drop l.position).take (here.place.index - l.position)) =
            1 + newlines ((bytes script).take here.place.index) := by
        rw [hl.line_eq, htake, newlines_append, Nat.add_assoc]
      exact ⟨_, rfl, hcount.trans hline.symm, hcount, Nat.le_refl _⟩
  · next hge =>
      have hsame : l.position = here.place.index :=
        Nat.le_antisymm hl.position_le (Nat.le_of_not_lt hge)
      exact ⟨l, rfl, by rw [hl.line_eq, hsame, hline], hl⟩

end Lines

theorem Place.index_le_advance (p : Place) (n : Nat) : p.index ≤ (p.advance n).index := by
  unfold Place.index Place.advance
  simp

theorem index_le_advance (here : Spot) (n : Nat) :
    here.place.index ≤ (here.advance n).place.index := by
  rw [Spot.place_advance]
  exact Place.index_le_advance _ _

structure Draft.Holds (script : List Char) (l : Lines) (start here : Spot)
    (r : Statement.Draft) (q : Draft) : Prop where
  start_in : start.In script
  lines : l.IsRight script start.place.index
  reached : ∃ n, here = start.advance n
  text : ∃ (segment : Spot) (n : Nat), segment.In script ∧ q.segment = segment.place ∧
    here = segment.advance n ∧ r.text.reverse = q.text ++ segment.ahead.take n

/-- What the reading by positions holds against what the reading by characters holds. -/
structure Draft.Tracks (script : List Char) (l : Lines) (here : Spot) (r : Statement.Draft)
    (q : Draft) : Prop where
  here_in : here.In script
  lines : l.IsRight script here.place.index
  start_eq : q.start = r.start.map Spot.place
  depth_eq : q.depth = r.depth
  lastWord_eq : q.lastWord = r.lastWord
  wordBefore_eq : q.wordBefore = r.wordBefore
  fallback_eq : q.fallback =
    r.fallback.map fun met => (met.1.place, met.2.1.place, met.2.2)
  fresh : r.start = none → r.depth = 0 ∧ r.fallback = none ∧ q.text = []
  holds : ∀ start, r.start = some start → q.Holds script l start here r
  cut : ∀ start met, r.start = some start → r.fallback = some met →
    ∃ m n, met.1 = start.advance m ∧ met.2.1 = start.advance n

variable {start : Spot} {r : Statement.Draft} {q : Draft}

namespace Draft

theorem isSome_code (p : Place) : (q.code p).start.isSome = true := by
  unfold Draft.code
  cases hstart : q.start with
  | none => rfl
  | some start =>
      dsimp only
      rw [hstart]
      rfl

theorem tracks_empty (h : here.In script) (hl : l.IsRight script here.place.index) :
    (Draft.empty here.place).Tracks script l here .empty where
  here_in := h
  lines := hl
  start_eq := rfl
  depth_eq := rfl
  lastWord_eq := rfl
  wordBefore_eq := rfl
  fallback_eq := rfl
  fresh := fun _ => ⟨rfl, rfl, rfl⟩
  holds := fun _ h => by cases h
  cut := fun _ _ h => by cases h

namespace Holds

theorem text?_eq (hq : q.Holds script l start here r) :
    q.text? script here.place = some r.text.reverse := by
  obtain ⟨segment, n, hsegment, hplace, rfl, htext⟩ := hq.text
  rw [Draft.text?, hplace, hsegment.slice?_advance, Option.map_some, htext]

theorem advance (hq : q.Holds script l start here r) {r' : Statement.Draft} {q' : Draft} {n : Nat}
    (htext : r'.text = (here.ahead.take n).reverse ++ r.text) (htext' : q'.text = q.text)
    (hsegment : q'.segment = q.segment) : q'.Holds script l start (here.advance n) r' where
  start_in := hq.start_in
  lines := hq.lines
  reached := by
    obtain ⟨m, rfl⟩ := hq.reached
    exact ⟨m + n, Spot.advance_advance _ _ _⟩
  text := by
    obtain ⟨segment, m, hin, hplace, rfl, hm⟩ := hq.text
    refine ⟨segment, m + n, hin, hsegment.trans hplace, Spot.advance_advance _ _ _, ?_⟩
    rw [htext, htext', List.reverse_append, List.reverse_reverse, hm, List.take_add,
      List.append_assoc]
    rfl

end Holds

namespace Tracks

theorem advanced (t : q.Tracks script l here r) (n : Nat) :
    (here.advance n).In script ∧ l.IsRight script (here.advance n).place.index :=
  ⟨t.here_in.advance n, t.lines.mono (index_le_advance here n)⟩

theorem isSome_start (t : q.Tracks script l here r) : q.start.isSome = r.start.isSome := by
  rw [t.start_eq, Option.isSome_map]

theorem ne_none {start : Spot} (h : r.start = some start) : r.start ≠ none :=
  h ▸ Option.some_ne_none start

theorem filler (t : q.Tracks script l here r) (n : Nat) :
    q.Tracks script l (here.advance n) (r.filler (here.ahead.take n)) := by
  obtain ⟨hin, hlines⟩ := t.advanced n
  cases hstart : r.start with
  | none =>
      rw [Statement.Draft.filler, hstart, Option.isSome_none, if_neg Bool.false_ne_true]
      exact { t with
        here_in := hin
        lines := hlines
        holds := fun start h => absurd hstart (ne_none h) }
  | some start =>
      rw [Statement.Draft.filler_of_started hstart]
      exact { t with
        here_in := hin
        lines := hlines
        fresh := fun h => absurd h (ne_none hstart)
        holds := fun start h => (t.holds start h).advance rfl rfl rfl }

theorem code (t : q.Tracks script l here r) (n : Nat) :
    (q.code here.place).Tracks script l (here.advance n) (r.code here (here.ahead.take n)) := by
  obtain ⟨hin, hlines⟩ := t.advanced n
  have hq := t.start_eq
  cases hstart : r.start with
  | none =>
      obtain ⟨-, hfallback, htext⟩ := t.fresh hstart
      rw [hstart] at hq
      simp only [Statement.Draft.code, hstart, Draft.code, hq, Option.map_none]
      exact { t with
        here_in := hin
        lines := hlines
        start_eq := rfl
        fresh := fun h => by cases h
        holds := fun start h => by
          cases h
          refine ⟨t.here_in, t.lines, ⟨n, rfl⟩, here, n, t.here_in, rfl, rfl, ?_⟩
          rw [htext, List.reverse_reverse, List.nil_append]
        cut := fun start met _ hmet => by
          dsimp only at hmet
          rw [hfallback] at hmet
          cases hmet }
  | some start =>
      rw [Statement.Draft.code_of_started hstart]
      rw [hstart] at hq
      simp only [Draft.code, hq, Option.map_some]
      exact { t with
        here_in := hin
        lines := hlines
        fresh := fun h => absurd h (ne_none hstart)
        holds := fun start h => (t.holds start h).advance rfl rfl rfl }

/-- A comment stands for a blank. -/
theorem comment (t : q.Tracks script l here r) (n : Nat) :
    ∃ text, (if r.start.isSome then (q.text? script here.place).map (· ++ [' ']) else some q.text) =
        some text ∧
      Draft.Tracks script l (here.advance n) (r.filler [' '])
        { q with text := text, segment := (here.advance n).place } := by
  obtain ⟨hin, hlines⟩ := t.advanced n
  cases hstart : r.start with
  | none =>
      rw [Statement.Draft.filler, hstart]
      exact ⟨q.text, rfl, { t with
        here_in := hin
        lines := hlines
        holds := fun start h => absurd hstart (ne_none h) }⟩
  | some start =>
      have hq := t.holds start hstart
      rw [Statement.Draft.filler_of_started hstart, Option.isSome_some, if_pos rfl, hq.text?_eq]
      obtain ⟨m, hm⟩ := hq.reached
      refine ⟨_, rfl, { t with
        here_in := hin
        lines := hlines
        fresh := fun h => absurd h (ne_none hstart)
        holds := fun start' h => ?_ }⟩
      obtain rfl : start = start' := Option.some.inj (hstart.symm.trans h)
      refine ⟨hq.start_in, hq.lines, ⟨m + n, ?_⟩, here.advance n, 0, hin, rfl, rfl, ?_⟩
      · rw [hm, Spot.advance_advance]
      · rw [List.take_zero, List.append_nil]
        exact List.reverse_append

/-- A delimiter inside a block. -/
theorem pass (t : q.Tracks script l here r) (hdepth : r.depth ≠ 0) (n : Nat) (δ : Delimiter) :
    Draft.Tracks script l (here.advance n) (r.pass here n δ)
      { q with fallback :=
          q.fallback.orElse fun _ => some (here.place, (here.advance n).place, δ) } := by
  have hfiller := t.filler n
  cases hstart : r.start with
  | none => exact absurd (t.fresh hstart).1 hdepth
  | some start =>
      rw [Statement.Draft.filler_of_started hstart] at hfiller
      rw [Statement.Draft.pass, Statement.Draft.filler_of_started hstart]
      obtain ⟨m, hm⟩ := (t.holds start hstart).reached
      refine { hfiller with
        fallback_eq := ?_
        fresh := fun h => absurd h (ne_none hstart)
        holds := fun start' h => (t.holds start' h).advance rfl rfl rfl
        cut := fun start' met h hmet => ?_ }
      · rw [t.fallback_eq]
        cases r.fallback <;> rfl
      · cases hold : r.fallback with
        | some old =>
            dsimp only at hmet
            rw [hold] at hmet
            exact t.cut start' met h (hold.trans hmet)
        | none =>
            dsimp only at hmet
            rw [hold] at hmet
            cases hmet
            obtain rfl : start = start' := Option.some.inj (hstart.symm.trans h)
            exact ⟨m, m + n, hm, by rw [hm, Spot.advance_advance]⟩

theorem afterRow_eq (t : q.Tracks script l here r) : q.afterRow = r.afterRow := by
  rw [Draft.afterRow, Statement.Draft.afterRow, t.lastWord_eq, t.wordBefore_eq]

end Tracks

end Draft

theorem extent_blanks (here : Spot) :
    extent here.ahead (here.ahead.takeWhile isBlank).length = blanksSize here.place := by
  rw [extent_takeWhile, blanksSize, Spot.place, takeWhile_bytes isUniform_isBlank, length_bytes]

theorem advance_blanks (here : Spot) :
    here.place.advance (blanksSize here.place) =
      (here.advance (here.ahead.takeWhile isBlank).length).place := by
  rw [Spot.place_advance, extent_blanks]

theorem opensBlock?_eq (h : here.In script) (δ : Delimiter) :
    opensBlock? script δ here.place = some (Statement.opensBlock δ here.ahead) := by
  have hahead : (here.advance (here.ahead.takeWhile isBlank).length).ahead =
      here.ahead.dropWhile isBlank := drop_length_takeWhile _ _
  have hplace : (here.advance (here.ahead.takeWhile isBlank).length).place.ahead =
      bytes (here.ahead.dropWhile isBlank) := congrArg bytes hahead
  have hempty : (bytes (here.ahead.dropWhile isBlank)).isEmpty =
      (here.ahead.dropWhile isBlank).isEmpty := by
    rw [Bool.eq_iff_iff, List.isEmpty_iff, List.isEmpty_iff, bytes_eq_nil_iff]
  rw [opensBlock?, advance_blanks, hplace, hempty, δ.toList_bytes, startsWith_bytes,
    (h.advance _).headWord?_eq, hahead]
  unfold Statement.opensBlock
  dsimp only
  split
  · rfl
  · cases Piece.headWord? (here.ahead.dropWhile isBlank) <;> rfl

namespace Draft

theorem Tracks.blockEffect?_eq (t : q.Tracks script l here r) (hthere : there.In script)
    (δ : Delimiter) (word : List Char) :
    blockEffect? script δ q word there.place =
      some ((Statement.blockEffect δ r word there.ahead).1,
        extent there.ahead (Statement.blockEffect δ r word there.ahead).2) := by
  have hahead : (there.advance (there.ahead.takeWhile isBlank).length).ahead =
      there.ahead.drop (there.ahead.takeWhile isBlank).length := rfl
  unfold blockEffect? Statement.blockEffect
  rw [t.afterRow_eq, t.depth_eq, opensBlock?_eq hthere, advance_blanks,
    (hthere.advance _).headWord?_eq, hahead]
  split
  · cases r.afterRow <;> rfl
  split
  · rfl
  split
  · dsimp only
    cases hword : Piece.headWord? (there.ahead.drop (there.ahead.takeWhile isBlank).length) with
    | none => rfl
    | some closed =>
        obtain ⟨rest, hrest⟩ := Piece.headWord?_prefix hword
        have hsize : blanksSize there.place + byteSize closed = extent there.ahead
            ((there.ahead.takeWhile isBlank).length + closed.length) := by
          rw [extent_add, extent_blanks, ← hrest, extent_append_length]
        simp only [Option.map_some, hsize]
        split
        · rfl
        split
        · rfl
        · rfl
  · rfl

end Draft

variable {d : Dialect} {δ : Delimiter}

theorem Draft.Holds.statement?_eq (hq : q.Holds script l start here r) :
    ∃ l', statement? script l q start.place here.place = some (.ok (r.statement start), l') ∧
      l'.IsRight script start.place.index := by
  obtain ⟨l', hl', hline, hright⟩ := hq.lines.upTo? hq.start_in
  refine ⟨l', ?_, hright⟩
  rw [statement?, hq.text?_eq, Option.bind_some, hl', Option.map_some, hq.start_in.index_place_eq,
    hline, Statement.Draft.statement]

theorem unfinished?_eq (hstart : start.In script) (hl : l.IsRight script start.place.index)
    (reason : Unclosed) (n : Nat) :
    ∃ l', unfinished? script l reason start.place (start.advance n).place =
        some (Statement.unfinished reason start (start.advance n), l') ∧
      l'.IsRight script start.place.index := by
  obtain ⟨l', hl', hline, hright⟩ := hl.upTo? hstart
  refine ⟨l', ?_, hright⟩
  rw [unfinished?, hl', Option.bind_some, hstart.slice?_advance, Option.map_some,
    hstart.index_place_eq, hline, Statement.unfinished, Spot.upTo_advance]

inductive Turn.Matches (script : List Char) (l : Lines) : Statement.Turn → Turn → Prop
  | stop {item : Option Statement.Item} {rest : Statement.Splitter} {l' : Lines}
      (hin : rest.spot.In script) (hl : l'.IsRight script rest.spot.place.index) :
      Matches script l (.stop item rest) (.stop item ⟨rest.spot.place, rest.delimiter, l'⟩)
  | go {there : Spot} {δ : Delimiter} {r : Statement.Draft} {q : Draft}
      (t : q.Tracks script l there r) : Matches script l (.go there δ r) (.go there.place δ q)

namespace Draft.Tracks

theorem skip (t : q.Tracks script l here r) (hstart : r.start = none) (n : Nat) (p : Place) :
    Draft.Tracks script l (here.advance n) r { q with segment := p } :=
  { t with
    here_in := t.here_in.advance n
    lines := t.lines.mono (index_le_advance here n)
    holds := fun _ h => absurd hstart (ne_none h) }

theorem word (t : q.Tracks script l here r) (n extra depth : Nat) :
    Draft.Tracks script l (here.advance (n + extra)) (r.word here n extra depth)
      { q.code here.place with
        depth := depth, wordBefore := q.lastWord, lastWord := here.ahead.take n } := by
  have hcode := t.code (n + extra)
  have hstart : (r.code here (here.ahead.take (n + extra))).start ≠ none := by
    unfold Statement.Draft.code
    cases hr : r.start with
    | none => exact Option.some_ne_none here
    | some start => exact Option.some_ne_none start
  exact { hcode with
    depth_eq := rfl
    lastWord_eq := rfl
    wordBefore_eq := t.lastWord_eq
    fresh := fun h => absurd h hstart
    holds := fun start h => { hcode.holds start h with } }

theorem accept?_word (t : q.Tracks script l here r) (n : Nat) :
    ∃ turn, accept? script l here.place δ q (extent here.ahead n) .word = some turn ∧
      Turn.Matches script l (Statement.accept here δ r n .word) turn := by
  have heffect := t.blockEffect?_eq (t.here_in.advance n) δ (here.ahead.take n)
  rw [Spot.ahead_advance] at heffect
  rw [accept?, t.here_in.text?_eq, Option.bind_some, ← Spot.place_advance, heffect,
    Option.map_some]
  dsimp only
  rw [← extent_add, ← Spot.place_advance]
  exact ⟨_, rfl, .go (t.word n _ _)⟩

theorem accept?_delimiter (t : q.Tracks script l here r) (n : Nat) :
    ∃ turn, accept? script l here.place δ q (extent here.ahead n) .delimiter = some turn ∧
      Turn.Matches script l (Statement.accept here δ r n .delimiter) turn := by
  have hstart := t.start_eq
  by_cases hdepth : r.depth = 0
  · simp only [accept?, Statement.accept, t.depth_eq, hdepth, if_true, ← Spot.place_advance]
    cases hr : r.start with
    | none =>
        rw [hr] at hstart
        simp only [hstart, Option.map_none]
        exact ⟨_, rfl, .go (t.skip hr n q.segment)⟩
    | some start =>
        rw [hr] at hstart
        have hq := t.holds start hr
        obtain ⟨l', hitem, hl'⟩ := hq.statement?_eq
        obtain ⟨m, rfl⟩ := hq.reached
        simp only [hstart, Option.map_some, hitem]
        refine ⟨_, rfl, .stop (t.here_in.advance n) (hl'.mono ?_)⟩
        exact Nat.le_trans (index_le_advance start m) (index_le_advance _ n)
  · simp only [accept?, Statement.accept, if_neg hdepth, ← Spot.place_advance]
    rw [if_neg (t.depth_eq ▸ hdepth)]
    exact ⟨_, rfl, .go (t.pass hdepth n δ)⟩

theorem accept?_eq (t : q.Tracks script l here r) {piece : Piece} {n : Nat}
    (hdirective : ∀ sets, piece = .directive sets → r.start = none) :
    ∃ turn, accept? script l here.place δ q (extent here.ahead n) piece = some turn ∧
      Turn.Matches script l (Statement.accept here δ r n piece) turn := by
  cases piece with
  | blank =>
      rw [accept?, ← Spot.place_advance]
      exact ⟨_, rfl, .go (t.filler n)⟩
  | comment sets =>
      obtain ⟨text, htext, ht⟩ := t.comment n
      rw [← t.isSome_start] at htext
      rw [accept?, htext, Option.map_some, ← Spot.place_advance]
      exact ⟨_, rfl, .go ht⟩
  | directive sets =>
      rw [accept?, ← Spot.place_advance]
      exact ⟨_, rfl, .go (t.skip (hdirective sets rfl) n _)⟩
  | quoted | mark =>
      rw [accept?, ← Spot.place_advance]
      exact ⟨_, rfl, .go (t.code n)⟩
  | delimiter => exact t.accept?_delimiter n
  | word => exact t.accept?_word n

/-- At the end of the script. -/
theorem finish?_eq (t : q.Tracks script l here r) :
    ∃ l', finish? script l here.place δ q =
        some ((Statement.finish here δ r).1,
          ⟨(Statement.finish here δ r).2.spot.place, (Statement.finish here δ r).2.delimiter, l'⟩) ∧
      (Statement.finish here δ r).2.spot.In script ∧
        l'.IsRight script (Statement.finish here δ r).2.spot.place.index := by
  unfold finish? Statement.finish
  rw [t.start_eq, t.depth_eq, t.fallback_eq]
  cases hstart : r.start with
  | none => exact ⟨l, rfl, t.here_in, t.lines⟩
  | some start =>
      have hq := t.holds start hstart
      obtain ⟨k, hk⟩ := hq.reached
      dsimp only [Option.map_some]
      split
      · obtain ⟨l', hitem, hl'⟩ := hq.statement?_eq
        rw [hitem]
        exact ⟨l', rfl, t.here_in, hl'.mono (hk ▸ index_le_advance start k)⟩
      · cases hmet : r.fallback with
        | none =>
            obtain ⟨l', hitem, hl'⟩ := unfinished?_eq hq.start_in hq.lines .block k
            rw [← hk] at hitem
            dsimp only [Option.map_none]
            rw [hitem]
            exact ⟨l', rfl, t.here_in, hl'.mono (hk ▸ index_le_advance start k)⟩
        | some met =>
            obtain ⟨m, n, hm, hn⟩ := t.cut start met hstart hmet
            obtain ⟨stop, resume, inForce⟩ := met
            dsimp only at hm hn
            subst hm hn
            obtain ⟨l', hitem, hl'⟩ := unfinished?_eq hq.start_in hq.lines .block m
            dsimp only [Option.map_some]
            rw [hitem]
            exact ⟨l', rfl, hq.start_in.advance n, hl'.mono (index_le_advance start n)⟩

end Draft.Tracks

theorem ne_mark_of_closed {what : Unclosed} {size : Option Nat} :
    Piece.closed what size ≠ .ok (.mark, n) := by
  cases size <;> exact fun h => by cases h

theorem eq_one_of_ofCode {behind s : List Char} {c : Char}
    (h : Piece.ofCode d δ behind c s = .ok (.mark, n)) : n = 1 := by
  unfold Piece.ofCode at h
  split at h
  · exact absurd h ne_mark_of_closed
  split at h
  · exact absurd h ne_mark_of_closed
  split at h
  · exact absurd h ne_mark_of_closed
  split at h
  · exact absurd h ne_mark_of_closed
  split at h
  · split at h
    · cases h
      rfl
    · exact absurd h ne_mark_of_closed
  split at h
  · cases h
  · cases h
    rfl

theorem eq_one_of_next {started : Bool} {behind s : List Char} {c : Char}
    (h : Piece.next d δ started behind c s = .ok (.mark, n)) : n = 1 := by
  unfold Piece.next at h
  split at h
  · cases h
  split at h
  · cases h
  split at h
  · split at h <;> cases h
  split at h
  · cases h
  split at h
  · cases h
  split at h
  · cases h
  · exact eq_one_of_ofCode h

theorem readItem?_of_stop {p : Place} {q : Draft} {item : Option Statement.Item} {rest : Splitter}
    (h : turn? d script l p δ q = some (.stop item rest)) :
    readItem? d script l p δ q = some (item, rest) := by
  rw [readItem?, h]

theorem readItem?_of_go {p p' : Place} {δ' : Delimiter} {q q' : Draft}
    (h : turn? d script l p δ q = some (.go p' δ' q')) (hlt : p'.ahead.length < p.ahead.length) :
    readItem? d script l p δ q = readItem? d script l p' δ' q' := by
  rw [readItem?, h]
  exact if_pos hlt

/-- A byte inside a character is a mark of its own. -/
theorem turn?_inside {p : Place} {b : Char} {s : List Char} (hs : p.ahead = b :: s)
    (hb : isContinuation b = true)
    (hbehind : (p.behind.head?.map Piece.isWordChar).getD false = true)
    (hstart : q.start.isSome = true) :
    turn? d script l p δ q = some (.go (p.advance 1) δ q) := by
  have hwide := le_of_isContinuation hb
  have hcode : q.code p = q := by
    unfold Draft.code
    cases hq : q.start with
    | none =>
        rw [hq] at hstart
        cases hstart
    | some start => rfl
  have hblank : isBlank b = false := by
    refine Bool.eq_false_iff.2 fun h => ?_
    exact absurd (toNat_lt_of_isBlank h) (Nat.not_lt_of_le hwide)
  have hmark : ofCode? d δ.bytes p.behind b s = some (.ok (.mark, 1)) := by
    unfold ofCode? Piece.ofCode
    simp only [beq_of_wide (by decide : '\''.toNat < 128) hwide,
      beq_of_wide (by decide : '"'.toNat < 128) hwide,
      beq_of_wide (by decide : '\x60'.toNat < 128) hwide,
      beq_of_wide (by decide : '['.toNat < 128) hwide,
      beq_of_wide (by decide : '$'.toNat < 128) hwide, Bool.false_and, Bool.false_eq_true, if_false,
      hbehind, Bool.not_true, Bool.and_false]
  have hδ : startsWith (b :: s) δ.bytes.toList = false := by
    rw [δ.toList_bytes]
    exact startsWith_continuation (List.cons_ne_nil _ _) hb s
  have hnext : next? d δ true script p b s = some (.ok (.mark, 1)) := by
    unfold next?
    rw [beq_of_wide (by decide) hwide, beq_of_wide (by decide) hwide,
      beq_of_wide (by decide) hwide, hblank, hδ, hmark]
    rfl
  simp only [turn?, hs, hstart, hnext, Option.bind_some, accept?, hcode]

/-- The bytes inside a character are passed over one by one. -/
theorem readItem?_inside (hstart : q.start.isSome = true) {bs : List Char}
    (hbs : ∀ e ∈ bs, isContinuation e = true) {p : Place} {s : List Char}
    (hs : p.ahead = bs ++ s) (hbehind : (p.behind.head?.map Piece.isWordChar).getD false = true) :
    readItem? d script l p δ q = readItem? d script l (p.advance bs.length) δ q := by
  induction bs generalizing p with
  | nil =>
      unfold Place.advance
      rfl
  | cons b bs ih =>
      obtain ⟨hb, hbs⟩ := List.forall_mem_cons.1 hbs
      have hone : (p.advance 1).ahead = bs ++ s := by
        unfold Place.advance
        rw [hs]
        rfl
      have hbehind' : ((p.advance 1).behind.head?.map Piece.isWordChar).getD false = true := by
        unfold Place.advance
        rw [hs]
        exact Piece.isWordChar_of_wide (le_of_isContinuation hb)
      have hlt : (p.advance 1).ahead.length < p.ahead.length := by
        rw [hone, hs, List.cons_append, List.length_cons]
        exact Nat.lt_succ_self _
      rw [readItem?_of_go (turn?_inside hs hb hbehind hstart) hlt, ih hbs hone hbehind',
        Place.advance_advance, Nat.add_comm]
      rfl

def Follows? (d : Dialect) (script : List Char) (l : Lines)
    (reading : Option (Option Statement.Item × Splitter)) : Statement.Turn → Prop
  | .stop item rest => ∃ l', reading = some (item, ⟨rest.spot.place, rest.delimiter, l'⟩) ∧
      rest.spot.In script ∧ l'.IsRight script rest.spot.place.index
  | .go there δ r => ∃ q : Draft, reading = readItem? d script l there.place δ q ∧
      q.Tracks script l there r

theorem length_place_lt (hthere : there.In script) (hhere : here.In script)
    (hlt : there.ahead.length < here.ahead.length) :
    there.place.ahead.length < here.place.ahead.length := by
  obtain ⟨run, hrun⟩ := List.suffix_of_suffix_length_le ⟨_, hthere.script_eq.symm⟩
    ⟨_, hhere.script_eq.symm⟩ (Nat.le_of_lt hlt)
  have hpos : 0 < byteSize run := by
    refine byteSize_pos fun h => ?_
    rw [h, List.nil_append] at hrun
    rw [hrun] at hlt
    exact absurd hlt (Nat.lt_irrefl _)
  rw [Spot.place, Spot.place, length_bytes, length_bytes, ← hrun, byteSize_append]
  omega

theorem Turn.Matches.follows {turn : Statement.Turn} {turn' : Turn}
    (hmatches : Turn.Matches script l turn turn')
    (h : turn? d script l here.place δ q = some turn')
    (hlt : ∀ there δ' r', turn = .go there δ' r' →
      there.place.ahead.length < here.place.ahead.length) :
    Follows? d script l (readItem? d script l here.place δ q) turn := by
  cases hmatches with
  | stop hin hl => exact ⟨_, readItem?_of_stop h, hin, hl⟩
  | go t => exact ⟨_, readItem?_of_go h (hlt _ _ _ rfl), t⟩

namespace Draft.Tracks

theorem getD_start (t : q.Tracks script l here r) :
    q.start.getD here.place = (r.start.getD here).place ∧ (r.start.getD here).In script ∧
      l.IsRight script (r.start.getD here).place.index ∧
        ∃ n, here = (r.start.getD here).advance n := by
  rw [t.start_eq]
  cases hstart : r.start with
  | none => exact ⟨rfl, t.here_in, t.lines, 0, rfl⟩
  | some start =>
      have hq := t.holds start hstart
      exact ⟨rfl, hq.start_in, hq.lines, hq.reached⟩

theorem follows_of_nil (t : q.Tracks script l here r) (hs : here.ahead = []) :
    Follows? d script l (readItem? d script l here.place δ q) (Statement.turn d here δ r) := by
  obtain ⟨l', hfinish, hin, hl'⟩ := t.finish?_eq (δ := δ)
  have hplace : here.place.ahead = [] := by
    rw [Spot.place, hs]
    rfl
  rw [Statement.turn_eq_stop_of_nil hs]
  refine ⟨l', readItem?_of_stop ?_, hin, hl'⟩
  simp only [turn?, hplace, hfinish, Option.map_some]

theorem follows_of_error (t : q.Tracks script l here r) {c b : Char} {s bs : List Char}
    (hs : here.ahead = c :: s) (hb : Leads c b bs) {what : Unclosed}
    (hp : Piece.next d δ r.start.isSome here.behind c s = .error what) :
    Follows? d script l (readItem? d script l here.place δ q) (Statement.turn d here δ r) := by
  have hplace : here.place.ahead = b :: (bs ++ bytes s) := by
    rw [Spot.place, hs]
    exact congrArg (· ++ bytes s) hb.charBytes_eq
  have hnext := t.here_in.next?_eq d δ r.start.isSome hs hb
  rw [hp] at hnext
  obtain ⟨hgetD, hin, hl, n, hn⟩ := t.getD_start
  have hend : here.toEnd = (r.start.getD here).advance (n + here.ahead.length) := by
    rw [← Spot.advance_advance, ← hn]
    rfl
  obtain ⟨l', hitem, hl'⟩ := unfinished?_eq hin hl what (n + here.ahead.length)
  rw [← hend] at hitem
  rw [Statement.turn_eq_stop_of_error hs hp]
  have hl'' : l'.IsRight script here.toEnd.place.index := by
    rw [hend]
    exact hl'.mono (index_le_advance _ _)
  refine ⟨l', readItem?_of_stop ?_, t.here_in.advance _, hl''⟩
  simp only [turn?, hplace, t.isSome_start, hnext, Option.bind_some, Except.map, hgetD,
    ← Spot.place_toEnd, hitem, Option.map_some]

/-- A mark of more than one byte takes a turn for each byte. -/
theorem follows_of_wide (t : q.Tracks script l here r) {c b : Char} {s bs : List Char}
    (hs : here.ahead = c :: s) (hb : Leads c b bs) (hc : 128 ≤ c.toNat)
    (hp : Piece.next d δ r.start.isSome here.behind c s = .ok (.mark, 1)) :
    Follows? d script l (readItem? d script l here.place δ q) (Statement.turn d here δ r) := by
  have hplace : here.place.ahead = b :: (bs ++ bytes s) := by
    rw [Spot.place, hs]
    exact congrArg (· ++ bytes s) hb.charBytes_eq
  have hnext := t.here_in.next?_eq d δ r.start.isSome hs hb
  rw [hp] at hnext
  have hturn : turn? d script l here.place δ q =
      some (.go (here.place.advance 1) δ (q.code here.place)) := by
    simp only [turn?, hplace, t.isSome_start, hnext, Option.bind_some, Except.map, measured,
      accept?, if_true]
  have hahead : (here.place.advance 1).ahead = bs ++ bytes s := by
    rw [Place.ahead_advance, hplace]
    rfl
  have hlt : (here.place.advance 1).ahead.length < here.place.ahead.length := by
    rw [hahead, hplace, List.length_cons]
    exact Nat.lt_succ_self _
  have hbehind : ((here.place.advance 1).behind.head?.map Piece.isWordChar).getD false = true := by
    have hword := (hb.apply Piece.isUniform_isWordChar).trans (Piece.isWordChar_of_wide hc)
    unfold Place.advance
    rw [hplace]
    exact hword
  have hthere : (here.place.advance 1).advance bs.length = (here.advance 1).place := by
    rw [Place.advance_advance, Spot.place_advance, hs, extent_cons, extent_zero, hb.utf8Size_eq,
      Nat.add_zero, Nat.add_comm]
  rw [Statement.turn_eq_accept hs hp]
  refine ⟨q.code here.place, ?_, t.code 1⟩
  rw [readItem?_of_go hturn hlt, readItem?_inside (isSome_code here.place) hb.inner hahead hbehind,
    hthere]

theorem follows (t : q.Tracks script l here r) :
    Follows? d script l (readItem? d script l here.place δ q) (Statement.turn d here δ r) := by
  cases hs : here.ahead with
  | nil => exact t.follows_of_nil hs
  | cons c s =>
      obtain ⟨b, bs, hb⟩ := exists_leads c
      have hplace : here.place.ahead = b :: (bs ++ bytes s) := by
        rw [Spot.place, hs]
        exact congrArg (· ++ bytes s) hb.charBytes_eq
      cases hp : Piece.next d δ r.start.isSome here.behind c s with
      | error what => exact t.follows_of_error hs hb hp
      | ok found =>
          obtain ⟨piece, n⟩ := found
          by_cases hwide : piece = .mark ∧ 128 ≤ c.toNat
          · obtain ⟨rfl, hc⟩ := hwide
            obtain rfl := eq_one_of_next hp
            exact t.follows_of_wide hs hb hc hp
          · have hsize : measured here.ahead (piece, n) = (piece, extent here.ahead n) := by
              unfold measured
              dsimp only
              split
              · next hmark =>
                  subst hmark
                  obtain rfl := eq_one_of_next hp
                  have hc : c.toNat < 128 := Nat.lt_of_not_le fun hc => hwide ⟨rfl, hc⟩
                  rw [hs, extent_cons, extent_zero, utf8Size_of_ascii hc]
              · rfl
            have hnext := t.here_in.next?_eq d δ r.start.isSome hs hb
            rw [hp] at hnext
            have hdirective (sets : Option Delimiter) (h : piece = .directive sets) :
                r.start = none := by
              subst h
              obtain ⟨-, -, -, -, hstarted, -⟩ := Piece.next_spec hp
              exact Option.not_isSome_iff_eq_none.1 (Bool.eq_false_iff.1 hstarted)
            obtain ⟨turn, haccept, hmatches⟩ := t.accept?_eq (δ := δ) (n := n) hdirective
            have hturn : turn? d script l here.place δ q = some turn := by
              simp only [turn?, hplace, t.isSome_start, hnext, Option.bind_some, Except.map, hsize,
                haccept]
            rw [← Statement.turn_eq_accept hs hp] at hmatches
            refine hmatches.follows hturn fun there δ' r' hgo => ?_
            obtain ⟨⟨m, -, rfl⟩, -⟩ :=
              Statement.accept_eq_go ((Statement.turn_eq_accept hs hp).symm.trans hgo)
            exact length_place_lt (t.here_in.advance m) t.here_in (Statement.length_lt_of_go hgo)

end Draft.Tracks

theorem readItem?_of_reads {item : Option Statement.Item} {rest : Statement.Splitter}
    (h : Statement.Reads d here δ r item rest) (t : q.Tracks script l here r) :
    ∃ l', readItem? d script l here.place δ q =
        some (item, ⟨rest.spot.place, rest.delimiter, l'⟩) ∧
      rest.spot.In script ∧ l'.IsRight script rest.spot.place.index := by
  induction h generalizing q with
  | @stop _ δ _ _ _ h =>
      have hfollows := t.follows (d := d) (δ := δ)
      rwa [h] at hfollows
  | @go _ _ δ _ _ _ _ _ h _ ih =>
      have hfollows := t.follows (d := d) (δ := δ)
      rw [h] at hfollows
      obtain ⟨q', hread, ht⟩ := hfollows
      rw [hread]
      exact ih ht

theorem run?_of_yields {s last : Statement.Splitter} {items : List Statement.Item}
    (h : Statement.Splitter.Yields d s items last) (hs : s.spot.In script)
    (hl : l.IsRight script s.spot.place.index) :
    Splitter.run? d script ⟨s.spot.place, s.delimiter, l⟩ = some items := by
  induction h generalizing l with
  | @done s _ h =>
      obtain ⟨l', hread, -⟩ := readItem?_of_reads (Statement.Splitter.reads_iff_next.2 h)
        (Draft.tracks_empty hs hl)
      have hnext : Splitter.next? d script ⟨s.spot.place, s.delimiter, l⟩ = some (none, _) := hread
      rw [Splitter.run?, hnext]
  | @item s rest _ i items h _ ih =>
      obtain ⟨l', hread, hrest, hl'⟩ := readItem?_of_reads (Statement.Splitter.reads_iff_next.2 h)
        (Draft.tracks_empty hs hl)
      have hnext : Splitter.next? d script ⟨s.spot.place, s.delimiter, l⟩ =
          some (some i, ⟨rest.spot.place, rest.delimiter, l'⟩) := hread
      have hlt := length_place_lt hrest hs (Statement.Splitter.next_shorter h)
      rw [Splitter.run?, hnext]
      dsimp only
      rw [if_pos hlt, ih hrest hl', Option.map_some]

/-- Splitting by the positions of bytes slices nothing but text, and gives the statements. -/
theorem split?_eq (d : Dialect) (script : String) :
    split? d script.toList = some (Statement.split d script) := by
  have hl : Lines.IsRight script.toList ⟨0, 1⟩ (Spot.start script.toList).place.index :=
    ⟨by rw [List.take_zero]; rfl, Nat.zero_le _⟩
  exact run?_of_yields (Statement.Splitter.yields_run d (.start script))
    (Spot.in_start script.toList) hl

end Bytes

end SchemaDrift
