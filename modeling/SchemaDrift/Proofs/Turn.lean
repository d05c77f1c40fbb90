import SchemaDrift.Statement.Split

namespace SchemaDrift

namespace Spot

theorem advance_length_take (s : Spot) (n : Nat) :
    s.advance (s.ahead.take n).length = s.advance n := by
  have htake : s.ahead.take (s.ahead.take n).length = s.ahead.take n := by simp
  have hdrop : s.ahead.drop (s.ahead.take n).length = s.ahead.drop n := by
    rw [List.length_take, ← List.drop_eq_drop_min]
  unfold advance
  rw [htake, hdrop]

theorem offset_advance (s : Spot) (n : Nat) :
    (s.advance n).offset = s.offset + Text.byteSize (s.ahead.take n) := rfl

theorem line_advance (s : Spot) (n : Nat) :
    (s.advance n).line = s.line + Text.newlines (s.ahead.take n) := rfl

theorem advance_zero (s : Spot) : s.advance 0 = s := rfl

theorem advance_advance (s : Spot) (n m : Nat) : (s.advance n).advance m = s.advance (n + m) := by
  unfold advance
  simp only [List.take_add, List.reverse_append, List.append_assoc, List.drop_drop,
    Text.byteSize_append, Text.newlines_append, Nat.add_assoc]

theorem toEnd_advance (s : Spot) (n : Nat) : (s.advance n).toEnd = s.toEnd := by
  unfold toEnd
  rw [advance_advance, ahead_advance, List.length_drop, ← advance_length_take s s.ahead.length,
    ← advance_length_take s (n + (s.ahead.length - n)), List.take_length,
    List.take_of_length_le (by omega)]

theorem toEnd_of_ahead_eq_nil {s : Spot} (h : s.ahead = []) : s.toEnd = s := by
  rw [toEnd, h, List.length_nil, advance_zero]

@[simp]
theorem ahead_toEnd (s : Spot) : s.toEnd.ahead = [] := List.drop_length

theorem upTo_advance (s : Spot) (n : Nat) : s.upTo (s.advance n) = s.ahead.take n := by
  unfold upTo
  rw [ahead_advance, List.length_drop, List.take_eq_take_iff]
  omega

end Spot

def Piece.sets : Piece → Option Delimiter
  | comment sets | directive sets => sets
  | _ => none

namespace Statement

inductive Turn
  | stop (item : Option Item) (rest : Splitter)
  | go (there : Spot) (delimiter : Delimiter) (r : Draft)

namespace Draft

def word (r : Draft) (here : Spot) (n extra depth : Nat) : Draft :=
  { r.code here (here.ahead.take (n + extra)) with
    depth := depth, wordBefore := r.lastWord, lastWord := here.ahead.take n }

def pass (r : Draft) (here : Spot) (n : Nat) (delimiter : Delimiter) : Draft :=
  { r.filler (here.ahead.take n) with
    fallback := r.fallback.orElse (fun _ => some (here, here.advance n, delimiter)) }

end Draft

def accept (here : Spot) (delimiter : Delimiter) (r : Draft) (n : Nat) : Piece → Turn
  | .blank => .go (here.advance n) delimiter (r.filler (here.ahead.take n))
  | .comment sets => .go (here.advance n) (sets.getD delimiter) (r.filler [' '])
  | .directive sets => .go (here.advance n) (sets.getD delimiter) r
  | .quoted | .mark => .go (here.advance n) delimiter (r.code here (here.ahead.take n))
  | .delimiter =>
      if r.depth = 0 then
        match r.start with
        | some start => .stop (some (.ok (r.statement start))) ⟨here.advance n, delimiter⟩
        | none => .go (here.advance n) delimiter r
      else .go (here.advance n) delimiter (r.pass here n delimiter)
  | .word =>
      let effect := blockEffect delimiter r (here.ahead.take n) (here.ahead.drop n)
      .go (here.advance (n + effect.2)) delimiter (r.word here n effect.2 effect.1)

def turn (d : Dialect) (here : Spot) (delimiter : Delimiter) (r : Draft) : Turn :=
  match here.ahead with
  | [] => .stop (finish here delimiter r).1 (finish here delimiter r).2
  | c :: cs =>
      match Piece.next d delimiter r.start.isSome here.behind c cs with
      | .error what =>
          .stop (some (unfinished what (r.start.getD here) here.toEnd)) ⟨here.toEnd, delimiter⟩
      | .ok (piece, n) => accept here delimiter r n piece

theorem readItem_eq_turn (d : Dialect) (here : Spot) (delimiter : Delimiter) (r : Draft) :
    readItem d here delimiter r =
      match turn d here delimiter r with
      | .stop item rest => (item, rest)
      | .go there δ r => readItem d there δ r := by
  rw [readItem]
  unfold turn
  split
  · next hs => simp only [hs]
  · next c cs hs =>
      simp only [hs]
      split
      · next hp => simp only [hp]
      · next piece n hp =>
          simp only [hp]
          cases piece with
          | delimiter =>
              simp only [accept, Draft.pass, hs]
              split
              · cases r.start <;> rfl
              · rfl
          | word => simp only [accept, Draft.word, hs]
          | blank | comment | directive | quoted | mark => simp only [accept, hs]

variable {d : Dialect} {here there : Spot} {δ δ' : Delimiter} {r r' : Draft}

theorem turn_eq_stop_of_nil (h : here.ahead = []) :
    turn d here δ r = .stop (finish here δ r).1 (finish here δ r).2 := by
  unfold turn
  rw [h]

theorem turn_eq_accept {c : Char} {cs : List Char} {piece : Piece} {n : Nat}
    (h : here.ahead = c :: cs)
    (hp : Piece.next d δ r.start.isSome here.behind c cs = .ok (piece, n)) :
    turn d here δ r = accept here δ r n piece := by
  unfold turn
  simp only [h, hp]

theorem turn_eq_stop_of_error {c : Char} {cs : List Char} {what : Unclosed}
    (h : here.ahead = c :: cs)
    (hp : Piece.next d δ r.start.isSome here.behind c cs = .error what) :
    turn d here δ r =
      .stop (some (unfinished what (r.start.getD here) here.toEnd)) ⟨here.toEnd, δ⟩ := by
  unfold turn
  simp only [h, hp]

theorem accept_delimiter {start : Spot} (hstart : r.start = some start) (hdepth : r.depth = 0)
    (n : Nat) :
    accept here δ r n .delimiter = .stop (some (.ok (r.statement start))) ⟨here.advance n, δ⟩ := by
  simp only [accept, if_pos hdepth, hstart]

/-- Past a delimiter reading goes on within blocks, and where no statement has begun. -/
theorem accept_delimiter_eq_go {n : Nat} (h : accept here δ r n .delimiter = .go there δ' r') :
    there = here.advance n ∧ δ' = δ ∧
      (r.start = none ∧ r' = r ∨ r' = r.pass here n δ) := by
  simp only [accept] at h
  split at h
  · split at h
    · cases h
    · next hstart =>
        cases h
        exact ⟨rfl, rfl, .inl ⟨hstart, rfl⟩⟩
  · cases h
    exact ⟨rfl, rfl, .inr rfl⟩

/-- Only a delimiter outside blocks stops a statement. -/
theorem accept_eq_stop {piece : Piece} {n : Nat} {item : Option Item} {rest : Splitter}
    (h : accept here δ r n piece = .stop item rest) :
    piece = .delimiter ∧ r.depth = 0 ∧ rest = ⟨here.advance n, δ⟩ ∧
      ∃ start, r.start = some start ∧ item = some (.ok (r.statement start)) := by
  cases piece with
  | delimiter =>
      simp only [accept] at h
      split at h
      · next hdepth =>
          split at h
          · next start hstart =>
              cases h
              exact ⟨rfl, hdepth, rfl, start, hstart, rfl⟩
          · cases h
      · cases h
  | blank | comment | directive | quoted | mark | word => cases h

/-- Reading goes on after the piece, with the delimiter that the piece sets, if it sets one. -/
theorem accept_eq_go {piece : Piece} {n : Nat} (h : accept here δ r n piece = .go there δ' r') :
    (∃ m, n ≤ m ∧ there = here.advance m) ∧ δ' = piece.sets.getD δ ∧
      ∀ start, r.start = some start → r'.start = some start := by
  cases piece with
  | delimiter =>
      obtain ⟨hthere, rfl, ⟨-, rfl⟩ | rfl⟩ := accept_delimiter_eq_go h
      · exact ⟨⟨n, Nat.le_refl n, hthere⟩, rfl, fun _ hstart => hstart⟩
      · refine ⟨⟨n, Nat.le_refl n, hthere⟩, rfl, fun start hstart => ?_⟩
        simp only [Draft.pass, Draft.filler, hstart, Option.isSome_some, if_true]
  | blank | comment =>
      cases h
      refine ⟨⟨n, Nat.le_refl n, rfl⟩, rfl, fun start hstart => ?_⟩
      simp only [Draft.filler, hstart, Option.isSome_some, if_true]
  | directive =>
      cases h
      exact ⟨⟨n, Nat.le_refl n, rfl⟩, rfl, fun _ hstart => hstart⟩
  | quoted | mark =>
      cases h
      refine ⟨⟨n, Nat.le_refl n, rfl⟩, rfl, fun start hstart => ?_⟩
      simp only [Draft.code, hstart]
  | word =>
      cases h
      refine ⟨⟨_, Nat.le_add_right n _, rfl⟩, rfl, fun start hstart => ?_⟩
      simp only [Draft.word, Draft.code, hstart]

theorem fallback_eq_of_accept {piece : Piece} {n : Nat}
    (h : accept here δ r n piece = .go there δ' r') (hne : piece ≠ .delimiter) :
    r'.fallback = r.fallback := by
  cases piece with
  | blank | comment =>
      cases h
      unfold Draft.filler
      split <;> rfl
  | directive =>
      cases h
      rfl
  | quoted | mark =>
      cases h
      unfold Draft.code
      split <;> rfl
  | delimiter => exact absurd rfl hne
  | word =>
      cases h
      unfold Draft.word Draft.code
      split <;> rfl

/-- A delimiter within blocks is where reading may resume, and the one in force there is its own. -/
theorem fallback_of_accept {piece : Piece} {n : Nat} {cut : Spot × Spot × Delimiter}
    (h : accept here δ r n piece = .go there δ' r') (hcut : cut ∈ r'.fallback) :
    cut ∈ r.fallback ∨ cut.2.2 = δ := by
  by_cases hne : piece = .delimiter
  · subst hne
    obtain ⟨-, -, ⟨-, rfl⟩ | rfl⟩ := accept_delimiter_eq_go h
    · exact .inl hcut
    · cases hold : r.fallback with
      | some old =>
          rw [Draft.pass, hold] at hcut
          exact .inl hcut
      | none =>
          rw [Draft.pass, hold] at hcut
          cases hcut
          exact .inr rfl
  · rw [fallback_eq_of_accept h hne] at hcut
    exact .inl hcut

theorem exists_piece_of_go (h : turn d here δ r = .go there δ' r') :
    ∃ c cs piece n, here.ahead = c :: cs ∧
      Piece.next d δ r.start.isSome here.behind c cs = .ok (piece, n) ∧
      accept here δ r n piece = .go there δ' r' := by
  unfold turn at h
  split at h
  · cases h
  · next c cs hs =>
      split at h
      · cases h
      · next piece n hp => exact ⟨c, cs, piece, n, hs, hp, h⟩

theorem length_lt_of_go (h : turn d here δ r = .go there δ' r') :
    there.ahead.length < here.ahead.length := by
  obtain ⟨c, cs, piece, n, hs, hp, ha⟩ := exists_piece_of_go h
  obtain ⟨⟨m, hm, rfl⟩, -⟩ := accept_eq_go ha
  have hn := Piece.next_pos hp
  rw [Spot.ahead_advance, List.length_drop, hs, List.length_cons]
  omega

/-- Reading from `here` on, turn by turn, ends with the item, if any, and the splitter. -/
inductive Reads (d : Dialect) : Spot → Delimiter → Draft → Option Item → Splitter → Prop
  | stop {here : Spot} {δ : Delimiter} {r : Draft} {item : Option Item} {rest : Splitter}
      (h : turn d here δ r = .stop item rest) : Reads d here δ r item rest
  | go {here there : Spot} {δ δ' : Delimiter} {r r' : Draft} {item : Option Item}
      {rest : Splitter} (h : turn d here δ r = .go there δ' r')
      (t : Reads d there δ' r' item rest) : Reads d here δ r item rest

/-- What the delimiter in force has, and every delimiter that a turn sets, the one that reading
leaves in force has. -/
theorem Reads.delimiter {P : Delimiter → Prop} {item : Option Item} {rest : Splitter}
    (h : Reads d here δ r item rest)
    (hset : ∀ {here there δ δ' r r'}, turn d here δ r = .go there δ' r' → P δ → P δ') (hδ : P δ)
    (hcut : ∀ cut ∈ r.fallback, P cut.2.2) : P rest.delimiter := by
  induction h with
  | @stop here δ r item rest h =>
      unfold turn at h
      split at h
      · obtain ⟨-, rfl⟩ := Turn.stop.inj h
        unfold finish
        split
        · exact hδ
        split
        · exact hδ
        split
        · next hfallback => exact hcut _ hfallback
        · exact hδ
      split at h
      · cases h
        exact hδ
      · obtain ⟨-, -, rfl, -⟩ := accept_eq_stop h
        exact hδ
  | @go here there δ δ' r r' item rest h _ ih =>
      refine ih (hset h hδ) fun cut hcut' => ?_
      obtain ⟨c, cs, piece, n, -, -, ha⟩ := exists_piece_of_go h
      rcases fallback_of_accept ha hcut' with hold | hsame
      · exact hcut cut hold
      · exact hsame ▸ hδ

theorem reads_readItem (d : Dialect) (here : Spot) (δ : Delimiter) (r : Draft) :
    Reads d here δ r (readItem d here δ r).1 (readItem d here δ r).2 := by
  rw [readItem_eq_turn]
  cases h : turn d here δ r with
  | stop item rest => exact .stop h
  | go there δ' r' =>
      have := length_lt_of_go h
      exact .go h (reads_readItem d there δ' r')
termination_by here.ahead.length

theorem Reads.readItem_eq {item : Option Item} {rest : Splitter}
    (h : Reads d here δ r item rest) : readItem d here δ r = (item, rest) := by
  induction h with
  | stop h => rw [readItem_eq_turn, h]
  | go h _ ih =>
      rw [readItem_eq_turn, h]
      exact ih

theorem reads_iff {item : Option Item} {rest : Splitter} :
    Reads d here δ r item rest ↔ readItem d here δ r = (item, rest) := by
  constructor
  · exact Reads.readItem_eq
  · intro h
    have hr := reads_readItem d here δ r
    rwa [h] at hr

end Statement

end SchemaDrift
