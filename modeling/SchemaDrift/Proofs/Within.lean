import SchemaDrift.Proofs.Lossless
import SchemaDrift.Proofs.Surroundings

namespace SchemaDrift

def Spot.within (p t : List Char) (s : Spot) : Spot :=
  ⟨s.behind ++ p.reverse, s.ahead ++ t, s.offset + Text.byteSize p, s.line + Text.newlines p⟩

theorem Spot.take_within (p t : List Char) {s : Spot} {n : Nat} (h : n ≤ s.ahead.length) :
    (s.within p t).ahead.take n = s.ahead.take n := List.take_append_of_le_length h

theorem Spot.drop_within (p t : List Char) {s : Spot} {n : Nat} (h : n ≤ s.ahead.length) :
    (s.within p t).ahead.drop n = s.ahead.drop n ++ t := List.drop_append_of_le_length h

theorem Spot.ahead_within_of_end (p t : List Char) {s : Spot} (h : s.ahead = []) :
    (s.within p t).ahead = t := by
  rw [within, h]
  rfl

theorem Spot.advance_within (p t : List Char) {s : Spot} {n : Nat} (h : n ≤ s.ahead.length) :
    (s.within p t).advance n = (s.advance n).within p t := by
  unfold within advance
  simp only [List.take_append_of_le_length h, List.drop_append_of_le_length h, List.append_assoc,
    Nat.add_right_comm]

namespace Statement

variable {d : Dialect} {here there : Spot} {δ δ' : Delimiter} {r r' : Draft} {p t : List Char}

def Item.shift (p : List Char) : Item → Item
  | .ok s => .ok { s with offset := s.offset + Text.byteSize p, line := s.line + Text.newlines p }
  | .error u =>
      .error { u with offset := u.offset + Text.byteSize p, line := u.line + Text.newlines p }

def Draft.within (p t : List Char) (r : Draft) : Draft :=
  { r with
    start := r.start.map (Spot.within p t)
    fallback := r.fallback.map (fun f => (f.1.within p t, f.2.1.within p t, f.2.2)) }

def Splitter.within (p t : List Char) (s : Splitter) : Splitter :=
  ⟨s.spot.within p t, s.delimiter⟩

def Turn.within (p t : List Char) : Turn → Turn
  | .stop item rest => .stop (item.map (Item.shift p)) (rest.within p t)
  | .go there δ r => .go (there.within p t) δ (r.within p t)

namespace Draft

theorem isSome_start_within (p t : List Char) (r : Draft) :
    (r.within p t).start.isSome = r.start.isSome := by
  unfold within
  rw [Option.isSome_map]

theorem filler_within (p t : List Char) (r : Draft) (run : List Char) :
    (r.within p t).filler run = (r.filler run).within p t := by
  unfold filler
  rw [isSome_start_within]
  split <;> rfl

theorem code_within (p t : List Char) (r : Draft) (here : Spot) (run : List Char) :
    (r.within p t).code (here.within p t) run = (r.code here run).within p t := by
  unfold code within
  cases r.start <;> rfl

theorem word_within (p t : List Char) (r : Draft) {n extra : Nat} (depth : Nat)
    (h : n + extra ≤ here.ahead.length) :
    (r.within p t).word (here.within p t) n extra depth =
      (r.word here n extra depth).within p t := by
  have hn : n ≤ here.ahead.length := Nat.le_trans (Nat.le_add_right n extra) h
  unfold word
  rw [Spot.take_within p t h, Spot.take_within p t hn, code_within]
  rfl

theorem pass_within (p t : List Char) (r : Draft) {n : Nat} (δ : Delimiter)
    (h : n ≤ here.ahead.length) :
    (r.within p t).pass (here.within p t) n δ = (r.pass here n δ).within p t := by
  unfold pass
  rw [Spot.take_within p t h, filler_within, Spot.advance_within p t h]
  cases hf : r.fallback <;> simp [within, hf]

end Draft

theorem blockEffect_within (p t : List Char) (δ : Delimiter) (r : Draft) (word rest : List Char) :
    blockEffect δ (r.within p t) word rest = blockEffect δ r word rest := rfl

theorem blockEffect_extra_le (δ : Delimiter) (r : Draft) (word rest : List Char) :
    (blockEffect δ r word rest).2 ≤ rest.length := by
  rcases blockEffect_extra δ r word rest with
    hzero | ⟨-, blanks, closed, tail, hrest, -, -, -, hlen⟩
  · rw [hzero]
    exact Nat.zero_le _
  · have hrest := congrArg List.length hrest
    simp only [List.length_append] at hrest
    omega

theorem blockEffect_extra_of_headWord? (δ : Delimiter) (r : Draft) (word : List Char)
    {rest : List Char} (h : Piece.headWord? (rest.dropWhile Text.isBlank) = none) :
    (blockEffect δ r word rest).2 = 0 := by
  unfold blockEffect
  simp only [drop_length_takeWhile, h]
  split
  · rfl
  split
  · rfl
  split <;> rfl

/-- What follows a break does not matter to a word if there is something before the break. -/
theorem blockEffect_append {b : Char} (hb : Text.isBreak b = true) {t : List Char}
    (ht : Ends b t) (hδ : b ∉ δ.toList) (r : Draft) (word : List Char) {rest : List Char}
    (hrest : ¬ ∀ c ∈ rest, Text.isBlank c = true) :
    blockEffect δ r word (rest ++ t) = blockEffect δ r word rest := by
  have hnext : rest.dropWhile Text.isBlank ≠ [] := fun hnil =>
    hrest (by simpa using hnil)
  obtain ⟨c, next, hnext⟩ := List.exists_cons_of_ne_nil hnext
  have hdrop : (rest ++ t).dropWhile Text.isBlank = c :: next ++ t := by
    rw [List.dropWhile_append, hnext]
    rfl
  have htake : (rest ++ t).takeWhile Text.isBlank = rest.takeWhile Text.isBlank := by
    have hlen : (rest.takeWhile Text.isBlank).length ≠ rest.length := by
      have hsplit := congrArg List.length
        (List.takeWhile_append_dropWhile (p := Text.isBlank) (l := rest))
      rw [hnext, List.length_append, List.length_cons] at hsplit
      omega
    rw [List.takeWhile_append, if_neg hlen]
  have hopens : opensBlock δ (rest ++ t) = opensBlock δ rest := by
    unfold opensBlock
    dsimp only
    rw [hdrop, hnext, ht.startsWith_append hδ, ht.headWord?_append hb]
    rfl
  have hword : Piece.headWord? ((rest ++ t).drop (rest.takeWhile Text.isBlank).length) =
      Piece.headWord? (rest.drop (rest.takeWhile Text.isBlank).length) := by
    rw [drop_length_takeWhile, ← htake, drop_length_takeWhile, hdrop, hnext,
      ht.headWord?_append hb]
  unfold blockEffect
  simp only [hopens, htake, hword]

theorem accept_word_within {n depth extra : Nat} (hn : n + extra ≤ here.ahead.length)
    (h : blockEffect δ r (here.ahead.take n) (here.ahead.drop n ++ t) = (depth, extra)) :
    accept (here.within p t) δ (r.within p t) n .word =
      .go ((here.advance (n + extra)).within p t) δ ((r.word here n extra depth).within p t) := by
  have hn' : n ≤ here.ahead.length := Nat.le_trans (Nat.le_add_right n extra) hn
  simp only [accept, Spot.take_within p t hn', Spot.drop_within p t hn', blockEffect_within, h,
    Spot.advance_within p t hn, Draft.word_within p t r _ hn]

theorem accept_within_of_ne_word {piece : Piece} {n : Nat} (hn : n ≤ here.ahead.length)
    (hword : piece ≠ .word) :
    accept (here.within p t) δ (r.within p t) n piece = (accept here δ r n piece).within p t := by
  cases piece with
  | blank | comment sets =>
      simp only [accept, Turn.within, Spot.advance_within p t hn, Spot.take_within p t hn,
        Draft.filler_within]
  | directive sets => simp only [accept, Turn.within, Spot.advance_within p t hn]
  | quoted | mark =>
      simp only [accept, Turn.within, Spot.advance_within p t hn, Spot.take_within p t hn,
        Draft.code_within]
  | delimiter =>
      simp only [accept, Spot.advance_within p t hn, Draft.pass_within p t r δ hn]
      by_cases hdepth : r.depth = 0
      · rw [if_pos hdepth, if_pos (show (r.within p t).depth = 0 from hdepth)]
        obtain ⟨start, _⟩ := r
        cases start <;> rfl
      · rw [if_neg hdepth, if_neg (show ¬ (r.within p t).depth = 0 from hdepth)]
        rfl
  | word => exact absurd rfl hword

/-- A turn goes the same way in the longer script if the same piece is found there, and if a word
does the same to the blocks. -/
theorem accept_within {piece : Piece} {n : Nat} (hn : n ≤ here.ahead.length)
    (hword : piece = .word →
      blockEffect δ r (here.ahead.take n) (here.ahead.drop n ++ t) =
        blockEffect δ r (here.ahead.take n) (here.ahead.drop n)) :
    accept (here.within p t) δ (r.within p t) n piece = (accept here δ r n piece).within p t := by
  by_cases hpiece : piece = .word
  · subst hpiece
    have hle := blockEffect_extra_le δ r (here.ahead.take n) (here.ahead.drop n)
    rw [List.length_drop] at hle
    have hm : n + (blockEffect δ r (here.ahead.take n) (here.ahead.drop n)).2 ≤
        here.ahead.length := by omega
    exact accept_word_within hm (hword rfl)
  · exact accept_within_of_ne_word hn hpiece

theorem turn_within {c : Char} {cs : List Char} {piece : Piece} {n : Nat}
    (hs : here.ahead = c :: cs)
    (hp : Piece.next d δ r.start.isSome here.behind c cs = .ok (piece, n))
    (hq : Piece.next d δ r.start.isSome (here.behind ++ p.reverse) c (cs ++ t) = .ok (piece, n))
    (hword : piece = .word →
      blockEffect δ r (here.ahead.take n) (here.ahead.drop n ++ t) =
        blockEffect δ r (here.ahead.take n) (here.ahead.drop n)) :
    turn d (here.within p t) δ (r.within p t) = (turn d here δ r).within p t := by
  have hs' : (here.within p t).ahead = c :: (cs ++ t) := by
    rw [Spot.within, hs]
    rfl
  have hle : n ≤ here.ahead.length := by
    rw [hs]
    exact Piece.next_le hp
  rw [← Draft.isSome_start_within p t r] at hq
  rw [turn_eq_accept hs hp, turn_eq_accept hs' hq, accept_within hle hword]

theorem unfinished_shift (p : List Char) (what : Unclosed) (start stop : Spot) :
    unfinished what (start.within p []) (stop.within p []) =
      Item.shift p (unfinished what start stop) := by
  unfold unfinished Spot.upTo Spot.within
  simp only [List.append_nil]
  rfl

theorem finish_shift (p : List Char) (here : Spot) (δ : Delimiter) (r : Draft) :
    finish (here.within p []) δ (r.within p []) =
      ((finish here δ r).1.map (Item.shift p), (finish here δ r).2.within p []) := by
  obtain ⟨start, text, depth, lastWord, wordBefore, fallback⟩ := r
  cases start with
  | none => rfl
  | some start =>
      cases depth with
      | zero => rfl
      | succ depth =>
          cases fallback with
          | none =>
              simp only [finish, Draft.within, Option.map_some, Option.map_none,
                if_neg (Nat.succ_ne_zero depth), unfinished_shift]
              rfl
          | some f =>
              simp only [finish, Draft.within, Option.map_some, if_neg (Nat.succ_ne_zero depth),
                unfinished_shift]
              rfl

theorem turn_shift (hp : NoWordBefore p.reverse) (here : Spot) (δ : Delimiter) (r : Draft) :
    turn d (here.within p []) δ (r.within p []) = (turn d here δ r).within p [] := by
  cases hs : here.ahead with
  | nil =>
      rw [turn_eq_stop_of_nil hs, turn_eq_stop_of_nil (Spot.ahead_within_of_end p [] hs),
        finish_shift]
      rfl
  | cons c cs =>
      have hnext := hp.next_behind_append d δ r.start.isSome here.behind c cs
      cases hn : Piece.next d δ r.start.isSome here.behind c cs with
      | ok piece =>
          refine turn_within hs hn ?_ (fun _ => by rw [List.append_nil])
          rw [List.append_nil, hnext, hn]
      | error what =>
          have hs' : (here.within p []).ahead = c :: cs := by
            rw [Spot.within, hs]
            exact List.append_nil _
          have hn' : Piece.next d δ (r.within p []).start.isSome (here.within p []).behind c cs =
              .error what := by
            rw [Draft.isSome_start_within]
            exact hnext.trans hn
          have hend : (here.within p []).toEnd = here.toEnd.within p [] := by
            rw [Spot.toEnd, hs', ← hs, Spot.advance_within p [] (Nat.le_refl _)]
            rfl
          have hstart : (r.within p []).start.getD (here.within p []) =
              (r.start.getD here).within p [] := Option.getD_map (Spot.within p []) here r.start
          rw [turn_eq_stop_of_error hs hn, turn_eq_stop_of_error hs' hn', hend, hstart,
            unfinished_shift]
          rfl

theorem Reads.shift (hp : NoWordBefore p.reverse) {item : Option Item} {rest : Splitter}
    (h : Reads d here δ r item rest) :
    Reads d (here.within p []) δ (r.within p []) (item.map (Item.shift p)) (rest.within p []) := by
  induction h with
  | @stop here δ r item rest h =>
      exact .stop (by rw [turn_shift hp, h]; rfl)
  | @go here there δ δ' r r' item rest h _ ih =>
      exact .go (by rw [turn_shift hp, h]; rfl) ih

theorem Splitter.next_shift (hp : NoWordBefore p.reverse) {s rest : Splitter} {item : Option Item}
    (h : s.next d = (item, rest)) :
    (s.within p []).next d = (item.map (Item.shift p), rest.within p []) :=
  reads_iff_next.1 ((reads_iff_next.2 h).shift hp)

theorem Splitter.Yields.shift (hp : NoWordBefore p.reverse) {s last : Splitter} {items : List Item}
    (h : Yields d s items last) :
    Yields d (s.within p []) (items.map (Item.shift p)) (last.within p []) := by
  induction h with
  | done h => exact .done (next_shift hp h)
  | item h _ ih => exact .item (next_shift hp h) ih

end Statement

end SchemaDrift
