import SchemaDrift.Proofs.Seam

namespace SchemaDrift.Statement

/-- A place, the delimiter in force there, and what is read of the statement so far. -/
structure Moment where
  here : Spot
  delimiter : Delimiter
  draft : Draft

def moments (d : Dialect) (here : Spot) (δ : Delimiter) (r : Draft) : List Moment :=
  ⟨here, δ, r⟩ ::
    match _h : turn d here δ r with
    | .stop _ _ => []
    | .go there δ' r' => moments d there δ' r'
termination_by here.ahead.length
decreasing_by exact length_lt_of_go _h

def Splitter.moments (d : Dialect) (s : Splitter) : List Moment :=
  (s :: (s.run d).1.map Prod.snd).flatMap fun t => Statement.moments d t.spot t.delimiter .empty

namespace Moment

def toCut (v : List Char) (m : Moment) : List Char :=
  m.here.ahead.take (m.here.ahead.length - (v.length + 1))

def met? (d : Dialect) (v : List Char) (m : Moment) : Option (Except Unclosed (Piece × Nat)) :=
  match m.toCut v with
  | [] => none
  | c :: cs =>
      some (Piece.next d m.delimiter m.draft.start.isSome m.here.behind c (cs ++ ' ' :: v))

def isOutside (d : Dialect) (v : List Char) (m : Moment) : Bool :=
  match m.met? d v with
  | none => true
  | some (.ok (_, n)) => n ≤ (m.toCut v).length
  | some (.error _) => false

/-- A word that only blanks separate from the cut does the same to the blocks, and takes no more
with it, when `c` comes after the cut. -/
def isUnmoved (d : Dialect) (c v : List Char) (m : Moment) : Bool :=
  match m.met? d v with
  | some (.ok (.word, n)) =>
      let word := (m.toCut v).take n
      let rest := (m.toCut v).drop n
      !rest.all Text.isBlank ||
        blockEffect m.delimiter m.draft word (rest ++ ' ' :: (c ++ ' ' :: v)) ==
          blockEffect m.delimiter m.draft word (rest ++ ' ' :: v)
  | _ => true

end Moment

variable {d : Dialect} {here there : Spot} {δ δ' : Delimiter} {r r' : Draft}

theorem moments_of_go (h : turn d here δ r = .go there δ' r') :
    moments d here δ r = ⟨here, δ, r⟩ :: moments d there δ' r' := by
  rw [moments]
  split
  · next h' =>
      rw [h] at h'
      cases h'
  · next h' =>
      rw [h] at h'
      cases h'
      rfl

theorem mem_moments (d : Dialect) (here : Spot) (δ : Delimiter) (r : Draft) :
    ⟨here, δ, r⟩ ∈ moments d here δ r := by
  rw [moments]
  exact List.mem_cons_self

namespace Splitter

variable {s rest : Splitter} {item : Item}

theorem mem_moments_of_next {m : Moment}
    (h : m ∈ Statement.moments d s.spot s.delimiter .empty) : m ∈ s.moments d := by
  unfold moments
  exact List.mem_flatMap.2 ⟨s, List.mem_cons_self, h⟩

theorem mem_moments_of_rest (h : s.next d = (some item, rest)) {m : Moment}
    (hm : m ∈ rest.moments d) : m ∈ s.moments d := by
  unfold moments at hm ⊢
  obtain ⟨t, ht, hm⟩ := List.mem_flatMap.1 hm
  rw [run_of_some h]
  exact List.mem_flatMap.2 ⟨t, List.mem_cons_of_mem s ht, hm⟩

end Splitter

section Solid

/-- No delimiter that reading leaves in force has white space in it. -/
theorem Reads.solid {item : Option Item} {rest : Splitter} (h : Reads d here δ r item rest)
    (hδ : Solid δ) (hcut : ∀ cut ∈ r.fallback, Solid cut.2.2) : Solid rest.delimiter := by
  refine h.delimiter (fun h hδ => ?_) hδ hcut
  rcases eq_or_solid_of_go h with rfl | hsolid
  · exact hδ
  · exact hsolid

end Solid

section Cut

variable {x : Spot} {y : Draft} {c v : List Char}

theorem Moment.toCut_within (x : Spot) (δ : Delimiter) (r : Draft) (v : List Char) :
    Moment.toCut v ⟨x.within [] (' ' :: v), δ, r⟩ = x.ahead := by
  unfold Moment.toCut Spot.within
  dsimp only
  rw [List.length_append, List.length_cons, Nat.add_sub_cancel, List.take_left]

def Hidden (c : List Char) : Prop := ∃ a as, c = a :: as ∧ Text.isBlank a = false ∧
  Piece.isWordStart a = false

theorem Hidden.blockEffect_extra (hc : Hidden c) (δ : Delimiter) (r : Draft) (word : List Char)
    {rest : List Char} (hrest : ∀ b ∈ rest, Text.isBlank b = true) (t : List Char) :
    (blockEffect δ r word (rest ++ ' ' :: (c ++ t))).2 = 0 := by
  obtain ⟨a, as, rfl, hblank, hstart⟩ := hc
  refine blockEffect_extra_of_headWord? δ r word ?_
  have hnext : rest.dropWhile Text.isBlank = [] := by simpa using hrest
  rw [List.dropWhile_append, hnext]
  show Piece.headWord? ((' ' :: a :: (as ++ t)).dropWhile Text.isBlank) = none
  rw [List.dropWhile_cons_of_pos rfl, List.dropWhile_cons_of_neg (Bool.eq_false_iff.1 hblank)]
  exact if_neg (Bool.eq_false_iff.1 hstart)

/-- A word before the cut, whatever it looks for. -/
theorem blockEffect_cut (hc : Hidden c) (hδ : Solid δ) (r : Draft) (word rest : List Char)
    (h : (∀ b ∈ rest, Text.isBlank b = true) →
      blockEffect δ r word (rest ++ ' ' :: (c ++ ' ' :: v)) =
        blockEffect δ r word (rest ++ ' ' :: v)) :
    blockEffect δ r word (rest ++ ' ' :: (c ++ ' ' :: v)) =
        blockEffect δ r word (rest ++ ' ' :: v) ∧
      (blockEffect δ r word (rest ++ ' ' :: v)).2 ≤ rest.length := by
  by_cases hrest : ∀ b ∈ rest, Text.isBlank b = true
  · refine ⟨h hrest, ?_⟩
    rw [← h hrest, hc.blockEffect_extra δ r word hrest]
    exact Nat.zero_le _
  · have hδ := hδ.not_mem (c := ' ') rfl
    rw [blockEffect_append rfl (.cons _) hδ r word hrest,
      blockEffect_append rfl (.cons _) hδ r word hrest]
    exact ⟨rfl, blockEffect_extra_le δ r word rest⟩

/-- The piece met before the cut. -/
theorem exists_piece_before {a : Char} {as : List Char} (hs : x.ahead = a :: as)
    (hout : Moment.isOutside d v ⟨x.within [] (' ' :: v), δ, y.within [] (' ' :: v)⟩ = true)
    (hblocks : Moment.isUnmoved d c v ⟨x.within [] (' ' :: v), δ, y.within [] (' ' :: v)⟩ =
      true) :
    ∃ piece n,
      Piece.next d δ y.start.isSome (x.within [] (' ' :: v)).behind a (as ++ ' ' :: v) =
        .ok (piece, n) ∧ n ≤ x.ahead.length ∧
        (piece = .word → (∀ b ∈ x.ahead.drop n, Text.isBlank b = true) →
          blockEffect δ y (x.ahead.take n) (x.ahead.drop n ++ ' ' :: (c ++ ' ' :: v)) =
            blockEffect δ y (x.ahead.take n) (x.ahead.drop n ++ ' ' :: v)) := by
  unfold Moment.isOutside at hout
  unfold Moment.isUnmoved at hblocks
  unfold Moment.met? at hout hblocks
  rw [Moment.toCut_within, hs] at hout hblocks
  dsimp only at hout hblocks
  rw [Draft.isSome_start_within] at hout hblocks
  rw [hs]
  cases hp : Piece.next d δ y.start.isSome (x.within [] (' ' :: v)).behind a
      (as ++ ' ' :: v) with
  | error what =>
      rw [hp] at hout
      cases hout
  | ok found =>
      obtain ⟨piece, n⟩ := found
      rw [hp] at hout hblocks
      refine ⟨piece, n, rfl, of_decide_eq_true hout, ?_⟩
      rintro rfl hrest
      have hall : ((a :: as).drop n).all Text.isBlank = true := List.all_eq_true.2 hrest
      dsimp only at hblocks
      rw [hall] at hblocks
      exact beq_iff_eq.1 hblocks

/-- Before the cut a turn goes the same way with the text after it and without. -/
theorem exists_turn_before (hc : Hidden c) (hδ : Solid δ) (hx : x.ahead ≠ [])
    (hout : Moment.isOutside d v ⟨x.within [] (' ' :: v), δ, y.within [] (' ' :: v)⟩ = true)
    (hblocks : Moment.isUnmoved d c v ⟨x.within [] (' ' :: v), δ, y.within [] (' ' :: v)⟩ =
      true) :
    ∃ t : Turn,
      turn d (x.within [] (' ' :: v)) δ (y.within [] (' ' :: v)) = t.within [] (' ' :: v) ∧
        turn d (x.within [] (' ' :: (c ++ ' ' :: v))) δ (y.within [] (' ' :: (c ++ ' ' :: v))) =
          t.within [] (' ' :: (c ++ ' ' :: v)) := by
  obtain ⟨a, as, hs⟩ := List.exists_cons_of_ne_nil hx
  have hahead (t : List Char) : (x.within [] t).ahead = a :: (as ++ t) := by
    rw [Spot.within, hs]
    rfl
  obtain ⟨piece, n, hp, hn, hword⟩ := exists_piece_before hs hout hblocks
  have hq : Piece.next d δ y.start.isSome (x.within [] (' ' :: (c ++ ' ' :: v))).behind a
      (as ++ ' ' :: (c ++ ' ' :: v)) = .ok (piece, n) :=
    (Ends.cons v).next_of_le rfl (.cons _) (.inr (List.cons_ne_nil _ _)) (hδ.not_mem rfl) hp
      (hs ▸ hn)
  rw [← Draft.isSome_start_within [] (' ' :: v)] at hp
  rw [← Draft.isSome_start_within [] (' ' :: (c ++ ' ' :: v))] at hq
  rw [turn_eq_accept (hahead _) hp, turn_eq_accept (hahead _) hq]
  by_cases hpiece : piece = .word
  · subst hpiece
    obtain ⟨heq, hle⟩ := blockEffect_cut hc hδ y (x.ahead.take n) (x.ahead.drop n) (hword rfl)
    cases heffect : blockEffect δ y (x.ahead.take n) (x.ahead.drop n ++ ' ' :: v) with
    | mk depth extra =>
        rw [heffect] at heq hle
        have hm : n + extra ≤ x.ahead.length := by
          rw [List.length_drop] at hle
          omega
        exact ⟨.go (x.advance (n + extra)) δ (y.word x n extra depth),
          accept_word_within hm heffect, accept_word_within hm heq⟩
  · exact ⟨_, accept_within_of_ne_word hn hpiece, accept_within_of_ne_word hn hpiece⟩

end Cut

end SchemaDrift.Statement
