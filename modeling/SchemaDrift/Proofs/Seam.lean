import SchemaDrift.Proofs.Within

namespace SchemaDrift.Statement

variable {d : Dialect} {here there : Spot} {δ δ' : Delimiter} {r r' : Draft}

def OneLine (δ : Delimiter) : Prop := '\n' ∉ δ.toList

theorem oneLine_semicolon : OneLine .semicolon := by
  unfold OneLine
  decide

theorem not_isSpace_of_mem_wordsFrom {s run w : List Char}
    (hrun : ∀ c ∈ run, Text.isSpace c = false)
    (h : w ∈ Text.wordsFrom run s) : ∀ c ∈ w, Text.isSpace c = false := by
  induction s generalizing run with
  | nil =>
      unfold Text.wordsFrom at h
      split at h
      · cases h
      · rw [List.mem_singleton.1 h]
        exact fun c hc => hrun c (List.mem_reverse.1 hc)
  | cons a s ih =>
      unfold Text.wordsFrom at h
      split at h
      · split at h
        · exact ih (List.forall_mem_nil _) h
        · rcases List.mem_cons.1 h with rfl | h
          · exact fun c hc => hrun c (List.mem_reverse.1 hc)
          · exact ih (List.forall_mem_nil _) h
      · next ha => exact ih (List.forall_mem_cons.2 ⟨Bool.eq_false_iff.2 ha, hrun⟩) h

def Solid (δ : Delimiter) : Prop := ∀ c ∈ δ.toList, Text.isSpace c = false

theorem solid_semicolon : Solid .semicolon := by
  intro c hc
  obtain rfl : c = ';' := List.mem_singleton.1 hc
  decide

theorem Solid.not_mem (hδ : Solid δ) {c : Char} (hc : Text.isSpace c = true) : c ∉ δ.toList := by
  intro hmem
  rw [hδ c hmem] at hc
  cases hc

theorem solid_of_mem_words {s w : List Char} (h : w ∈ Text.words s)
    (hδ : Delimiter.ofList? w = some δ) : Solid δ := by
  cases w with
  | nil => cases hδ
  | cons c w =>
      cases hδ
      exact not_isSpace_of_mem_wordsFrom (List.forall_mem_nil _) h

theorem solid_of_terminator? {body : List Char} (h : Piece.terminator? body = some δ) :
    Solid δ := by
  unfold Piece.terminator? at h
  split at h
  · split at h
    · next hwords =>
        split at h
        · exact solid_of_mem_words (by rw [hwords]; simp) h
        · cases h
    · cases h
  · cases h

theorem solid_of_sets {started : Bool} {behind run rest : List Char} {piece : Piece}
    (h : piece.Form d δ started behind run rest) (hδ : piece.sets = some δ') : Solid δ' := by
  cases piece with
  | comment sets =>
      obtain rfl : sets = some δ' := hδ
      generalize hset : some δ' = sets at h
      cases h with
      | @line body _ =>
          rw [eq_comm, Option.ite_none_right_eq_some] at hset
          exact solid_of_terminator? hset.2
      | hash | block => cases hset
  | directive sets =>
      obtain rfl : sets = some δ' := hδ
      obtain ⟨-, h⟩ := h
      generalize hset : some δ' = sets at h
      cases h with
      | delimiter =>
          obtain ⟨w, hw, hw'⟩ := Option.bind_eq_some_iff.1 hset.symm
          exact solid_of_mem_words (List.mem_of_head? hw) hw'
  | blank | delimiter | quoted | word | mark => cases hδ

/-- A turn keeps the delimiter, or sets a new one. -/
theorem eq_or_solid_of_go (h : turn d here δ r = .go there δ' r') : δ' = δ ∨ Solid δ' := by
  obtain ⟨c, cs, piece, n, hs, hp, ha⟩ := exists_piece_of_go h
  obtain ⟨run, rest, -, -, hform⟩ := Piece.next_spec hp
  have hset := (accept_eq_go ha).2.1
  cases hsets : piece.sets with
  | none => exact .inl (by rw [hset, hsets]; rfl)
  | some δ'' =>
      rw [hsets] at hset
      cases hset
      exact .inr (solid_of_sets hform hsets)

theorem oneLine_of_go (hδ : OneLine δ) (h : turn d here δ r = .go there δ' r') : OneLine δ' := by
  rcases eq_or_solid_of_go h with rfl | hsolid
  · exact hδ
  · exact hsolid.not_mem rfl

def seam (b : List Char) : List Char := '\n' :: ';' :: '\n' :: b

theorem endsLine_seam (b : List Char) : EndsLine (seam b) := EndsLine.cons _

theorem opensBlock_seam {rest : List Char} (b : List Char)
    (hrest : ∀ c ∈ rest, Text.isBlank c = true) :
    opensBlock .semicolon (rest ++ seam b) = opensBlock .semicolon rest := by
  have hnext : rest.dropWhile Text.isBlank = [] := by simpa using hrest
  unfold opensBlock
  rw [List.dropWhile_append, hnext]
  rfl

theorem blockEffect_seam (hδ : OneLine δ) (r : Draft) (word : List Char) {rest : List Char}
    (b : List Char) (hblank : (∀ c ∈ rest, Text.isBlank c = true) → δ = .semicolon) :
    blockEffect δ r word (rest ++ seam b) = blockEffect δ r word rest := by
  by_cases hrest : ∀ c ∈ rest, Text.isBlank c = true
  · obtain rfl := hblank hrest
    have hnext : rest.dropWhile Text.isBlank = [] := by simpa using hrest
    unfold blockEffect
    simp only [opensBlock_seam b hrest, drop_length_takeWhile]
    rw [List.dropWhile_append, hnext]
    rfl
  · exact blockEffect_append rfl (endsLine_seam b).ends hδ r word hrest

theorem turn_of_blank {c : Char} {cs : List Char} (hs : here.ahead = c :: cs)
    (hc : Text.isBlank c = true) :
    turn d here δ r = .go (here.advance 1) δ (r.filler [c]) := by
  rw [turn_eq_accept hs (Piece.next_blank hc ..), accept, hs]
  rfl

theorem finish_cases {item : Option Item} {rest : Splitter} (h : finish here δ r = (item, rest))
    (hok : ∀ u, item ≠ some (.error u)) :
    rest = ⟨here, δ⟩ ∧ (r.start = none ∧ item = none ∨
      ∃ start, r.start = some start ∧ r.depth = 0 ∧ item = some (.ok (r.statement start))) := by
  unfold finish at h
  split at h
  · next hstart =>
      cases h
      exact ⟨rfl, .inl ⟨hstart, rfl⟩⟩
  · next start hstart =>
      split at h
      · next hdepth =>
          cases h
          exact ⟨rfl, .inr ⟨start, hstart, hdepth, rfl⟩⟩
      · split at h <;> cases h <;> exact absurd rfl (hok _)

/-- Reading ends with the delimiter in force if only blanks are left. -/
theorem Reads.delimiter_eq {item : Option Item} {rest : Splitter} (h : Reads d here δ r item rest)
    (hblank : ∀ c ∈ here.ahead, Text.isBlank c = true) (hok : ∀ u, item ≠ some (.error u)) :
    rest.spot.ahead = [] ∧ rest.delimiter = δ := by
  induction h with
  | @stop here δ r item rest h =>
      cases hs : here.ahead with
      | nil =>
          rw [turn_eq_stop_of_nil hs] at h
          injection h with hitem hrest
          rw [(finish_cases (Prod.ext hitem hrest) hok).1]
          exact ⟨hs, rfl⟩
      | cons c cs =>
          rw [turn_of_blank hs (hblank c (by rw [hs]; exact List.mem_cons_self))] at h
          cases h
  | @go here there δ δ' r r' item rest h _ ih =>
      cases hs : here.ahead with
      | nil =>
          rw [turn_eq_stop_of_nil hs] at h
          cases h
      | cons c cs =>
          rw [turn_of_blank hs (hblank c (by rw [hs]; exact List.mem_cons_self))] at h
          cases h
          exact ih (fun c hc => hblank c (List.mem_of_mem_drop hc)) hok

theorem eq_empty_of_go (hr : r.start = none → r = .empty)
    (h : turn d here δ r = .go there δ' r') : r'.start = none → r' = .empty := by
  intro hr'
  cases hstart : r.start with
  | none =>
      rw [hr hstart] at h
      rcases go_of_empty h with ⟨hempty, -⟩ | f
      · exact hempty
      · rw [f.started] at hr'
        cases hr'
  | some start =>
      obtain ⟨c, cs, piece, n, -, -, ha⟩ := exists_piece_of_go h
      rw [(accept_eq_go ha).2.2 start hstart] at hr'
      cases hr'

theorem trim_append_newline (s : List Char) : Text.trim (s ++ ['\n']) = Text.trim s := by
  unfold Text.trim Text.trimStart
  rw [List.dropWhile_append]
  cases s.dropWhile Text.isSpace with
  | nil => rfl
  | cons c s =>
      unfold Text.trimEnd
      rw [List.isEmpty_cons, if_neg Bool.false_ne_true, List.reverse_append]
      rfl

theorem turn_seam (hδ : OneLine δ) (b : List Char) {c : Char} {cs : List Char} {piece : Piece}
    {n : Nat} (hs : here.ahead = c :: cs)
    (hp : Piece.next d δ r.start.isSome here.behind c cs = .ok (piece, n))
    (hword : piece = .word → (∀ c ∈ here.ahead.drop n, Text.isBlank c = true) → δ = .semicolon) :
    turn d (here.within [] (seam b)) δ (r.within [] (seam b)) =
      (turn d here δ r).within [] (seam b) := by
  refine turn_within hs hp ?_ (fun h => blockEffect_seam hδ r _ b (hword h))
  rw [List.reverse_nil, List.append_nil]
  exact (endsLine_seam b).next_append hδ hp

inductive Continues (d : Dialect) (b : List Char) (here : Spot) (δ : Delimiter) (r : Draft) :
    Option Item → Splitter → Prop
  | between {rest : Splitter}
      (h : ∀ item' rest',
        Reads d (rest.spot.within [] (seam b)) rest.delimiter .empty item' rest' →
          Reads d (here.within [] (seam b)) δ (r.within [] (seam b)) item' rest') :
      Continues d b here δ r none rest
  | inside {i : Item} {rest : Splitter}
      (h : Reads d (here.within [] (seam b)) δ (r.within [] (seam b)) (some i)
        (rest.within [] (seam b))) : Continues d b here δ r (some i) rest
  | ended {i : Item} {rest : Splitter} (hend : rest.spot.ahead = [])
      (h : Reads d (here.within [] (seam b)) δ (r.within [] (seam b)) (some i)
        ⟨(rest.spot.within [] (seam b)).advance 2, rest.delimiter⟩) :
      Continues d b here δ r (some i) rest

theorem Continues.go {b : List Char} {item : Option Item} {rest : Splitter}
    (h : turn d (here.within [] (seam b)) δ (r.within [] (seam b)) =
      .go (there.within [] (seam b)) δ' (r'.within [] (seam b)))
    (c : Continues d b there δ' r' item rest) : Continues d b here δ r item rest := by
  cases c with
  | between hc => exact .between (fun item' rest' h' => .go h (hc item' rest' h'))
  | inside hc => exact .inside (.go h hc)
  | ended hend hc => exact .ended hend (.go h hc)

theorem finish_seam (b : List Char) (hs : here.ahead = []) {start : Spot}
    (hstart : r.start = some start) (hdepth : r.depth = 0) :
    Reads d (here.within [] (seam b)) .semicolon (r.within [] (seam b))
      (some (.ok (r.statement start))) ⟨(here.within [] (seam b)).advance 2, .semicolon⟩ := by
  have hahead := Spot.ahead_within_of_end [] (seam b) hs
  have hahead' : ((here.within [] (seam b)).advance 1).ahead = ';' :: '\n' :: b := by
    rw [Spot.ahead_advance, hahead]
    rfl
  have hstart' : (r.within [] (seam b)).start = some (start.within [] (seam b)) := by
    rw [Draft.within, hstart]
    rfl
  have hfiller := Draft.filler_of_started hstart' ['\n']
  refine .go (turn_of_blank hahead rfl) (.stop ?_)
  rw [turn_eq_accept hahead' (Piece.next_semicolon ..),
    accept_delimiter ((congrArg Draft.start hfiller).trans hstart')
      ((congrArg Draft.depth hfiller).trans hdepth), hfiller, Spot.advance_advance]
  unfold Draft.statement
  rw [List.reverse_append, List.reverse_reverse, trim_append_newline]
  rfl

theorem Reads.continues {item : Option Item} {rest : Splitter} (h : Reads d here δ r item rest)
    (b : List Char) (hδ : OneLine δ) (hr : r.start = none → r = .empty)
    (hok : ∀ u, item ≠ some (.error u))
    (hend : rest.spot.ahead = [] → rest.delimiter = .semicolon) :
    Continues d b here δ r item rest := by
  induction h with
  | @stop here δ r item rest h =>
      cases hs : here.ahead with
      | nil =>
          rw [turn_eq_stop_of_nil hs] at h
          injection h with hitem hrest
          obtain ⟨rfl, ⟨hstart, rfl⟩ | ⟨start, hstart, hdepth, rfl⟩⟩ :=
            finish_cases (Prod.ext hitem hrest) hok
          · rw [hr hstart]
            exact .between (fun item' rest' h' => h')
          · obtain rfl : δ = .semicolon := hend hs
            exact .ended hs (finish_seam b hs hstart hdepth)
      | cons c cs =>
          cases hp : Piece.next d δ r.start.isSome here.behind c cs with
          | error what =>
              rw [turn_eq_stop_of_error hs hp] at h
              cases h
              exact absurd rfl (hok _)
          | ok piece =>
              have ha := h
              rw [turn_eq_accept hs hp] at ha
              obtain ⟨hpiece, -, -, start, -, rfl⟩ := accept_eq_stop ha
              have hturn := turn_seam hδ b hs hp (fun hword => by
                rw [hpiece] at hword
                cases hword)
              rw [h] at hturn
              exact .inside (.stop hturn)
  | @go here there δ δ' r r' item rest h t ih =>
      obtain ⟨c, cs, piece, n, hs, hp, ha⟩ := exists_piece_of_go h
      refine .go ?_ (ih (oneLine_of_go hδ h) (eq_empty_of_go hr h) hok hend)
      rw [turn_seam hδ b hs hp, h]
      · rfl
      rintro rfl hblank
      -- a word with only blanks after it is the last one
      cases ha
      have hlast := t.delimiter_eq (fun c hc => hblank c ?_) hok
      · rw [← hlast.2]
        exact hend hlast.1
      · rw [Spot.ahead_advance, ← List.drop_drop] at hc
        exact List.mem_of_mem_drop hc

theorem Reads.oneLine {item : Option Item} {rest : Splitter} (h : Reads d here δ r item rest)
    (hδ : OneLine δ) (hok : ∀ u, item ≠ some (.error u)) : OneLine rest.delimiter := by
  induction h with
  | @stop here δ r item rest h =>
      unfold turn at h
      split at h
      · injection h with hitem hrest
        rw [(finish_cases (Prod.ext hitem hrest) hok).1]
        exact hδ
      · split at h
        · cases h
          exact hδ
        · rw [(accept_eq_stop h).2.2.1]
          exact hδ
  | go h _ ih => exact ih (oneLine_of_go hδ h) hok

namespace Splitter

variable {s last : Splitter} {items : List Item}

theorem next_of_go (h : turn d s.spot s.delimiter .empty = .go there δ .empty) :
    s.next d = Splitter.next d ⟨there, δ⟩ := by
  rw [next, readItem_eq_turn, h]
  rfl

theorem next_of_end (h : s.spot.ahead = []) : s.next d = (none, s) := by
  rw [next, readItem_eq_turn, turn_eq_stop_of_nil h]
  rfl

namespace Yields

theorem of_end (hs : s.spot.ahead = []) (h : Yields d s items last) : items = [] ∧ last = s := by
  cases h with
  | done h =>
      rw [next_of_end hs] at h
      cases h
      exact ⟨rfl, rfl⟩
  | item h _ =>
      rw [next_of_end hs] at h
      cases h

theorem congr {t : Splitter} (hst : s.next d = t.next d) (h : Yields d t items last) :
    Yields d s items last := by
  cases h with
  | done h => exact .done (hst.trans h)
  | item h hrest => exact .item (hst.trans h) hrest

theorem eq_run (h : Yields d s items last) :
    items = (s.run d).1.map Prod.fst ∧ last = (s.run d).2 := by
  induction h with
  | done h =>
      rw [run_of_none h]
      exact ⟨rfl, rfl⟩
  | item h _ ih =>
      rw [run_of_some h]
      exact ⟨congrArg (_ :: ·) ih.1, ih.2⟩

end Yields

/-- Outside statements the whole seam is passed over. -/
theorem next_seam (b : List Char) (hs : here.ahead = []) :
    Splitter.next d ⟨here.within [] (seam b), .semicolon⟩ =
        Splitter.next d ⟨(here.within [] (seam b)).advance 2, .semicolon⟩ ∧
      Splitter.next d ⟨(here.within [] (seam b)).advance 2, .semicolon⟩ =
        Splitter.next d ⟨(here.within [] (seam b)).advance 3, .semicolon⟩ := by
  have hahead := Spot.ahead_within_of_end [] (seam b) hs
  have hahead₁ : ((here.within [] (seam b)).advance 1).ahead = ';' :: '\n' :: b := by
    rw [Spot.ahead_advance, hahead]
    rfl
  have hahead₂ : ((here.within [] (seam b)).advance 2).ahead = '\n' :: b := by
    rw [Spot.ahead_advance, hahead]
    rfl
  constructor
  · rw [next_of_go (s := ⟨here.within [] (seam b), .semicolon⟩) (turn_of_blank hahead rfl)]
    refine next_of_go ?_
    rw [turn_eq_accept hahead₁ (Piece.next_semicolon ..), ← Spot.advance_advance _ 1 1]
    rfl
  · refine next_of_go ?_
    rw [turn_of_blank hahead₂ rfl, Spot.advance_advance]
    rfl

theorem Yields.seam (h : Yields d s items last) (b : List Char) (hδ : OneLine s.delimiter)
    (hok : ∀ i ∈ items, ∀ u, i ≠ .error u) (hlast : last.delimiter = .semicolon)
    {items' : List Item} {last' : Splitter}
    (hb : Yields d (last.within [] (seam b)) items' last') :
    Yields d (s.within [] (seam b)) (items ++ items') last' := by
  induction h with
  | @done s last h =>
      have hc := (reads_iff_next.2 h).continues b hδ (fun _ => rfl) nofun (fun _ => hlast)
      cases hc with
      | between hc => exact hb.congr (reads_iff_next.1 (hc _ _ (reads_readItem ..)))
  | @item s rest last i items h t ih =>
      obtain ⟨hi, hitems⟩ := List.forall_mem_cons.1 hok
      have hok' : ∀ u, some i ≠ some (.error u) := fun u hu => hi u (Option.some.inj hu)
      have hend (hrest : rest.spot.ahead = []) : rest.delimiter = .semicolon := by
        rw [← (t.of_end hrest).2]
        exact hlast
      have hr := reads_iff_next.2 h
      cases hr.continues b hδ (fun _ => rfl) hok' hend with
      | inside hc => exact .item (reads_iff_next.1 hc) (ih (hr.oneLine hδ hok') hitems hlast hb)
      | ended hrest hc =>
          obtain ⟨rfl, rfl⟩ := t.of_end hrest
          refine .item (reads_iff_next.1 hc) (hb.congr ?_)
          rw [within, hend hrest]
          exact (next_seam b hrest).1.symm

end Splitter

/-- A script that leaves nothing open and the semicolon in force. -/
structure Settled (d : Dialect) (script : String) : Prop where
  closed : ∀ item ∈ split d script, item.isOk = true
  delimiter : ((Splitter.start script).run d).2.delimiter = .semicolon

theorem split_empty (d : Dialect) : split d "" = [] := by
  rw [split, Splitter.run_of_none (Splitter.next_of_end rfl)]
  rfl

def join (a b : String) : String := a ++ "\n;\n" ++ b

theorem start_join (a b : String) :
    Splitter.start (join a b) = (Splitter.start a).within [] (seam b.toList) := by
  have h : (join a b).toList = a.toList ++ seam b.toList := by
    simp [join, seam]
  unfold Splitter.start Spot.start
  rw [h]
  rfl

theorem advance_seam (a b : String) :
    ((Spot.start a.toList).toEnd.within [] (seam b.toList)).advance 3 =
      (Spot.start b.toList).within (a ++ "\n;\n").toList [] := by
  unfold Spot.advance
  rw [Spot.ahead_within_of_end [] (seam b.toList) (Spot.start a.toList).ahead_toEnd]
  simp [Spot.within, Spot.toEnd, Spot.advance, Spot.start, seam, Nat.add_assoc]
  rfl

theorem split_join {a : String} (h : Settled d a) (b : String) :
    split d (join a b) =
      split d a ++ (split d b).map (Item.shift (a ++ "\n;\n").toList) := by
  have ha := Splitter.yields_run d (.start a)
  have hp : NoWordBefore (a ++ "\n;\n").toList.reverse := by
    rw [String.toList_append, List.reverse_append]
    exact (EndsLine.cons _).ends.noWordBefore rfl
  have hb := (Splitter.yields_run d (.start b)).shift hp
  obtain ⟨ps, hlay, -, hend⟩ := ha.lay
  obtain ⟨n, hn⟩ := hlay.exists_advance
  have hlast : ((Splitter.start a).run d).2.spot = (Spot.start a.toList).toEnd := by
    rw [← Spot.toEnd_of_ahead_eq_nil hend, hn, Spot.toEnd_advance]
    rfl
  have hnext : (((Splitter.start a).run d).2.within [] (seam b.toList)).next d =
      ((Splitter.start b).within (a ++ "\n;\n").toList []).next d := by
    obtain ⟨hskip, hskip'⟩ :=
      Splitter.next_seam (d := d) b.toList (Spot.start a.toList).ahead_toEnd
    rw [show ((Splitter.start a).run d).2 = ⟨_, _⟩ from
      congrArg₂ Splitter.mk hlast h.delimiter, Splitter.within, hskip, hskip', advance_seam]
    rfl
  have hok : ∀ i ∈ split d a, ∀ u, i ≠ .error u := by
    rintro i hi u rfl
    cases h.closed _ hi
  have hjoin := ha.seam b.toList oneLine_semicolon hok h.delimiter (hb.congr hnext)
  rw [← start_join] at hjoin
  exact hjoin.eq_run.1.symm

end SchemaDrift.Statement
