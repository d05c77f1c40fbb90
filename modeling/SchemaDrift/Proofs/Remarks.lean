import Mathlib.Data.List.Forall2
import SchemaDrift.Proofs.Moments

namespace SchemaDrift

variable {c v : List Char}

structure Spot.After (v : List Char) (s t : Spot) : Prop where
  ahead : s.ahead = t.ahead
  length : s.ahead.length ≤ v.length
  behind : ∃ b p q, s.behind = b ++ ' ' :: p ∧ t.behind = b ++ ' ' :: q

inductive Spot.Beside (c v : List Char) : Spot → Spot → Prop
  | before (x : Spot) :
      Spot.Beside c v (x.within [] (' ' :: v)) (x.within [] (' ' :: (c ++ ' ' :: v)))
  | after {s t : Spot} (h : s.After v t) : Spot.Beside c v s t

namespace Spot.After

variable {s t : Spot}

theorem advance (h : s.After v t) (n : Nat) : (s.advance n).After v (t.advance n) where
  ahead := by rw [ahead_advance, ahead_advance, h.ahead]
  length := by
    rw [ahead_advance, List.length_drop]
    exact Nat.le_trans (Nat.sub_le _ _) h.length
  behind := by
    obtain ⟨b, p, q, hs, ht⟩ := h.behind
    refine ⟨(s.ahead.take n).reverse ++ b, p, q, ?_, ?_⟩
    · rw [List.append_assoc, ← hs]
      rfl
    · rw [List.append_assoc, ← ht, h.ahead]
      rfl

theorem toEnd (h : s.After v t) : s.toEnd.After v t.toEnd := by
  unfold Spot.toEnd
  rw [← h.ahead]
  exact h.advance _

theorem next (h : s.After v t) (d : Dialect) (δ : Delimiter) (started : Bool) (a : Char)
    (as : List Char) :
    Piece.next d δ started s.behind a as = Piece.next d δ started t.behind a as := by
  obtain ⟨b, p, q, hs, ht⟩ := h.behind
  rw [hs, ht, ((Ends.cons p).noWordBefore rfl).next_behind_append,
    ((Ends.cons q).noWordBefore rfl).next_behind_append]

end Spot.After

namespace Statement

/-- A comment that sets no delimiter. A line comment goes with its line break. -/
inductive Remark (d : Dialect) : List Char → Prop
  | block {body : List Char} (h : CommentTail 1 body) : Remark d ('/' :: '*' :: body)
  | line {body : List Char} (hbody : '\n' ∉ body)
      (hsets : (if d.terminatorDirective then Piece.terminator? body else none) = none) :
      Remark d ('-' :: '-' :: (body ++ ['\n']))

def Inserts (w s t : List Char) : Prop :=
  s = t ∨ ∃ p q, s = p ++ ' ' :: q ∧ t = p ++ ' ' :: (w ++ ' ' :: q)

def TrimInserts (w : List Char) (s t : String) : Prop :=
  s = t ∨ ∃ p q, s = String.ofList (Text.trim (p ++ ' ' :: q)) ∧
    t = String.ofList (Text.trim (p ++ ' ' :: (w ++ ' ' :: q)))

/-- Items of a script without and with the comment `c`. In a statement blanks stand for it. The
snippet of what is left open shows it. -/
inductive Item.Beside (c : List Char) : Item → Item → Prop
  | statement {s t : Statement} {w : List Char} (hw : ∀ b ∈ w, Text.isBlank b = true)
      (htext : TrimInserts w s.text t.text) : Item.Beside c (.ok s) (.ok t)
  | unfinished {s t : Unfinished} (hreason : s.reason = t.reason)
      (hsnippet : TrimInserts c s.snippet t.snippet) : Item.Beside c (.error s) (.error t)

def Widens (s t : List Char) : Prop := ∃ w, (∀ b ∈ w, Text.isBlank b = true) ∧ Inserts w s t

structure Draft.Beside (c v : List Char) (r r' : Draft) : Prop where
  start : Option.Rel (Spot.Beside c v) r.start r'.start
  text : Widens r.text.reverse r'.text.reverse
  depth : r.depth = r'.depth
  lastWord : r.lastWord = r'.lastWord
  wordBefore : r.wordBefore = r'.wordBefore
  fallback : Option.Rel
    (fun f g => f.1.Beside c v g.1 ∧ f.2.1.Beside c v g.2.1 ∧ f.2.2 = g.2.2)
    r.fallback r'.fallback

structure Splitter.Beside (c v : List Char) (s t : Splitter) : Prop where
  spot : s.spot.Beside c v t.spot
  delimiter : s.delimiter = t.delimiter

inductive Turn.Beside (c v : List Char) : Turn → Turn → Prop
  | stop {item item' : Option Item} {rest rest' : Splitter}
      (hitem : Option.Rel (Item.Beside c) item item') (hrest : rest.Beside c v rest') :
      Turn.Beside c v (.stop item rest) (.stop item' rest')
  | go {there there' : Spot} {δ : Delimiter} {r r' : Draft} (hthere : there.After v there')
      (hr : r.Beside c v r') : Turn.Beside c v (.go there δ r) (.go there' δ r')

theorem Inserts.append {w s t : List Char} (h : Inserts w s t) (u : List Char) :
    Inserts w (s ++ u) (t ++ u) := by
  rcases h with rfl | ⟨p, q, rfl, rfl⟩
  · exact .inl rfl
  · exact .inr ⟨p, q ++ u, by simp, by simp⟩

theorem Inserts.trim {w s t : List Char} (h : Inserts w s t) :
    TrimInserts w (String.ofList (Text.trim s)) (String.ofList (Text.trim t)) := by
  rcases h with rfl | ⟨p, q, rfl, rfl⟩
  · exact .inl rfl
  · exact .inr ⟨p, q, rfl, rfl⟩

theorem Widens.refl (s : List Char) : Widens s s := ⟨[], List.forall_mem_nil _, .inl rfl⟩

theorem Widens.append {s t : List Char} (h : Widens s t) (u : List Char) :
    Widens (s ++ u) (t ++ u) := by
  obtain ⟨w, hw, h⟩ := h
  exact ⟨w, hw, h.append u⟩

theorem Item.Beside.shift (c : List Char) (i : Item) :
    Item.Beside c (Item.shift [] i) (Item.shift [] i) := by
  cases i with
  | ok s => exact .statement (List.forall_mem_nil _) (.inl rfl)
  | error u => exact .unfinished rfl (.inl rfl)

theorem upTo_of_append {s s' : Spot} {p : List Char} {k : Nat} (h : s.ahead = p ++ v)
    (hk : v.length = s'.ahead.length + k) : s.upTo s' = p ++ v.take k := by
  have hlen : (p ++ v).length - s'.ahead.length = p.length + k := by
    rw [List.length_append]
    omega
  rw [Spot.upTo, h, hlen, List.take_length_add_append]

/-- What lies between two places. -/
theorem inserts_upTo {s t s' t' : Spot} (h : s.Beside c v t) (h' : s'.Beside c v t') :
    Inserts c (s.upTo s') (t.upTo t') := by
  cases h with
  | before x =>
      cases h' with
      | before y =>
          refine .inl ?_
          simp only [Spot.upTo, Spot.within, List.length_append, List.length_cons]
          rw [List.take_append_of_le_length (by omega), List.take_append_of_le_length (by omega)]
          congr 1
          omega
      | @after s' t' h' =>
          obtain ⟨k, hk⟩ := Nat.exists_eq_add_of_le h'.length
          refine .inr ⟨x.ahead, v.take k, ?_, ?_⟩
          · rw [upTo_of_append (p := x.ahead ++ [' ']) (by simp [Spot.within]) hk]
            simp
          · rw [upTo_of_append (p := x.ahead ++ ' ' :: (c ++ [' '])) (by simp [Spot.within])
              (h'.ahead ▸ hk)]
            simp
  | @after s t h =>
      cases h' with
      | before y =>
          refine .inl ?_
          have hlength := h.length
          simp only [Spot.upTo, Spot.within, ← h.ahead]
          congr 1
          simp only [List.length_append, List.length_cons]
          omega
      | after h' =>
          refine .inl ?_
          rw [Spot.upTo, Spot.upTo, h.ahead, h'.ahead]

theorem unfinished_beside {s t s' t' : Spot} (what : Unclosed) (h : s.Beside c v t)
    (h' : s'.Beside c v t') : Item.Beside c (unfinished what s s') (unfinished what t t') :=
  .unfinished rfl (inserts_upTo h h').trim

namespace Draft.Beside

variable {r r' : Draft} {here here' : Spot}

theorem isSome_start (h : r.Beside c v r') : r'.start.isSome = r.start.isSome := by
  have hstart := h.start
  generalize r.start = s, r'.start = s' at hstart
  cases hstart <;> rfl

theorem filler (h : r.Beside c v r') (run : List Char) :
    (r.filler run).Beside c v (r'.filler run) := by
  unfold Draft.filler
  rw [h.isSome_start]
  split
  · refine { h with text := ?_ }
    rw [List.reverse_append, List.reverse_append, List.reverse_reverse]
    exact h.text.append run
  · exact h

theorem code (h : r.Beside c v r') (hhere : here.Beside c v here') (run : List Char) :
    (r.code here run).Beside c v (r'.code here' run) := by
  obtain ⟨start, text, depth, lastWord, wordBefore, fallback⟩ := r
  obtain ⟨start', text', depth', lastWord', wordBefore', fallback'⟩ := r'
  have hstart : Option.Rel (Spot.Beside c v) start start' := h.start
  cases hstart with
  | none => exact { h with start := .some hhere, text := Widens.refl _ }
  | some hspot =>
      refine { h with start := .some hspot, text := ?_ }
      show Widens (run.reverse ++ text).reverse (run.reverse ++ text').reverse
      rw [List.reverse_append, List.reverse_append, List.reverse_reverse]
      exact h.text.append run

theorem word (h : r.Beside c v r') (hhere : here.After v here') (n extra depth : Nat) :
    (r.word here n extra depth).Beside c v (r'.word here' n extra depth) := by
  unfold Draft.word
  rw [← hhere.ahead]
  exact { h.code (.after hhere) (here.ahead.take (n + extra)) with
    depth := rfl
    lastWord := rfl
    wordBefore := h.lastWord }

theorem pass (h : r.Beside c v r') (hhere : here.After v here') (n : Nat) (δ : Delimiter) :
    (r.pass here n δ).Beside c v (r'.pass here' n δ) := by
  unfold Draft.pass
  rw [← hhere.ahead]
  refine { h.filler (here.ahead.take n) with fallback := ?_ }
  have hfallback := h.fallback
  generalize r.fallback = f, r'.fallback = f' at hfallback
  cases hfallback with
  | none => exact .some ⟨.after hhere, .after (hhere.advance n), rfl⟩
  | some hf => exact .some hf

theorem blockEffect_eq (h : r.Beside c v r') (δ : Delimiter) (word rest : List Char) :
    blockEffect δ r' word rest = blockEffect δ r word rest := by
  unfold blockEffect Draft.afterRow
  rw [h.depth, h.lastWord, h.wordBefore]

theorem statement (h : r.Beside c v r') (s t : Spot) :
    Item.Beside c (.ok (r.statement s)) (.ok (r'.statement t)) := by
  obtain ⟨w, hw, htext⟩ := h.text
  exact .statement hw htext.trim

/-- Before the cut the same is read. -/
theorem within (c v : List Char) (y : Draft) :
    (y.within [] (' ' :: v)).Beside c v (y.within [] (' ' :: (c ++ ' ' :: v))) where
  start := by
    unfold Draft.within
    cases y.start with
    | none => exact .none
    | some s => exact .some (.before s)
  text := Widens.refl _
  depth := rfl
  lastWord := rfl
  wordBefore := rfl
  fallback := by
    unfold Draft.within
    cases y.fallback with
    | none => exact .none
    | some f => exact .some ⟨.before f.1, .before f.2.1, rfl⟩

end Draft.Beside

section After

variable {d : Dialect} {here here' : Spot} {δ : Delimiter} {r r' : Draft}

theorem accept_beside (hr : r.Beside c v r') (hhere : here.After v here') (n : Nat)
    (piece : Piece) :
    (accept here δ r n piece).Beside c v (accept here' δ r' n piece) := by
  cases piece with
  | blank =>
      unfold accept
      rw [← hhere.ahead]
      exact .go (hhere.advance n) (hr.filler _)
  | comment sets => exact .go (hhere.advance n) (hr.filler [' '])
  | directive sets => exact .go (hhere.advance n) hr
  | quoted | mark =>
      unfold accept
      rw [← hhere.ahead]
      exact .go (hhere.advance n) (hr.code (.after hhere) _)
  | delimiter =>
      simp only [accept, ← hr.depth]
      by_cases hdepth : r.depth = 0
      · rw [if_pos hdepth, if_pos hdepth]
        have hstart := hr.start
        generalize r.start = s, r'.start = s' at hstart
        cases hstart with
        | none => exact .go (hhere.advance n) hr
        | some hspot =>
            exact .stop (.some (hr.statement _ _)) ⟨.after (hhere.advance n), rfl⟩
      · rw [if_neg hdepth, if_neg hdepth]
        exact .go (hhere.advance n) (hr.pass hhere n δ)
  | word =>
      unfold accept
      rw [← hhere.ahead, hr.blockEffect_eq]
      exact .go (hhere.advance _) (hr.word hhere n _ _)

theorem finish_beside (hr : r.Beside c v r') (hhere : here.After v here') :
    (Turn.stop (finish here δ r).1 (finish here δ r).2).Beside c v
      (.stop (finish here' δ r').1 (finish here' δ r').2) := by
  obtain ⟨start, text, depth, lastWord, wordBefore, fallback⟩ := r
  obtain ⟨start', text', depth', lastWord', wordBefore', fallback'⟩ := r'
  obtain rfl : depth = depth' := hr.depth
  have hstart : Option.Rel (Spot.Beside c v) start start' := hr.start
  have hfallback := hr.fallback
  dsimp only at hfallback
  cases hstart with
  | none => exact .stop .none ⟨.after hhere, rfl⟩
  | some hspot =>
      unfold finish
      by_cases hdepth : depth = 0
      · simp only [if_pos hdepth]
        exact .stop (.some (hr.statement _ _)) ⟨.after hhere, rfl⟩
      · simp only [if_neg hdepth]
        cases hfallback with
        | none =>
            exact .stop (.some (unfinished_beside .block hspot (.after hhere))) ⟨.after hhere, rfl⟩
        | some hf =>
            exact .stop (.some (unfinished_beside .block hspot hf.1)) ⟨hf.2.1, hf.2.2⟩

theorem turn_beside (hr : r.Beside c v r') (hhere : here.After v here') :
    (turn d here δ r).Beside c v (turn d here' δ r') := by
  cases hs : here.ahead with
  | nil =>
      rw [turn_eq_stop_of_nil hs, turn_eq_stop_of_nil (hhere.ahead ▸ hs)]
      exact finish_beside hr hhere
  | cons a as =>
      have hs' : here'.ahead = a :: as := hhere.ahead ▸ hs
      cases hp : Piece.next d δ r.start.isSome here.behind a as with
      | error what =>
          have hp' := hp
          rw [← hr.isSome_start, hhere.next] at hp'
          rw [turn_eq_stop_of_error hs hp, turn_eq_stop_of_error hs' hp']
          have hstart : (r.start.getD here).Beside c v (r'.start.getD here') := by
            have hstart := hr.start
            generalize r.start = s, r'.start = s' at hstart
            cases hstart with
            | none => exact .after hhere
            | some hspot => exact hspot
          exact .stop (.some (unfinished_beside what hstart (.after hhere.toEnd)))
            ⟨.after hhere.toEnd, rfl⟩
      | ok found =>
          obtain ⟨piece, n⟩ := found
          have hp' := hp
          rw [← hr.isSome_start, hhere.next] at hp'
          rw [turn_eq_accept hs hp, turn_eq_accept hs' hp']
          exact accept_beside hr hhere n piece

theorem Reads.after {item : Option Item} {rest : Splitter} (h : Reads d here δ r item rest)
    (hr : r.Beside c v r') (hhere : here.After v here') :
    ∃ item' rest', Reads d here' δ r' item' rest' ∧ Option.Rel (Item.Beside c) item item' ∧
      rest.Beside c v rest' := by
  induction h generalizing here' r' with
  | @stop here δ r item rest h =>
      have hturn := turn_beside (d := d) (δ := δ) hr hhere
      rw [h] at hturn
      generalize hturn' : turn d here' δ r' = t at hturn
      cases hturn with
      | stop hitem hrest => exact ⟨_, _, .stop hturn', hitem, hrest⟩
  | @go here there δ δ' r _ item rest h _ ih =>
      have hturn := turn_beside (d := d) (δ := δ) hr hhere
      rw [h] at hturn
      generalize hturn' : turn d here' δ r' = t at hturn
      cases hturn with
      | go hthere hdraft =>
          obtain ⟨item', rest', hreads, hitem, hrest⟩ := ih hdraft hthere
          exact ⟨item', rest', .go hturn' hreads, hitem, hrest⟩

end After

section Cut

variable {d : Dialect} {here : Spot} {δ : Delimiter} {r : Draft} {x : Spot} {y : Draft}

theorem Remark.hidden (hc : Remark d c) : Hidden c := by
  cases hc with
  | block => exact ⟨'/', _, rfl, rfl, by decide⟩
  | line => exact ⟨'-', _, rfl, rfl, by decide⟩

theorem Remark.of_commentSize {body : List Char}
    (h : Piece.commentSize 1 body = some body.length) : Remark d ('/' :: '*' :: body) := by
  obtain ⟨run, rest, hbody, hlen, hrun⟩ :=
    (Piece.commentSize_eq_some_iff (Nat.le_refl 1)).1 h
  have hrest := congrArg List.length hbody
  rw [List.length_append, hlen] at hrest
  obtain rfl := List.eq_nil_of_length_eq_zero (by omega : rest.length = 0)
  rw [hbody, List.append_nil]
  exact .block hrun

theorem filler_filler (r : Draft) (a b : List Char) :
    (r.filler a).filler b = r.filler (a ++ b) := by
  cases hstart : r.start with
  | none => simp only [Draft.filler, hstart, Option.isSome_none, Bool.false_eq_true, if_false]
  | some start =>
      simp only [Draft.filler, hstart, Option.isSome_some, if_true, List.reverse_append,
        List.append_assoc]

/-- A comment is passed over, and blanks are kept for it. -/
theorem Remark.exists_reads (hc : Remark d c) (h : here.ahead = c ++ v) (δ : Delimiter)
    (r : Draft) :
    ∃ w, (∀ b ∈ w, Text.isBlank b = true) ∧ ∀ item rest,
      Reads d (here.advance c.length) δ (r.filler w) item rest → Reads d here δ r item rest := by
  cases hc with
  | @block body hbody =>
      refine ⟨[' '], List.forall_mem_singleton.2 rfl, fun item rest hreads => .go ?_ hreads⟩
      have hp : Piece.next d δ r.start.isSome here.behind '/' ('*' :: (body ++ v)) =
          .ok (.comment none, body.length + 2) := by
        have hsize := Piece.commentSize_of_commentTail hbody v
        simp [Piece.next, hsize]
      rw [turn_eq_accept h hp]
      rfl
  | @line body hbody hsets =>
      refine ⟨[' ', '\n'], by simp [Text.isBlank], fun item rest hreads => ?_⟩
      have hp : Piece.next d δ r.start.isSome here.behind '-' ('-' :: (body ++ '\n' :: v)) =
          .ok (.comment none, body.length + 2) := by
        have hline : (body ++ '\n' :: v).takeWhile (· != '\n') = body := by
          rw [(Ends.cons v).takeWhile_append rfl, List.takeWhile_eq_self_iff]
          exact fun b hb => bne_iff_ne.2 (fun h => hbody (h ▸ hb))
        simp [Piece.next, hline, hsets]
      have hahead : here.ahead = '-' :: '-' :: (body ++ '\n' :: v) := by simpa using h
      have hahead' : (here.advance (body.length + 2)).ahead = '\n' :: v := by
        rw [Spot.ahead_advance, hahead]
        exact List.drop_left
      refine .go (turn_eq_accept hahead hp) (.go (turn_of_blank hahead' rfl) ?_)
      rw [Spot.advance_advance, filler_filler]
      simpa using hreads

theorem Draft.Beside.cut (y : Draft) {w : List Char} (hw : ∀ b ∈ w, Text.isBlank b = true) :
    ((y.within [] (' ' :: v)).filler [' ']).Beside c v
      ((y.within [] (' ' :: (c ++ ' ' :: v))).filler (' ' :: (w ++ [' ']))) := by
  unfold Draft.filler
  rw [Draft.isSome_start_within, Draft.isSome_start_within]
  split
  · refine { Draft.Beside.within c v y with text := ⟨w, hw, .inr ⟨y.text.reverse, [], ?_, ?_⟩⟩ }
    · rw [List.reverse_append, List.reverse_reverse]
      rfl
    · rw [List.reverse_append, List.reverse_reverse]
      rfl
  · exact Draft.Beside.within c v y

/-- At the cut one reading takes a blank, and the other one a blank, the comment and a blank. -/
theorem exists_after_cut (hc : Remark d c) (hx : x.ahead = []) (δ : Delimiter) (y : Draft) :
    ∃ here' r', ((x.within [] (' ' :: v)).advance 1).After v here' ∧
      ((y.within [] (' ' :: v)).filler [' ']).Beside c v r' ∧ ∀ item rest,
        Reads d here' δ r' item rest →
          Reads d (x.within [] (' ' :: (c ++ ' ' :: v))) δ
            (y.within [] (' ' :: (c ++ ' ' :: v))) item rest := by
  have hs := Spot.ahead_within_of_end [] (' ' :: v) hx
  have ht := Spot.ahead_within_of_end [] (' ' :: (c ++ ' ' :: v)) hx
  have ht₁ : ((x.within [] (' ' :: (c ++ ' ' :: v))).advance 1).ahead = c ++ ' ' :: v := by
    rw [Spot.ahead_advance, ht]
    rfl
  have ht₂ : (((x.within [] (' ' :: (c ++ ' ' :: v))).advance 1).advance c.length).ahead =
      ' ' :: v := by
    rw [Spot.ahead_advance, ht₁]
    exact List.drop_left
  obtain ⟨w, hw, hreads⟩ := hc.exists_reads ht₁ δ
    ((y.within [] (' ' :: (c ++ ' ' :: v))).filler [' '])
  refine ⟨(((x.within [] (' ' :: (c ++ ' ' :: v))).advance 1).advance c.length).advance 1, _,
    ⟨?_, ?_, ?_⟩, Draft.Beside.cut y hw, fun item rest h => ?_⟩
  · rw [Spot.ahead_advance, Spot.ahead_advance, hs, ht₂]
  · rw [Spot.ahead_advance, hs]
    exact Nat.le_refl _
  · refine ⟨[], x.behind, c.reverse ++ ' ' :: x.behind, ?_, ?_⟩
    · simp [Spot.advance, Spot.within, hx]
    · simp [Spot.advance, Spot.within, hx]
  · refine .go (turn_of_blank ht rfl) (hreads _ _ (.go (turn_of_blank ht₂ rfl) ?_))
    rw [filler_filler, filler_filler]
    exact h

/-- Reading goes on after the cut as without the comment. -/
theorem Reads.before (hc : Remark d c) {item : Option Item} {rest : Splitter}
    (h : Reads d here δ r item rest) (hhere : here = x.within [] (' ' :: v))
    (hr : r = y.within [] (' ' :: v)) (hδ : Solid δ)
    (hclear : ∀ m ∈ moments d here δ r,
      m.isOutside d v = true ∧ m.isUnmoved d c v = true) :
    ∃ item' rest', Reads d (x.within [] (' ' :: (c ++ ' ' :: v))) δ
        (y.within [] (' ' :: (c ++ ' ' :: v))) item' rest' ∧
      Option.Rel (Item.Beside c) item item' ∧ rest.Beside c v rest' := by
  induction h generalizing x y with
  | @stop here δ r item rest h =>
      subst hhere hr
      by_cases hx : x.ahead = []
      · rw [turn_of_blank (Spot.ahead_within_of_end [] _ hx) rfl] at h
        cases h
      · obtain ⟨hout, hblocks⟩ := hclear _ (mem_moments ..)
        obtain ⟨t, ht, ht'⟩ := exists_turn_before hc.hidden hδ hx hout hblocks
        rw [h] at ht
        cases t with
        | go => cases ht
        | stop item rest =>
            cases ht
            refine ⟨_, _, .stop ht', ?_, ⟨.before rest.spot, rfl⟩⟩
            cases item with
            | none => exact .none
            | some i => exact .some (Item.Beside.shift c i)
  | @go here there δ δ' r r' item rest h t ih =>
      subst hhere hr
      by_cases hx : x.ahead = []
      · rw [turn_of_blank (Spot.ahead_within_of_end [] _ hx) rfl] at h
        cases h
        obtain ⟨here', r', hafter, hdraft, hreads⟩ := exists_after_cut (v := v) hc hx δ y
        obtain ⟨item', rest', ht, hitem, hrest⟩ := t.after hdraft hafter
        exact ⟨item', rest', hreads _ _ ht, hitem, hrest⟩
      · obtain ⟨hout, hblocks⟩ := hclear _ (mem_moments ..)
        obtain ⟨next, hnext, hnext'⟩ := exists_turn_before hc.hidden hδ hx hout hblocks
        rw [h] at hnext
        have hδ' : Solid δ' := by
          rcases eq_or_solid_of_go h with rfl | hsolid
          · exact hδ
          · exact hsolid
        rw [moments_of_go h] at hclear
        cases next with
        | stop => cases hnext
        | go there' δ'' r'' =>
            cases hnext
            obtain ⟨item', rest', hreads, hitem, hrest⟩ :=
              ih rfl rfl hδ' (fun m hm => hclear m (List.mem_cons_of_mem _ hm))
            exact ⟨item', rest', .go hnext' hreads, hitem, hrest⟩

namespace Splitter

variable {s t rest : Splitter}

theorem Beside.next (hc : Remark d c) (hst : s.Beside c v t) (hδ : Solid s.delimiter)
    (hclear : ∀ m ∈ s.moments d, m.isOutside d v = true ∧ m.isUnmoved d c v = true)
    {item : Option Item} (h : s.next d = (item, rest)) :
    ∃ item' rest', t.next d = (item', rest') ∧ Option.Rel (Item.Beside c) item item' ∧
      rest.Beside c v rest' := by
  have hreads := reads_iff_next.2 h
  obtain ⟨spot, δ⟩ := s
  obtain ⟨spot', δ'⟩ := t
  obtain ⟨hspot, rfl⟩ := hst
  have hfrom : ∃ item' rest', Reads d spot' δ .empty item' rest' ∧
      Option.Rel (Item.Beside c) item item' ∧ rest.Beside c v rest' := by
    cases hspot with
    | before x =>
        exact hreads.before (y := .empty) hc rfl rfl hδ
          (fun m hm => hclear m (mem_moments_of_next hm))
    | after h => exact hreads.after (Draft.Beside.within c v .empty) h
  obtain ⟨item', rest', hreads', hitem, hrest⟩ := hfrom
  exact ⟨item', rest', reads_iff_next.1 hreads', hitem, hrest⟩

theorem Beside.yields (hc : Remark d c) {items : List Item} {last : Splitter}
    (h : Yields d s items last) (hst : s.Beside c v t) (hδ : Solid s.delimiter)
    (hclear : ∀ m ∈ s.moments d, m.isOutside d v = true ∧ m.isUnmoved d c v = true) :
    ∃ items' last', Yields d t items' last' ∧ List.Forall₂ (Item.Beside c) items items' := by
  induction h generalizing t with
  | done h =>
      obtain ⟨item', rest', h', hitem, -⟩ := hst.next hc hδ hclear h
      cases hitem
      exact ⟨[], rest', .done h', .nil⟩
  | @item s rest last i items h _ ih =>
      obtain ⟨item', rest', h', hitem, hrest⟩ := hst.next hc hδ hclear h
      cases hitem with
      | some hitem =>
          obtain ⟨items', last', hyields, hitems⟩ := ih hrest
            ((reads_iff_next.2 h).solid hδ nofun) (fun m hm => hclear m (mem_moments_of_rest h hm))
          exact ⟨_, last', .item h' hyields, .cons hitem hitems⟩

end Splitter

end Cut

/-- A comment between two parts of a script does what a blank does, if it stands in no quote,
comment or directive and hides nothing that `BEGIN` or `END` before it looks for. -/
theorem split_remark {d : Dialect} {c : String} (hc : Remark d c.toList) (u v : String)
    (houtside : ∀ m ∈ (Splitter.start (u ++ " " ++ v)).moments d,
      m.isOutside d v.toList = true)
    (hblocks : ∀ m ∈ (Splitter.start (u ++ " " ++ v)).moments d,
      m.isUnmoved d c.toList v.toList = true) :
    List.Forall₂ (Item.Beside c.toList) (split d (u ++ " " ++ v))
      (split d (u ++ " " ++ c ++ " " ++ v)) := by
  have hbeside : (Splitter.start (u ++ " " ++ v)).Beside c.toList v.toList
      (Splitter.start (u ++ " " ++ c ++ " " ++ v)) := by
    refine ⟨?_, rfl⟩
    have hspot := Spot.Beside.before (c := c.toList) (v := v.toList) (Spot.start u.toList)
    have h (w : List Char) : (Spot.start u.toList).within [] w = Spot.start (u.toList ++ w) := rfl
    rw [h, h] at hspot
    simpa [Splitter.start] using hspot
  obtain ⟨items, last, hyields, hitems⟩ := hbeside.yields hc (Splitter.yields_run d _)
    solid_semicolon (fun m hm => ⟨houtside m hm, hblocks m hm⟩)
  rw [hyields.eq_run.1] at hitems
  exact hitems

/-- A comment with a comment in it, inside a block whose statements end in the semicolon. -/
theorem split_remark_inBlock :
    List.Forall₂ (Item.Beside "/* one /* two */ END // */".toList)
      (split .mySql ("DELIMITER //\nCREATE PROCEDURE p() BEGIN SELECT 1;" ++ " " ++
        "SELECT 'a;b'; END //"))
      (split .mySql ("DELIMITER //\nCREATE PROCEDURE p() BEGIN SELECT 1;" ++ " " ++
        "/* one /* two */ END // */" ++ " " ++ "SELECT 'a;b'; END //")) :=
  split_remark (.of_commentSize (by decide)) _ _ (by decide +kernel) (by decide +kernel)

theorem map_isOk_eq {is js : List Item} (h : List.Forall₂ (Item.Beside c) is js) :
    is.map Except.isOk = js.map Except.isOk := by
  induction h with
  | nil => rfl
  | cons hitem _ ih =>
      rw [List.map_cons, List.map_cons, ih]
      cases hitem <;> rfl

/-- A comment after `BEGIN` hides the word that makes it start a transaction and no block. -/
theorem not_split_remark : ¬ ∀ (d : Dialect) (c : String), Remark d c.toList → ∀ u v : String,
    (∀ m ∈ (Splitter.start (u ++ " " ++ v)).moments d, m.isOutside d v.toList = true) →
      List.Forall₂ (Item.Beside c.toList) (split d (u ++ " " ++ v))
        (split d (u ++ " " ++ c ++ " " ++ v)) := by
  intro h
  have hitems := h .postgres "/* c */" (.of_commentSize (by decide)) "BEGIN"
    "TRANSACTION; SELECT 1;" (by decide +kernel)
  have hplain : (split .postgres ("BEGIN" ++ " " ++ "TRANSACTION; SELECT 1;")).map Except.isOk =
      [true, true] := by decide +kernel
  have hremark : (split .postgres ("BEGIN" ++ " " ++ "/* c */" ++ " " ++
      "TRANSACTION; SELECT 1;")).map Except.isOk = [false, true] := by decide +kernel
  have heq := map_isOk_eq hitems
  rw [hplain, hremark] at heq
  cases heq

end Statement

end SchemaDrift
