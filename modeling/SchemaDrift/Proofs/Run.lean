import SchemaDrift.Proofs.Greedy
import SchemaDrift.Proofs.Lists
import SchemaDrift.Proofs.Queue

namespace SchemaDrift.Schedule

def State.left (s : State) : List ℕ := s.waiting.map Rank.index

def pending (edges : List (ℕ × ℕ)) (left : List ℕ) (i : ℕ) : ℕ :=
  edges.countP (fun e => e.2 == i && left.contains e.1)

/-- What holds while steps are taken. The steps in `owed` have not been told yet that one of their
predecessors was taken. -/
structure State.Tracks (edges : List (ℕ × ℕ)) (owed : List ℕ) (s : State) : Prop where
  nodup : s.left.Nodup
  inBounds : ∀ r ∈ s.waiting, r.index < s.blockers.length
  sorted : s.ready.Pairwise (fun a b => a.key < b.key)
  mem_ready : ∀ r, r ∈ s.ready ↔ r ∈ s.waiting ∧ s.blockers.getD r.index 0 = 0
  blockers : ∀ r ∈ s.waiting,
    s.blockers.getD r.index 0 = pending edges s.left r.index + owed.count r.index

theorem pending_eq_zero_iff {edges : List (ℕ × ℕ)} {left : List ℕ} {i : ℕ} :
    pending edges left i = 0 ↔ Greedy.Free (fun a b => (a, b) ∈ edges) left i := by
  simp only [pending, List.countP_eq_zero, Bool.and_eq_true, beq_iff_eq, List.contains_iff_mem,
    Prod.forall, not_and, Greedy.Free]
  constructor
  · intro h a ha he
    exact h a i he rfl ha
  · rintro h a b he rfl ha
    exact h a ha he

/-- Taking a step pays off the edges that lead from it. -/
theorem pending_erase {edges : List (ℕ × ℕ)} {left : List ℕ} (h : left.Nodup) {a : ℕ}
    (ha : a ∈ left) (i : ℕ) :
    pending edges left i = pending edges (left.erase a) i +
      ((edges.filter (fun e => e.1 == a)).map Prod.snd).count i := by
  induction edges with
  | nil => simp [pending]
  | cons e es ih =>
      have hmem : e.1 ∈ left.erase a ↔ e.1 ≠ a ∧ e.1 ∈ left := h.mem_erase_iff
      simp only [pending] at ih
      simp only [pending, List.countP_cons, ih, List.filter_cons]
      by_cases he : e.1 = a
      · have hgone : a ∉ left.erase a := h.not_mem_erase
        by_cases hi : e.2 = i
        · simp [he, hi, ha, hgone]
          omega
        · simp [he, hi]
      · by_cases hl : e.1 ∈ left
        · simp [he, hl, hmem]
          omega
        · simp [he, hl, hmem]

namespace State

variable {edges : List (ℕ × ℕ)} {owed : List ℕ} {s : State} {r : Rank} {i : ℕ}

def lowered (s : State) (i : ℕ) : List ℕ := s.blockers.set i (s.blockers.getD i 0 - 1)

theorem getD_lowered_ne {j : ℕ} (h : j ≠ i) : (s.lowered i).getD j 0 = s.blockers.getD j 0 := by
  simp [lowered, List.getD_eq_getElem?_getD, List.getElem?_set_ne h.symm]

theorem getD_lowered_self (h : i < s.blockers.length) :
    (s.lowered i).getD i 0 = s.blockers.getD i 0 - 1 := by
  simp [lowered, List.getD_eq_getElem?_getD, List.getElem?_set_self h]

theorem unblock_of_not_mem (hi : i ∉ s.left) :
    s.unblock i = { s with blockers := s.lowered i } := by
  have hf : s.waiting.find? (fun r => r.index == i) = none := by
    rw [List.find?_eq_none]
    intro r hr he
    rw [beq_iff_eq] at he
    exact hi (he ▸ List.mem_map_of_mem hr)
  simp [unblock, hf, lowered]

theorem unblock_of_mem (hn : s.left.Nodup) (hr : r ∈ s.waiting) :
    s.unblock r.index =
      if s.blockers.getD r.index 0 - 1 = 0
      then { s with ready := enqueue r s.ready, blockers := s.lowered r.index }
      else { s with blockers := s.lowered r.index } := by
  have hf : s.waiting.find? (fun q => q.index == r.index) = some r :=
    Lists.find?_eq_some_of_mem hn hr (fun q _ => beq_iff_eq)
  simp [unblock, hf, lowered]

namespace Tracks

theorem unblock_of_not_mem (h : s.Tracks edges (i :: owed)) (hi : i ∉ s.left) :
    (s.unblock i).Tracks edges owed := by
  have hne {r : Rank} (hr : r ∈ s.waiting) : r.index ≠ i :=
    fun he => hi (he ▸ List.mem_map_of_mem hr)
  rw [State.unblock_of_not_mem hi]
  refine ⟨h.nodup, fun r hr => ?_, h.sorted, fun r => ?_, fun r hr => ?_⟩
  · simpa [lowered] using h.inBounds r hr
  · refine (h.mem_ready r).trans (and_congr_right (fun hr => ?_))
    rw [getD_lowered_ne (hne hr)]
  · change (s.lowered i).getD r.index 0 = _
    rw [getD_lowered_ne (hne hr), h.blockers r hr, List.count_cons_of_ne (hne hr).symm]
    rfl

theorem unblock_of_mem (h : s.Tracks edges (r.index :: owed)) (hr : r ∈ s.waiting) :
    (s.unblock r.index).Tracks edges owed := by
  have hlen := h.inBounds r hr
  have hold := h.blockers r hr
  rw [List.count_cons_self] at hold
  have hnew : (s.lowered r.index).getD r.index 0 =
      pending edges s.left r.index + owed.count r.index := by
    rw [getD_lowered_self hlen]
    omega
  have hne {q : Rank} (hq : q ∈ s.waiting) (hqr : q ≠ r) : q.index ≠ r.index :=
    fun he => hqr (List.inj_on_of_nodup_map h.nodup hq hr he)
  have hnot : r ∉ s.ready := by
    intro hm
    have := ((h.mem_ready r).1 hm).2
    omega
  have hlowered : ∀ q ∈ s.waiting, (s.lowered r.index).getD q.index 0 =
      pending edges s.left q.index + owed.count q.index := by
    intro q hq
    by_cases hqr : q = r
    · rw [hqr, hnew]
    · have hi := hne hq hqr
      rw [getD_lowered_ne hi, h.blockers q hq, List.count_cons_of_ne hi.symm]
  have hbounds : ∀ q ∈ s.waiting, q.index < (s.lowered r.index).length := by
    intro q hq
    simpa [lowered] using h.inBounds q hq
  have hothers {q : Rank} (hqr : q ≠ r) : q ∈ s.ready ↔
      q ∈ s.waiting ∧ (s.lowered r.index).getD q.index 0 = 0 := by
    refine (h.mem_ready q).trans (and_congr_right (fun hq => ?_))
    rw [getD_lowered_ne (hne hq hqr)]
  rw [State.unblock_of_mem h.nodup hr, ← getD_lowered_self hlen]
  split
  · next hz =>
      refine ⟨h.nodup, hbounds, pairwise_enqueue h.sorted hnot, fun q => ?_, hlowered⟩
      rw [mem_enqueue]
      by_cases hqr : q = r
      · subst hqr
        exact ⟨fun _ => ⟨hr, hz⟩, fun _ => .inl rfl⟩
      · rw [or_iff_right hqr, hothers hqr]
  · next hz =>
      refine ⟨h.nodup, hbounds, h.sorted, fun q => ?_, hlowered⟩
      by_cases hqr : q = r
      · subst hqr
        exact ⟨fun hm => absurd hm hnot, fun hm => absurd hm.2 hz⟩
      · exact hothers hqr

theorem unblock (h : s.Tracks edges (i :: owed)) : (s.unblock i).Tracks edges owed := by
  by_cases hi : i ∈ s.left
  · obtain ⟨r, hr, rfl⟩ := List.mem_map.1 hi
    exact h.unblock_of_mem hr
  · exact h.unblock_of_not_mem hi

theorem foldl_unblock (h : s.Tracks edges owed) : (owed.foldl State.unblock s).Tracks edges [] := by
  induction owed generalizing s with
  | nil => exact h
  | cons i owed ih => exact ih h.unblock

theorem take (h : s.Tracks edges []) (hr : r ∈ s.waiting) : (s.take edges r).Tracks edges [] := by
  apply foldl_unblock
  have hw : s.waiting.Nodup := h.nodup.of_map
  have hq : s.ready.Nodup := h.sorted.imp (fun hlt he => hlt.ne (congrArg Rank.key he))
  have hleft : (s.waiting.erase r).map Rank.index = s.left.erase r.index :=
    Lists.map_erase_of_mem h.nodup hr
  refine ⟨?_, fun q hqw => ?_, h.sorted.sublist List.erase_sublist, fun q => ?_, fun q hqw => ?_⟩
  · exact h.nodup.sublist (List.erase_sublist.map _)
  · exact h.inBounds q (List.mem_of_mem_erase hqw)
  · simp only [hq.mem_erase_iff, hw.mem_erase_iff, h.mem_ready q]
    tauto
  · have hmem : r.index ∈ s.left := List.mem_map_of_mem hr
    change s.blockers.getD q.index 0 = pending edges ((s.waiting.erase r).map _) q.index + _
    rw [h.blockers q (List.mem_of_mem_erase hqw), hleft, pending_erase h.nodup hmem]
    simp

theorem free_iff (h : s.Tracks edges []) (hr : r ∈ s.waiting) :
    r ∈ s.ready ↔ Greedy.Free (fun a b => (a, b) ∈ edges) s.left r.index := by
  rw [h.mem_ready r, h.blockers r hr, List.count_nil, Nat.add_zero, pending_eq_zero_iff]
  exact and_iff_right hr

theorem ready_head_le (h : s.Tracks edges []) {q : Rank} {qs : List Rank} (hq : s.ready = q :: qs)
    (hr : r ∈ s.ready) : q.key ≤ r.key := by
  have hs := h.sorted
  rw [hq, List.pairwise_cons] at hs
  rw [hq] at hr
  rcases List.mem_cons.1 hr with rfl | hr
  · exact le_rfl
  · exact (hs.1 r hr).le

/-- The state takes the step that is chosen: the head of the queue, or else, where the queue is
empty and all that waits is stuck, the first of that. -/
theorem chosen_of_next {priority : ℕ → ℕ ×ₗ ℕ ×ₗ ℕ} (h : s.Tracks edges [])
    (hp : ∀ q ∈ s.waiting, priority q.index = q.key) (hn : s.next = some r) :
    r ∈ s.waiting ∧
      Greedy.Chosen (fun a b => (a, b) ∈ edges) priority s.left r.index := by
  unfold State.next at hn
  split at hn
  · next q qs hq =>
      cases hn
      have hready : r ∈ s.ready := by simp [hq]
      have hr := ((h.mem_ready r).1 hready).1
      have hfree := (h.free_iff hr).1 hready
      refine ⟨hr, List.mem_map_of_mem hr, .inl hfree, fun j hj hf => ?_⟩
      obtain ⟨p, hpw, rfl⟩ := List.mem_map.1 hj
      have hpf := hf.resolve_right (fun hs => hs r.index (List.mem_map_of_mem hr) hfree)
      rw [hp r hr, hp p hpw]
      exact h.ready_head_le hq ((h.free_iff hpw).2 hpf)
  · next hq =>
      split at hn
      · cases hn
      · next q qs hw =>
          cases hn
          have hr : least q qs ∈ s.waiting := hw ▸ least_mem q qs
          refine ⟨hr, List.mem_map_of_mem hr, .inr fun j hj hf => ?_, fun j hj _ => ?_⟩
          · obtain ⟨p, hpw, rfl⟩ := List.mem_map.1 hj
            have hready := (h.free_iff hpw).2 hf
            rw [hq] at hready
            cases hready
          · obtain ⟨p, hpw, rfl⟩ := List.mem_map.1 hj
            rw [hp _ hr, hp p hpw]
            exact least_le q qs p (hw ▸ hpw)

end Tracks

theorem waiting_eq_nil_of_next (hn : s.next = none) : s.waiting = [] := by
  unfold next at hn
  split at hn
  · cases hn
  · split at hn
    · next hw => exact hw
    · cases hn

/-- Counters and queue take the steps in the order of the greedy schedule. -/
theorem run_eq_schedule {priority : ℕ → ℕ ×ₗ ℕ ×ₗ ℕ} (h : s.Tracks edges [])
    (hp : ∀ q ∈ s.waiting, priority q.index = q.key) :
    (s.run edges).map Rank.index =
      Greedy.schedule (fun a b => (a, b) ∈ edges) priority s.left := by
  fun_induction State.run edges s with
  | case1 s hn => simp [left, waiting_eq_nil_of_next hn]
  | case2 s r hn hr ih =>
      have hc := (h.chosen_of_next hp hn).2
      have hinj : ∀ j ∈ s.left, priority j = priority r.index → j = r.index := by
        intro j hj he
        obtain ⟨q, hq, rfl⟩ := List.mem_map.1 hj
        rw [hp q hq, hp r hr] at he
        rw [Rank.key_injective he]
      have hleft : (s.take edges r).left = s.left.erase r.index := by
        rw [left, waiting_take]
        exact Lists.map_erase_of_mem h.nodup hr
      have hpt : ∀ q ∈ (s.take edges r).waiting, priority q.index = q.key := by
        intro q hq
        rw [waiting_take] at hq
        exact hp q (List.mem_of_mem_erase hq)
      rw [List.map_cons, ih (h.take hr) hpt, hleft,
        Greedy.schedule_of_argmin (Greedy.argmin_of_chosen hc hinj)]
  | case3 s r hn hr => exact absurd (h.chosen_of_next hp hn).1 hr

end State

theorem tracks_start {edges : List (ℕ × ℕ)} {ranks : List Rank}
    (hr : ranks.map Rank.index = List.range ranks.length)
    (he : ∀ e ∈ edges, e.1 < ranks.length) : (start edges ranks).Tracks edges [] := by
  have hn : (ranks.map Rank.index).Nodup := hr ▸ List.nodup_range
  have hlt : ∀ r ∈ ranks, r.index < ranks.length := by
    intro r hm
    have hi : r.index ∈ ranks.map Rank.index := List.mem_map_of_mem hm
    rwa [hr, List.mem_range] at hi
  have hcount : ∀ r ∈ ranks, (start edges ranks).blockers.getD r.index 0 =
      pending edges (ranks.map Rank.index) r.index := by
    intro r hm
    have hget : (ranks.map Rank.index)[r.index]? = some r.index := by
      rw [hr, List.getElem?_range (hlt r hm)]
    have hb : (start edges ranks).blockers =
        (ranks.map Rank.index).map (fun i => edges.countP (fun e => e.2 == i)) := by
      simp [start, Function.comp_def]
    rw [hb, List.getD_eq_getElem?_getD, List.getElem?_map, hget, hr]
    refine List.countP_congr (fun e hm => ?_)
    simp [he e hm]
  refine ⟨hn, fun r hm => ?_, ?_, fun r => ?_, fun r hm => ?_⟩
  · simpa [start] using hlt r hm
  · exact pairwise_foldl_enqueue (hn.of_map.filter _) (fun _ _ hm => by cases hm) .nil
  · change r ∈ List.foldl _ [] _ ↔ _
    rw [mem_foldl_enqueue, List.mem_filter, beq_iff_eq]
    simp only [List.not_mem_nil, or_false]
    rfl
  · rw [hcount r hm]
    rfl

theorem order_eq_schedule {edges : List (ℕ × ℕ)} {ranks : List Rank}
    {priority : ℕ → ℕ ×ₗ ℕ ×ₗ ℕ} (hr : ranks.map Rank.index = List.range ranks.length)
    (he : ∀ e ∈ edges, e.1 < ranks.length) (hp : ∀ q ∈ ranks, priority q.index = q.key) :
    order edges ranks =
      Greedy.schedule (fun a b => (a, b) ∈ edges) priority (List.range ranks.length) := by
  rw [order, State.run_eq_schedule (tracks_start hr he) hp]
  exact congrArg _ hr

end SchemaDrift.Schedule
