import Mathlib.Data.List.MinMax
import Mathlib.Data.Set.Finite.Basic
import Mathlib.Logic.Relation
import Mathlib.Order.WellFounded

namespace SchemaDrift.Greedy

open Relation

variable {α β : Type}

def Free (precedes : α → α → Prop) (left : List α) (j : α) : Prop := ∀ i ∈ left, ¬ precedes i j

/-- No item can go next without passing over another. -/
def Stuck (precedes : α → α → Prop) (left : List α) : Prop :=
  ∀ j ∈ left, ¬ Free precedes left j

def Among (precedes : α → α → Prop) (left : List α) (i j : α) : Prop :=
  i ∈ left ∧ j ∈ left ∧ precedes i j

instance (precedes : α → α → Prop) [DecidableRel precedes] (left : List α) :
    DecidablePred (Free precedes left) := fun j =>
  inferInstanceAs (Decidable (∀ i ∈ left, ¬ precedes i j))

def eligible (precedes : α → α → Prop) [DecidableRel precedes] (left : List α) : List α :=
  match left.filter (Free precedes left) with
  | [] => left
  | j :: js => j :: js

theorem mem_eligible_iff {precedes : α → α → Prop} [DecidableRel precedes] {left : List α} {j : α} :
    j ∈ eligible precedes left ↔
      j ∈ left ∧ (Free precedes left j ∨ Stuck precedes left) := by
  unfold eligible
  split
  · next h =>
      have hs : Stuck precedes left := fun i hi => by simpa using List.filter_eq_nil_iff.1 h i hi
      simp [hs]
  · next k ks h =>
      have hk : k ∈ left.filter (Free precedes left) := by simp [h]
      have hs : ¬ Stuck precedes left := fun hs => by
        rw [List.mem_filter, decide_eq_true_eq] at hk
        exact hs k hk.1 hk.2
      rw [← h, List.mem_filter, decide_eq_true_eq, or_iff_left hs]

structure Chosen [LinearOrder β] (precedes : α → α → Prop) (priority : α → β) (left : List α)
    (i : α) : Prop where
  mem : i ∈ left
  free_or_stuck : Free precedes left i ∨ Stuck precedes left
  first : ∀ j ∈ left, Free precedes left j ∨ Stuck precedes left → priority i ≤ priority j

namespace Chosen

variable [LinearOrder β] {precedes : α → α → Prop} {priority : α → β} {left : List α} {i : α}

theorem iff_eligible [DecidableRel precedes] :
    Chosen precedes priority left i ↔ i ∈ eligible precedes left ∧
      ∀ j ∈ eligible precedes left, priority i ≤ priority j := by
  simp only [mem_eligible_iff, and_imp]
  constructor
  · rintro ⟨hm, hf, hp⟩
    exact ⟨⟨hm, hf⟩, hp⟩
  · rintro ⟨⟨hm, hf⟩, hp⟩
    exact ⟨hm, hf, hp⟩

/-- Only what is left counts, not its order. -/
theorem congr {right : List α} (h : ∀ j, j ∈ left ↔ j ∈ right)
    (hc : Chosen precedes priority left i) : Chosen precedes priority right i := by
  have hfree (j : α) : Free precedes left j ↔ Free precedes right j := by simp [Free, h]
  have hstuck : Stuck precedes left ↔ Stuck precedes right := by simp [Stuck, h, hfree]
  obtain ⟨hm, hf, hp⟩ := hc
  simp only [h, hfree, hstuck] at hm hf hp
  exact ⟨hm, hf, hp⟩

/-- Where an item goes before one that it waits for, all that is left is stuck, and the item is
the first of it in priority. -/
theorem stuck_of_waits {x : α} (hc : Chosen precedes priority left i) (hx : x ∈ left)
    (hxi : precedes x i) : Stuck precedes left ∧ ∀ j ∈ left, priority i ≤ priority j := by
  have hs : Stuck precedes left := hc.free_or_stuck.resolve_left (fun hf => hf x hx hxi)
  exact ⟨hs, fun j hj => hc.first j hj (.inr hs)⟩

theorem map {γ δ : Type} [LinearOrder δ] {edge : γ → γ → Prop} {rank : γ → δ} {f : α → γ}
    (hc : Chosen precedes priority left i)
    (he : ∀ j ∈ left, ∀ k ∈ left, precedes j k ↔ edge (f j) (f k))
    (hr : ∀ j ∈ left, ∀ k ∈ left, priority j ≤ priority k → rank (f j) ≤ rank (f k)) :
    Chosen edge rank (left.map f) (f i) := by
  have hfree {j : α} (hj : j ∈ left) : Free edge (left.map f) (f j) ↔ Free precedes left j := by
    simp only [Free, List.forall_mem_map]
    exact forall₂_congr (fun k hk => not_congr (he k hk j hj).symm)
  have hstuck : Stuck edge (left.map f) ↔ Stuck precedes left := by
    simp only [Stuck, List.forall_mem_map]
    exact forall₂_congr (fun j hj => not_congr (hfree hj))
  refine ⟨List.mem_map_of_mem hc.mem, ?_, List.forall_mem_map.2 (fun j hj hf => ?_)⟩
  · rw [hfree hc.mem, hstuck]
    exact hc.free_or_stuck
  · rw [hfree hj, hstuck] at hf
    exact hr i hc.mem j hj (hc.first j hj hf)

end Chosen

theorem chosen_of_argmin [LinearOrder β] {precedes : α → α → Prop} [DecidableRel precedes]
    {priority : α → β} {left : List α} {i : α}
    (h : (eligible precedes left).argmin priority = some i) :
    Chosen precedes priority left i :=
  Chosen.iff_eligible.2 ⟨List.argmin_mem h, fun _ hj => List.le_of_mem_argmin hj h⟩

theorem argmin_of_chosen [LinearOrder β] {precedes : α → α → Prop} [DecidableRel precedes]
    {priority : α → β} {left : List α} {i : α} (h : Chosen precedes priority left i)
    (hp : ∀ j ∈ left, priority j = priority i → j = i) :
    (eligible precedes left).argmin priority = some i := by
  obtain ⟨hi, hle⟩ := Chosen.iff_eligible.1 h
  cases hm : (eligible precedes left).argmin priority with
  | none =>
      rw [List.argmin_eq_none.1 hm] at hi
      cases hi
  | some j =>
      have hj := List.argmin_mem hm
      have he : priority j = priority i := le_antisymm (List.le_of_mem_argmin hi hm) (hle j hj)
      rw [hp j (mem_eligible_iff.1 hj).1 he]

section Schedule

variable [DecidableEq α] [LinearOrder β] (precedes : α → α → Prop) [DecidableRel precedes]
  (priority : α → β)

def schedule (left : List α) : List α :=
  match _h : (eligible precedes left).argmin priority with
  | none => []
  | some i => i :: schedule (left.erase i)
termination_by left.length
decreasing_by
  have hi : i ∈ left := (mem_eligible_iff.1 (List.argmin_mem _h)).1
  rw [List.length_erase_of_mem hi]
  exact Nat.sub_lt (List.length_pos_of_mem hi) Nat.one_pos

variable {precedes priority}

@[simp]
theorem schedule_nil : schedule precedes priority [] = [] := by
  rw [schedule]
  rfl

theorem schedule_of_argmin {left : List α} {i : α}
    (h : (eligible precedes left).argmin priority = some i) :
    schedule precedes priority left = i :: schedule precedes priority (left.erase i) := by
  rw [schedule]
  split
  · next hn => rw [h] at hn; cases hn
  · next j hj =>
      rw [h] at hj
      cases hj
      rfl

theorem perm_schedule (left : List α) : (schedule precedes priority left).Perm left := by
  fun_induction schedule precedes priority left with
  | case1 left h =>
      cases left with
      | nil => exact .nil
      | cons k ks =>
          have he : eligible precedes (k :: ks) = [] := List.argmin_eq_none.1 h
          unfold eligible at he
          split at he <;> cases he
  | case2 left i h ih =>
      exact (ih.cons i).trans (List.perm_cons_erase (chosen_of_argmin h).mem).symm

theorem schedule_congr {others : α → α → Prop} [DecidableRel others]
    (h : ∀ i j, precedes i j ↔ others i j) (left : List α) :
    schedule precedes priority left = schedule others priority left := by
  have he : precedes = others := by
    funext i j
    exact propext (h i j)
  subst he
  congr

end Schedule

def Upstream (precedes : α → α → Prop) (left : List α) (x i j : α) : Prop :=
  TransGen (Among precedes left) i j ∧ ReflTransGen (Among precedes left) j x

/-- The way back from an item ends at one that is free, or else comes from a cycle: there are only
so many items. -/
theorem exists_free_or_cycle {precedes : α → α → Prop} {left : List α} {x : α} (hx : x ∈ left) :
    (∃ w ∈ left, Free precedes left w ∧ ReflTransGen (Among precedes left) w x) ∨
    ∃ z, TransGen (Among precedes left) z z ∧ ReflTransGen (Among precedes left) z x := by
  by_contra hboth
  obtain ⟨hfree, hcycle⟩ := not_or.1 hboth
  -- Without such a cycle, the items on a way to `x` are in strict order.
  have hwf : WellFounded (fun i j : {i // i ∈ left} => Upstream precedes left x i.1 j.1) := by
    have : Finite {i // i ∈ left} := (List.finite_toSet left).to_subtype
    have : IsTrans _ (fun i j : {i // i ∈ left} => Upstream precedes left x i.1 j.1) :=
      ⟨fun _ _ _ hij hjk => ⟨hij.1.trans hjk.1, hjk.2⟩⟩
    have : Std.Irrefl (fun i j : {i // i ∈ left} => Upstream precedes left x i.1 j.1) :=
      ⟨fun i hi => hcycle ⟨i.1, hi⟩⟩
    exact Finite.wellFounded_of_trans_of_irrefl _
  have hno (j : {i // i ∈ left}) : ¬ ReflTransGen (Among precedes left) j.1 x := by
    induction j using hwf.induction with
    | _ j ih =>
        intro hjx
        have hblocked : ¬ Free precedes left j.1 := fun hf => hfree ⟨j.1, j.2, hf, hjx⟩
        simp only [Free, not_forall, not_not] at hblocked
        obtain ⟨i, hi, hij⟩ := hblocked
        have hstep : Among precedes left i j.1 := ⟨hi, j.2, hij⟩
        exact ih ⟨i, hi⟩ ⟨.single hstep, hjx⟩ (.head hstep hjx)
  exact hno ⟨x, hx⟩ .refl

/-- What is stuck is stuck behind a cycle. -/
theorem exists_cycle_of_stuck {precedes : α → α → Prop} {left : List α}
    (h : Stuck precedes left) {x : α} (hx : x ∈ left) :
    ∃ z, TransGen (Among precedes left) z z ∧ ReflTransGen (Among precedes left) z x :=
  (exists_free_or_cycle hx).resolve_left (fun ⟨w, hw, hf, _⟩ => h w hw hf)

theorem transGen_of_among {precedes : α → α → Prop} {left : List α} {i j : α}
    (h : TransGen (Among precedes left) i j) : TransGen precedes i j :=
  TransGen.mono (fun _ _ (hij : Among precedes left _ _) => hij.2.2) i j h

def IsGreedy [LinearOrder β] (precedes : α → α → Prop) (priority : α → β) : List α → Prop
  | [] => True
  | i :: after => Chosen precedes priority (i :: after) i ∧ IsGreedy precedes priority after

theorem isGreedy_schedule [DecidableEq α] [LinearOrder β] {precedes : α → α → Prop}
    [DecidableRel precedes] {priority : α → β} (left : List α) :
    IsGreedy precedes priority (schedule precedes priority left) := by
  fun_induction schedule precedes priority left with
  | case1 => trivial
  | case2 left i h ih =>
      have hc := chosen_of_argmin h
      have hp : left.Perm (i :: schedule precedes priority (left.erase i)) :=
        (List.perm_cons_erase hc.mem).trans ((perm_schedule _).symm.cons i)
      exact ⟨hc.congr (fun j => hp.mem_iff), ih⟩

namespace IsGreedy

variable [LinearOrder β] {precedes : α → α → Prop} {priority : α → β} {l before after : List α}
  {x y : α}

theorem of_append (h : IsGreedy precedes priority (before ++ after)) :
    IsGreedy precedes priority after := by
  induction before with
  | nil => exact h
  | cons i before ih => exact ih h.2

/-- Even around a cycle, only an item of lower or the same priority is passed over. -/
theorem pairwise (h : IsGreedy precedes priority l) :
    l.Pairwise (fun i j => precedes j i → priority i ≤ priority j) := by
  induction l with
  | nil => exact .nil
  | cons i l ih =>
      refine List.pairwise_cons.2 ⟨fun j hj hji => ?_, ih h.2⟩
      have hj : j ∈ i :: l := List.mem_cons_of_mem i hj
      exact (h.1.stuck_of_waits hj hji).2 j hj

theorem map {γ δ : Type} [LinearOrder δ] {edge : γ → γ → Prop} {rank : γ → δ} {f : α → γ}
    (h : IsGreedy precedes priority l)
    (he : ∀ j ∈ l, ∀ k ∈ l, precedes j k ↔ edge (f j) (f k))
    (hr : ∀ j ∈ l, ∀ k ∈ l, priority j ≤ priority k → rank (f j) ≤ rank (f k)) :
    IsGreedy edge rank (l.map f) := by
  induction l with
  | nil => trivial
  | cons i l ih =>
      refine ⟨h.1.map he hr, ih h.2 (fun j hj k hk => ?_) (fun j hj k hk => ?_)⟩
      · exact he j (List.mem_cons_of_mem i hj) k (List.mem_cons_of_mem i hk)
      · exact hr j (List.mem_cons_of_mem i hj) k (List.mem_cons_of_mem i hk)

/-- An item that goes before one that it waits for is the first in priority of what is left, and
a cycle leads to what it passes over. -/
theorem behind_cycle (h : IsGreedy precedes priority (before ++ y :: after)) (hx : x ∈ after)
    (hxy : precedes x y) :
    Stuck precedes (y :: after) ∧ (∀ z ∈ after, priority y ≤ priority z) ∧
    ∃ z, TransGen (Among precedes (y :: after)) z z ∧
      ReflTransGen (Among precedes (y :: after)) z x := by
  have hx : x ∈ y :: after := List.mem_cons_of_mem y hx
  obtain ⟨hstuck, hfirst⟩ := h.of_append.1.stuck_of_waits hx hxy
  exact ⟨hstuck, fun z hz => hfirst z (List.mem_cons_of_mem y hz), exists_cycle_of_stuck hstuck hx⟩

/-- An item to which no cycle leads goes after all that it waits for. -/
theorem sublist (h : IsGreedy precedes priority l) (hx : x ∈ l) (hy : y ∈ l)
    (hxy : precedes x y) (hno : ∀ z, TransGen precedes z z → ¬ ReflTransGen precedes z y) :
    [x, y].Sublist l := by
  obtain ⟨before, after, rfl⟩ := List.append_of_mem hy
  have hne : x ≠ y := by
    rintro rfl
    exact hno x (.single hxy) .refl
  rcases List.mem_append.1 hx with hx | hx
  · exact (List.singleton_sublist.2 hx).append (List.singleton_sublist.2 List.mem_cons_self)
  · have hx : x ∈ after := (List.mem_cons.1 hx).resolve_left hne
    obtain ⟨-, -, z, hz, hzx⟩ := h.behind_cycle hx hxy
    have hzx : ReflTransGen precedes z x := ReflTransGen.mono (fun _ _ hij => hij.2.2) z x hzx
    exact absurd (hzx.tail hxy) (hno z (transGen_of_among hz))

end IsGreedy

end SchemaDrift.Greedy
