import SchemaDrift.Proofs.Steps

namespace SchemaDrift

open Relation

namespace Step

def Edge (steps : List Step) (a b : Step) : Prop :=
  a ∈ steps ∧ b ∈ steps ∧ a ≠ b ∧ Requires steps a b

def priority (s : Step) : ℕ ×ₗ ℕ := toLex (s.action.rank, s.position)

theorem ordered_eq_map (steps : List Step) : ordered steps =
    (Schedule.order (Schedule.edges steps) (Schedule.ranks steps)).map (steps.getD · default) := by
  rw [ordered, ← List.filterMap_eq_map]
  refine List.filterMap_congr (fun i hi => ?_)
  have hlt : i < steps.length := List.mem_range.1 ((Schedule.perm_order steps).mem_iff.1 hi)
  simp [hlt]

theorem precedes_iff_edge {steps : List Step} (hn : steps.Nodup) {i j : ℕ}
    (hi : i < steps.length) (hj : j < steps.length) :
    Schedule.Precedes steps i j ↔ Edge steps (steps.getD i default) (steps.getD j default) := by
  have hne : i ≠ j ↔ steps[i] ≠ steps[j] := not_congr hn.getElem_inj_iff.symm
  simp [Schedule.Precedes, Edge, hi, hj, hne]

theorem isGreedy_ordered {steps : List Step} (hn : steps.Nodup) :
    Greedy.IsGreedy (Edge steps) priority (ordered steps) := by
  have hlt {i : ℕ} (hi : i ∈ Schedule.order (Schedule.edges steps) (Schedule.ranks steps)) :
      i < steps.length := List.mem_range.1 ((Schedule.perm_order steps).mem_iff.1 hi)
  rw [ordered_eq_map]
  refine (Schedule.isGreedy_order steps).map (fun i hi j hj => ?_) (fun i hi j hj hle => ?_)
  · exact precedes_iff_edge hn (hlt hi) (hlt hj)
  · have hi := hlt hi
    have hj := hlt hj
    simp only [Schedule.priority, List.getElem?_eq_getElem hi, List.getElem?_eq_getElem hj,
      Prod.Lex.toLex_le_toLex] at hle
    simp only [priority, List.getD_eq_getElem?_getD, List.getElem?_eq_getElem hi,
      List.getElem?_eq_getElem hj, Option.getD_some, Prod.Lex.toLex_le_toLex]
    refine hle.imp_right (And.imp_right (fun hpos => ?_))
    rcases hpos with hpos | ⟨hpos, -⟩
    · exact hpos.le
    · exact hpos.le

end Step

namespace Plan

def Edge (detectRenames : Bool) (source target : Model) : Step → Step → Prop :=
  Step.Edge (steps detectRenames source target)

/-- Where a step goes before one that must precede it, every step that is left waits for another,
the step is the first of them, and a cycle among them leads to the one that is passed over. A step
to which no cycle leads goes after all that must precede it. -/
theorem cycle_breaking (detectRenames : Bool) (source target : Model) :
    (∀ before after x y, Step.ordered (steps detectRenames source target) = before ++ y :: after →
      x ∈ after → Edge detectRenames source target x y →
      Greedy.Stuck (Edge detectRenames source target) (y :: after) ∧
      (∀ z ∈ after, y.priority ≤ z.priority) ∧
      ∃ z, TransGen (Greedy.Among (Edge detectRenames source target) (y :: after)) z z ∧
        ReflTransGen (Greedy.Among (Edge detectRenames source target) (y :: after)) z x) ∧
    ∀ x y, Edge detectRenames source target x y →
      (∀ z, TransGen (Edge detectRenames source target) z z →
        ¬ ReflTransGen (Edge detectRenames source target) z y) →
      [x, y].Sublist (Step.ordered (steps detectRenames source target)) := by
  have hgreedy := Step.isGreedy_ordered (nodup_steps detectRenames source target)
  have hmem {s : Step} : s ∈ Step.ordered (steps detectRenames source target) ↔
      s ∈ steps detectRenames source target := (Step.perm_ordered _).mem_iff
  refine ⟨fun before after x y h hx hxy => ?_, fun x y hxy hno => ?_⟩
  · rw [h] at hgreedy
    exact hgreedy.behind_cycle hx hxy
  · exact hgreedy.sublist (hmem.2 hxy.1) (hmem.2 hxy.2.1) hxy hno

def tableNaming (name target : String) : Object :=
  .table { Table.new (.unqualified name) with
    constraints := [⟨none, .foreignKey ⟨.unqualified target, [], none, none⟩, ["id"], []⟩] }

def besideCycle : Model :=
  ((Model.empty.insert (tableNaming "a" "b")).insert (tableNaming "b" "c")).insert
    (tableNaming "c" "b")

def createA : Step := .of .create (tableNaming "a" "b") 0 []

def createB : Step := .of .create (tableNaming "b" "c") 1 []

def createC : Step := .of .create (tableNaming "c" "b") 2 []

theorem steps_besideCycle (detectRenames : Bool) :
    steps detectRenames Model.empty besideCycle = [createA, createB, createC] := rfl

/-- All three steps are stuck, and the one beside the cycle is the first in priority. -/
theorem ordered_besideCycle (detectRenames : Bool) :
    Step.ordered (steps detectRenames Model.empty besideCycle) = [createA, createB, createC] := by
  have h : Schedule.order (Schedule.edges [createA, createB, createC])
      (Schedule.ranks [createA, createB, createC]) = [0, 1, 2] := by
    rw [Schedule.order_eq_schedule_of_perm (.refl _),
      Greedy.schedule_of_argmin (i := 0) (by decide +kernel),
      Greedy.schedule_of_argmin (i := 1) (by decide +kernel),
      Greedy.schedule_of_argmin (i := 2) (by decide +kernel)]
    exact congrArg (fun rest => 0 :: 1 :: 2 :: rest) Greedy.schedule_nil
  rw [steps_besideCycle, Step.ordered, h]
  rfl

theorem edge_createB_createA (detectRenames : Bool) :
    Edge detectRenames Model.empty besideCycle createB createA := by
  have hne : createB ≠ createA := fun h => absurd (congrArg Step.position h) (by decide)
  rw [Edge, steps_besideCycle]
  exact ⟨by simp, by simp, hne, (Step.mustPrecede_iff _ _ _).1 (by decide)⟩

theorem cycle_breaking_besideCycle :
    Step.ordered (steps true Model.empty besideCycle) = [] ++ createA :: [createB, createC] ∧
    createB ∈ [createB, createC] ∧ Edge true Model.empty besideCycle createB createA ∧
    ∃ z, TransGen (Greedy.Among (Edge true Model.empty besideCycle) [createA, createB, createC])
        z z ∧
      ReflTransGen (Greedy.Among (Edge true Model.empty besideCycle) [createA, createB, createC])
        z createB := by
  have hmem : createB ∈ [createB, createC] := List.mem_cons_self
  have hedge := edge_createB_createA true
  have hordered := ordered_besideCycle true
  obtain ⟨-, -, hcycle⟩ := (cycle_breaking true Model.empty besideCycle).1
    [] [createB, createC] createB createA hordered hmem hedge
  exact ⟨hordered, hmem, hedge, hcycle⟩

/-- What is passed over need not share a cycle with the step that passes it over. -/
theorem not_common_cycle : ¬ ∀ (detectRenames : Bool) (source target : Model) (x y : Step),
    Edge detectRenames source target x y →
    [y, x].Sublist (Step.ordered (steps detectRenames source target)) →
    TransGen (Edge detectRenames source target) x y ∧
      TransGen (Edge detectRenames source target) y x := by
  intro h
  have hbefore : [createA, createB].Sublist
      (Step.ordered (steps true Model.empty besideCycle)) := by
    rw [ordered_besideCycle]
    exact List.sublist_append_left [createA, createB] [createC]
  have hpath := (h true Model.empty besideCycle createB createA (edge_createB_createA true)
    hbefore).2
  obtain ⟨z, ⟨-, hz, -, hreq⟩, -⟩ := TransGen.head'_iff.1 hpath
  rw [steps_besideCycle] at hz hreq
  have hnone : ∀ z ∈ [createA, createB, createC],
      Step.mustPrecede [createA, createB, createC] createA z = false := by decide
  rw [← Step.mustPrecede_iff, hnone z hz] at hreq
  cases hreq

end Plan

end SchemaDrift
