import Mathlib.Data.Finset.Dedup
import Mathlib.Data.List.Permutation
import SchemaDrift.Proofs.Steps

namespace SchemaDrift

def Action.run : Bool → Action → Option Bool
  | true, .drop => some false
  | true, .alter => some true
  | false, .create => some true
  | _, _ => none

def Operation.run (keys : Finset ObjectKey) (o : Operation) : Option (Finset ObjectKey) :=
  match o.action with
  | .drop => if o.key ∈ keys then some (keys.erase o.key) else none
  | .alter => if o.key ∈ keys then some keys else none
  | .create => if o.key ∈ keys then none else some (insert o.key keys)

namespace Plan

def replay (p : Plan) (keys : Finset ObjectKey) : Option (Finset ObjectKey) :=
  p.operations.foldlM Operation.run keys

end Plan

namespace Operation

/-- An operation is legal if its action is, and leaves the other keys alone. -/
theorem exists_run {o : Operation} {keys : Finset ObjectKey} {present : Bool}
    (h : o.action.run (decide (o.key ∈ keys)) = some present) :
    ∃ next, o.run keys = some next ∧ (o.key ∈ next ↔ present = true) ∧
      ∀ k, k ≠ o.key → (k ∈ next ↔ k ∈ keys) := by
  by_cases hk : o.key ∈ keys
  · cases ha : o.action with
    | drop =>
        simp only [ha, hk, decide_true, Action.run, Option.some.injEq] at h
        refine ⟨keys.erase o.key, by simp [run, ha, hk], by simp [← h], fun k hne => ?_⟩
        rw [Finset.mem_erase, and_iff_right hne]
    | alter =>
        simp only [ha, hk, decide_true, Action.run, Option.some.injEq] at h
        exact ⟨keys, by simp [run, ha, hk], by simp [← h, hk], fun _ _ => Iff.rfl⟩
    | create => simp [ha, hk, Action.run] at h
  · cases ha : o.action with
    | drop => simp [ha, hk, Action.run] at h
    | alter => simp [ha, hk, Action.run] at h
    | create =>
        simp only [ha, hk, decide_false, Action.run, Option.some.injEq] at h
        refine ⟨insert o.key keys, by simp [run, ha, hk], by simp [← h], fun k hne => ?_⟩
        rw [Finset.mem_insert, or_iff_right hne]

/-- A run is legal as soon as it is legal under every key by itself. -/
theorem foldlM_run {ops : List Operation} {keys final : Finset ObjectKey}
    (h : ∀ k, ((ops.filter (fun o => o.key = k)).map Operation.action).foldlM Action.run
      (decide (k ∈ keys)) = some (decide (k ∈ final))) :
    ops.foldlM run keys = some final := by
  induction ops generalizing keys with
  | nil =>
      have he : keys = final := by
        ext k
        simpa using h k
      rw [he]
      rfl
  | cons o ops ih =>
      have ho := h o.key
      rw [List.filter_cons_of_pos (by simp), List.map_cons, List.foldlM_cons] at ho
      obtain ⟨present, hrun, hrest⟩ := Option.bind_eq_some_iff.1 ho
      obtain ⟨next, hnext, hself, hothers⟩ := exists_run hrun
      rw [List.foldlM_cons, hnext]
      refine ih (fun k => ?_)
      by_cases hk : k = o.key
      · rw [hk, show decide (o.key ∈ next) = present by simp [hself]]
        exact hrest
      · have hkeep := h k
        rw [List.filter_cons_of_neg (by simpa using Ne.symm hk)] at hkeep
        rwa [decide_eq_decide.2 (hothers k hk)]

end Operation

namespace Plan

variable (detectRenames : Bool) (source target : Model) (k : ObjectKey)

theorem foldlM_run_operationsOn :
    ((operationsOn detectRenames source target k).map Operation.action).foldlM Action.run
      (source.get? k).isSome = some (target.get? k).isSome := by
  rw [operationsOn]
  cases source.get? k with
  | none => cases target.get? k <;> rfl
  | some before =>
      cases target.get? k with
      | none => rfl
      | some after =>
          cases hd : Details.object detectRenames before after with
          | nil => simp [hd, changeUnder]
          | cons d ds =>
              simp only [hd, changeUnder]
              split <;> rfl

theorem perm_filter_operations :
    ((between detectRenames source target).operations.filter (fun o => o.key = k)).Perm
      (operationsOn detectRenames source target k) := by
  have h := ((Step.perm_ordered (steps detectRenames source target)).map Step.operation).filter
    (fun o => o.key = k)
  rw [List.filter_map, List.filter_map] at h
  rw [← filter_steps, between, List.filter_map]
  exact h

theorem pairwise_operations : (between detectRenames source target).operations.Pairwise
    (fun a b => ¬ (a.action = .create ∧ b.action = .drop ∧ a.key = b.key)) :=
  List.pairwise_map.2 (Step.pairwise_ordered _)

theorem nodup_operations : (between detectRenames source target).operations.Nodup := by
  apply Lists.nodup_of_nodup_filter_key Operation.key
  intro k
  exact (perm_filter_operations detectRenames source target k).nodup_iff.2
    (nodup_operationsOn detectRenames source target k)

theorem filter_operations :
    (between detectRenames source target).operations.filter (fun o => o.key = k) =
      operationsOn detectRenames source target k := by
  have hperm := perm_filter_operations detectRenames source target k
  rcases operationsOn_cases detectRenames source target k with
    h | ⟨o, h⟩ | ⟨a, b, h, ha, hb, hk⟩
  · rw [h] at hperm ⊢
    exact hperm.eq_nil
  · rw [h] at hperm ⊢
    exact List.perm_singleton.1 hperm
  · rw [h] at hperm ⊢
    -- The creation never goes first, which leaves one order of the two.
    refine (List.perm_pair.1 hperm).resolve_right (fun hswapped => ?_)
    have hpair := (pairwise_operations detectRenames source target).filter (fun o => o.key = k)
    rw [hswapped, List.pairwise_pair] at hpair
    exact hpair ⟨hb, ha, hk.symm⟩

theorem operations_eq_nil_iff {detectRenames : Bool} {source target : Model} :
    (between detectRenames source target).operations = [] ↔
      ∀ k, operationsOn detectRenames source target k = [] := by
  simp only [← filter_operations, List.filter_eq_nil_iff, decide_eq_true_eq]
  constructor
  · intro h k o ho
    rw [h] at ho
    cases ho
  · intro h
    exact List.eq_nil_iff_forall_not_mem.2 (fun o ho => h o.key o ho rfl)

/-- A plan leads from the keys of the source to those of the target, and every operation is legal
when its turn comes. What is replaced is dropped first, also where a cycle is broken, nothing is
done twice, and under every key there is done what its two objects call for. -/
theorem replay_between :
    (between detectRenames source target).replay source.keys.toFinset =
      some target.keys.toFinset ∧
    (between detectRenames source target).operations.Pairwise
      (fun a b => ¬ (a.action = .create ∧ b.action = .drop ∧ a.key = b.key)) ∧
    (between detectRenames source target).operations.Nodup ∧
    ∀ k, (between detectRenames source target).operations.filter (fun o => o.key = k) =
      operationsOn detectRenames source target k := by
  refine ⟨Operation.foldlM_run (fun k => ?_), pairwise_operations .., nodup_operations ..,
    filter_operations detectRenames source target⟩
  have hmem (m : Model) : decide (k ∈ m.keys.toFinset) = (m.get? k).isSome := by
    rw [Bool.eq_iff_iff, decide_eq_true_iff, List.mem_toFinset, Model.mem_keys_iff]
  rw [filter_operations, hmem, hmem]
  exact foldlM_run_operationsOn detectRenames source target k

end Plan

end SchemaDrift
