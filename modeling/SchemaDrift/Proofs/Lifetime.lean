import Mathlib.Logic.Function.Basic
import SchemaDrift.Proofs.Replay

namespace SchemaDrift

namespace Plan

variable {detectRenames : Bool} {source target : Model} {k : ObjectKey} {o : Object} {s : Step}

def enact (target : Model) (now : ObjectKey → Option Object) (op : Operation) :
    ObjectKey → Option Object :=
  Function.update now op.key (if op.action = .drop then none else target.get? op.key)

def inForce (source target : Model) (done : List Operation) : ObjectKey → Option Object :=
  done.foldl (enact target) source.get?

theorem inForce_concat (done : List Operation) (op : Operation) :
    inForce source target (done ++ [op]) = enact target (inForce source target done) op := by
  rw [inForce, List.foldl_concat]
  rfl

/-- A definition is that of the source, of which nothing has been done yet, or else that of the
target, which some operation brought in. -/
theorem inForce_cases {done : List Operation} (h : inForce source target done k = some o) :
    (source.get? k = some o ∧ ∀ p ∈ done, p.key ≠ k) ∨
    (target.get? k = some o ∧ ∃ p ∈ done, p.key = k ∧ p.action ≠ .drop) := by
  induction done using List.reverseRecOn with
  | nil => exact .inl ⟨h, fun p hp => by cases hp⟩
  | append_singleton done op ih =>
      rw [inForce_concat, enact] at h
      by_cases hk : op.key = k
      · subst hk
        rw [Function.update_self] at h
        split at h
        · cases h
        · next ha => exact .inr ⟨h, op, by simp, rfl, ha⟩
      · rw [Function.update_of_ne (Ne.symm hk)] at h
        rcases ih h with ⟨hs, hnone⟩ | ⟨ht, p, hp, hpk, ha⟩
        · refine .inl ⟨hs, fun p hp => ?_⟩
          rcases List.mem_append.1 hp with hp | hp
          · exact hnone p hp
          · rwa [List.mem_singleton.1 hp]
        · exact .inr ⟨ht, p, List.mem_append_left _ hp, hpk, ha⟩

end Plan

structure Step.Fits (source target : Model) (s : Step) : Prop where
  key_eq : s.object.key = s.operation.key
  old : s.action = .drop → s.object ∈ source.objects
  new : s.action ≠ .drop → s.object ∈ target.objects
  previous : ∀ o, s.previous = some o →
    s.action = .alter ∧ o ∈ source.objects ∧ o.key = s.operation.key
  altered : s.action = .alter → s.previous.isSome = true

namespace Step

variable {source target : Model} {o : Object}

theorem Fits.kind_eq {s : Step} (h : s.Fits source target) : s.object.kind = s.operation.kind :=
  congrArg ObjectKey.kind h.key_eq

theorem Fits.name_eq {s : Step} (h : s.Fits source target) : s.object.name = s.operation.name :=
  congrArg ObjectKey.name h.key_eq

theorem fits_drop (ho : o ∈ source.objects) (n : ℕ) (details : List String) :
    (Step.of .drop o n details).Fits source target where
  key_eq := rfl
  old _ := ho
  new h := (h rfl).elim
  previous _ h := absurd h (Option.some_ne_none _).symm
  altered h := Action.noConfusion h

theorem fits_create (ho : o ∈ target.objects) (n : ℕ) (details : List String) :
    (Step.of .create o n details).Fits source target where
  key_eq := rfl
  old h := Action.noConfusion h
  new _ := ho
  previous _ h := absurd h (Option.some_ne_none _).symm
  altered h := Action.noConfusion h

theorem fits_alter {before : Object} (hb : before ∈ source.objects) (ho : o ∈ target.objects)
    (hk : before.key = o.key) (n : ℕ) (details : List String) :
    { Step.of .alter o n details with previous := some before }.Fits source target where
  key_eq := rfl
  old h := Action.noConfusion h
  new _ := ho
  previous _ h := Option.some.inj h ▸ ⟨rfl, hb, hk⟩
  altered _ := rfl

end Step

namespace Plan

variable {detectRenames : Bool} {source target : Model} {k : ObjectKey} {o : Object} {s : Step}

theorem fits_of_mem_targetSteps {n : ℕ} (ho : o ∈ target.objects)
    (h : s ∈ targetSteps detectRenames source o n) : s.Fits source target := by
  unfold targetSteps at h
  split at h
  · rw [List.mem_singleton.1 h]
    exact Step.fits_create ho ..
  · next before hbefore =>
      obtain ⟨hmem, hkey⟩ := Model.get?_eq_some_iff.1 hbefore
      split at h
      · cases h
      · split at h
        · rw [List.mem_singleton.1 h]
          exact Step.fits_alter hmem ho hkey ..
        · simp only [List.mem_cons, List.not_mem_nil, or_false] at h
          rcases h with rfl | rfl
          · exact Step.fits_drop hmem ..
          · exact Step.fits_create ho ..

theorem fits_of_mem_sourceSteps {n : ℕ} (ho : o ∈ source.objects)
    (h : s ∈ sourceSteps target o n) : s.Fits source target := by
  unfold sourceSteps at h
  split at h
  · cases h
  · rw [List.mem_singleton.1 h]
    exact Step.fits_drop ho ..

theorem fits_of_mem_steps (h : s ∈ steps detectRenames source target) :
    s.Fits source target := by
  rcases List.mem_append.1 h with h | h
  · obtain ⟨⟨o, n⟩, ho, hs⟩ := List.mem_flatMap.1 h
    exact fits_of_mem_targetSteps (List.fst_mem_of_mem_zipIdx ho) hs
  · obtain ⟨⟨o, n⟩, ho, hs⟩ := List.mem_flatMap.1 h
    exact fits_of_mem_sourceSteps (List.fst_mem_of_mem_zipIdx ho) hs

/-- Every operation that a key calls for is the operation of a step. -/
theorem exists_step_of_mem_operationsOn {op : Operation}
    (h : op ∈ operationsOn detectRenames source target k) :
    ∃ s ∈ steps detectRenames source target, s.operation = op ∧ op.key = k := by
  rw [← filter_steps] at h
  obtain ⟨s, hs, rfl⟩ := List.mem_map.1 h
  obtain ⟨hs, hk⟩ := List.mem_filter.1 hs
  exact ⟨s, hs, rfl, by simpa using hk⟩

theorem operation_mem_operationsOn (h : s ∈ steps detectRenames source target) :
    s.operation ∈ operationsOn detectRenames source target s.operation.key := by
  rw [← filter_steps]
  exact List.mem_map_of_mem (List.mem_filter.2 ⟨h, by simp⟩)

theorem mem_operationsOn_of_mem {op : Operation}
    (h : op ∈ (between detectRenames source target).operations) (hk : op.key = k) :
    op ∈ operationsOn detectRenames source target k := by
  rw [← filter_operations]
  exact List.mem_filter.2 ⟨h, decide_eq_true hk⟩

/-- An object of the source is dropped, or altered, or left alone. -/
theorem operationsOn_of_source (detectRenames : Bool) (target : Model)
    (h : source.get? k = some o) :
    (∃ op ∈ operationsOn detectRenames source target k, op.action = .drop) ∨
    (∃ op, operationsOn detectRenames source target k = [op] ∧ op.action = .alter) ∨
    ∃ after, target.get? k = some after ∧ Details.object detectRenames o after = [] ∧
      operationsOn detectRenames source target k = [] := by
  rw [operationsOn, h]
  cases ht : target.get? k with
  | none => exact .inl ⟨_, List.mem_singleton_self _, rfl⟩
  | some after =>
      cases hd : Details.object detectRenames o after with
      | nil => exact .inr (.inr ⟨after, rfl, hd, by simp [hd, changeUnder]⟩)
      | cons d ds =>
          simp only [hd, changeUnder]
          split
          · exact .inr (.inl ⟨_, rfl, rfl⟩)
          · exact .inl ⟨_, List.mem_cons_self, rfl⟩

/-- What is dropped and still has a place in the target is created anew. -/
theorem exists_create_of_drop {op : Operation}
    (h : op ∈ operationsOn detectRenames source target k) (ha : op.action = .drop)
    (ht : k ∈ target.keys) :
    ∃ p ∈ operationsOn detectRenames source target k, p.action = .create := by
  obtain ⟨after, hafter⟩ := Option.isSome_iff_exists.1 (Model.mem_keys_iff.1 ht)
  rw [operationsOn, hafter] at h ⊢
  cases hs : source.get? k with
  | none =>
      rw [hs, List.mem_singleton] at h
      rw [h] at ha
      cases ha
  | some before =>
      rw [hs] at h
      simp only [changeUnder] at h ⊢
      cases hd : Details.object detectRenames before after with
      | nil => simp [hd] at h
      | cons d ds =>
          simp only [hd] at h ⊢
          split at h
          · rw [List.mem_singleton] at h
            rw [h] at ha
            cases ha
          · next hn =>
              rw [if_neg hn]
              exact ⟨_, List.mem_cons_of_mem _ (List.mem_singleton_self _), rfl⟩

end Plan

end SchemaDrift
