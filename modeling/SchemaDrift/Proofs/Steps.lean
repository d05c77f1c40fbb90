import SchemaDrift.Proofs.Lookup
import SchemaDrift.Proofs.Precedence

namespace SchemaDrift.Plan

def changeUnder (k : ObjectKey) : List String → List Operation
  | [] => []
  | d :: ds =>
      if k.kind.supportsAlter then [⟨.alter, k.kind, k.name, d :: ds⟩]
      else [⟨.drop, k.kind, k.name, [replacedDetail]⟩, ⟨.create, k.kind, k.name, d :: ds⟩]

/-- What a plan does under one key: an object that only one side has is dropped or created, and
one that both have and that differs is altered, or dropped and created anew. -/
def operationsOn (detectRenames : Bool) (source target : Model) (k : ObjectKey) :
    List Operation :=
  match source.get? k, target.get? k with
  | none, none => []
  | some _, none => [⟨.drop, k.kind, k.name, []⟩]
  | none, some _ => [⟨.create, k.kind, k.name, []⟩]
  | some before, some after => changeUnder k (Details.object detectRenames before after)

variable {detectRenames : Bool} {source target : Model} {o : Object} {n : ℕ} {k : ObjectKey}

theorem targetSteps_of_new (h : source.get? o.key = none) :
    (targetSteps detectRenames source o n).map (·.operation) =
      [⟨.create, o.key.kind, o.key.name, []⟩] := by
  rw [targetSteps, h]
  rfl

theorem targetSteps_of_both {before : Object} (h : source.get? o.key = some before) :
    (targetSteps detectRenames source o n).map (·.operation) =
      changeUnder o.key (Details.object detectRenames before o) := by
  have hk : before.key = o.key := (Model.get?_eq_some_iff.1 h).2
  have hkind : before.kind = o.key.kind := congrArg ObjectKey.kind hk
  have hname : before.name = o.key.name := congrArg ObjectKey.name hk
  rw [targetSteps, h]
  cases hd : Details.object detectRenames before o with
  | nil =>
      simp only [hd]
      rfl
  | cons d ds =>
      by_cases ha : o.kind.supportsAlter = true
      · simp only [hd, ha, if_true]
        exact (if_pos ha).symm
      · simp only [hd, ha, changeUnder, hkind, hname, Step.of]
        exact (if_neg ha).symm

theorem sourceSteps_of (target : Model) (o : Object) (n : ℕ) :
    (sourceSteps target o n).map (·.operation) =
      if target.contains o.key then [] else [⟨.drop, o.key.kind, o.key.name, []⟩] := by
  rw [sourceSteps]
  split <;> rfl

theorem changeUnder_eq_nil_iff {k : ObjectKey} {details : List String} :
    changeUnder k details = [] ↔ details = [] := by
  cases details with
  | nil => simp [changeUnder]
  | cons d ds =>
      rw [changeUnder]
      split <;> simp

theorem key_of_mem_changeUnder {details : List String} {op : Operation}
    (h : op ∈ changeUnder k details) : op.key = k := by
  cases details with
  | nil => cases h
  | cons d ds =>
      rw [changeUnder] at h
      split at h
      · rw [List.mem_singleton.1 h]
        rfl
      · simp only [List.mem_cons, List.not_mem_nil, or_false] at h
        rcases h with rfl | rfl <;> rfl

theorem key_of_mem_targetSteps {s : Step} (h : s ∈ targetSteps detectRenames source o n) :
    s.operation.key = o.key := by
  have hop : s.operation ∈ (targetSteps detectRenames source o n).map (·.operation) :=
    List.mem_map_of_mem h
  cases hs : source.get? o.key with
  | none =>
      rw [targetSteps_of_new hs, List.mem_singleton] at hop
      rw [hop]
      rfl
  | some before =>
      rw [targetSteps_of_both hs] at hop
      exact key_of_mem_changeUnder hop

theorem key_of_mem_sourceSteps {s : Step} (h : s ∈ sourceSteps target o n) :
    s.operation.key = o.key := by
  rw [sourceSteps] at h
  split at h
  · cases h
  · rw [List.mem_singleton.1 h]
    rfl

theorem filter_targetSteps (detectRenames : Bool) (source target : Model) (k : ObjectKey) :
    ((target.objects.zipIdx.flatMap (fun p => targetSteps detectRenames source p.1 p.2)).filter
      (fun s => s.operation.key = k)).map (·.operation) =
        match source.get? k, target.get? k with
        | _, none => []
        | none, some _ => [⟨.create, k.kind, k.name, []⟩]
        | some before, some after =>
            changeUnder k (Details.object detectRenames before after) := by
  rw [Lists.filter_flatMap_key target.nodup_zipIdx_keys _ _
    (fun p _ s hs => key_of_mem_targetSteps hs), ← Model.map_fst_find?_zipIdx target k]
  cases hf : target.objects.zipIdx.find? (fun p => p.1.key = k) with
  | none => simp
  | some p =>
      have hk : p.1.key = k := by simpa using List.find?_some hf
      subst hk
      cases hs : source.get? p.1.key with
      | none => exact targetSteps_of_new hs
      | some before => exact targetSteps_of_both hs

theorem filter_sourceSteps (source target : Model) (k : ObjectKey) :
    ((source.objects.zipIdx.flatMap (fun p => sourceSteps target p.1 p.2)).filter
      (fun s => s.operation.key = k)).map (·.operation) =
        match source.get? k, target.get? k with
        | some _, none => [⟨.drop, k.kind, k.name, []⟩]
        | _, _ => [] := by
  rw [Lists.filter_flatMap_key source.nodup_zipIdx_keys _ _
    (fun p _ s hs => key_of_mem_sourceSteps hs), ← Model.map_fst_find?_zipIdx source k]
  cases hf : source.objects.zipIdx.find? (fun p => p.1.key = k) with
  | none => simp
  | some p =>
      have hk : p.1.key = k := by simpa using List.find?_some hf
      subst hk
      have h := sourceSteps_of target p.1 p.2
      rw [Model.contains_eq_isSome] at h
      cases ht : target.get? p.1.key with
      | none => simpa [ht] using h
      | some after => simpa [ht] using h

theorem filter_steps (detectRenames : Bool) (source target : Model) (k : ObjectKey) :
    ((steps detectRenames source target).filter (fun s => s.operation.key = k)).map
      (·.operation) = operationsOn detectRenames source target k := by
  rw [steps, List.filter_append, List.map_append, filter_targetSteps, filter_sourceSteps,
    operationsOn]
  cases source.get? k <;> cases target.get? k <;> simp

/-- Nothing is to be done under a key just where neither side has an object there, or both have
one and there is nothing to say about the two. -/
theorem operationsOn_eq_nil_iff {k : ObjectKey} : operationsOn detectRenames source target k = [] ↔
    (k ∈ source.keys ↔ k ∈ target.keys) ∧
    ∀ a b, source.get? k = some a → target.get? k = some b →
      Details.object detectRenames a b = [] := by
  rw [operationsOn, Model.mem_keys_iff, Model.mem_keys_iff]
  cases source.get? k <;> cases target.get? k <;> simp [changeUnder_eq_nil_iff]

/-- There is at most one operation under a key, or a drop and then a creation. -/
theorem operationsOn_cases (detectRenames : Bool) (source target : Model) (k : ObjectKey) :
    operationsOn detectRenames source target k = [] ∨
    (∃ o, operationsOn detectRenames source target k = [o]) ∨
    ∃ a b, operationsOn detectRenames source target k = [a, b] ∧
      a.action = .drop ∧ b.action = .create ∧ a.key = b.key := by
  rw [operationsOn]
  split
  · exact .inl rfl
  · exact .inr (.inl ⟨_, rfl⟩)
  · exact .inr (.inl ⟨_, rfl⟩)
  · next before after _ _ =>
      cases Details.object detectRenames before after with
      | nil => exact .inl rfl
      | cons d ds =>
          rw [changeUnder]
          split
          · exact .inr (.inl ⟨_, rfl⟩)
          · exact .inr (.inr ⟨_, _, rfl, rfl, rfl, rfl⟩)

theorem nodup_operationsOn (detectRenames : Bool) (source target : Model) (k : ObjectKey) :
    (operationsOn detectRenames source target k).Nodup := by
  rcases operationsOn_cases detectRenames source target k with
    h | ⟨o, h⟩ | ⟨a, b, h, ha, hb, -⟩
  · rw [h]
    exact .nil
  · rw [h]
    exact List.nodup_singleton o
  · have hne : a ≠ b := by
      rintro rfl
      rw [ha] at hb
      cases hb
    simp [h, hne]

theorem nodup_steps (detectRenames : Bool) (source target : Model) :
    (steps detectRenames source target).Nodup := by
  apply Lists.nodup_of_nodup_filter_key (fun s : Step => s.operation.key)
  intro k
  have h := nodup_operationsOn detectRenames source target k
  rw [← filter_steps] at h
  exact h.of_map

end SchemaDrift.Plan
