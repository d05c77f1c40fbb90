import SchemaDrift.Proofs.Replay

namespace SchemaDrift

def Kind.isCompared (kinds : List Kind) (k : Kind) : Bool := kinds.isEmpty || kinds.contains k

namespace Model

variable {m : Model} {kinds : List Kind}

theorem objects_filter (m : Model) (kinds : List Kind) :
    (m.filter kinds).objects = m.objects.filter (fun o => o.kind.isCompared kinds) := by
  cases kinds with
  | nil => exact (List.filter_eq_self.2 (fun _ _ => rfl)).symm
  | cons k ks => exact Store.objects_filter_cons m.indexed k ks

theorem warnings_filter (m : Model) (kinds : List Kind) :
    (m.filter kinds).warnings = m.warnings :=
  m.toStore.warnings_filter kinds

theorem get?_filter (m : Model) (kinds : List Kind) (k : ObjectKey) :
    (m.filter kinds).get? k = if k.kind.isCompared kinds then m.get? k else none := by
  rw [get?_eq_find?, objects_filter, List.find?_filter, get?_eq_find?]
  split
  · next hk =>
      congr 1
      funext o
      by_cases ho : o.key = k
      · subst ho
        have hkind : o.kind.isCompared kinds = true := hk
        simp [hkind]
      · simp [ho]
  · next hk =>
      refine List.find?_eq_none.2 (fun o _ ho => hk ?_)
      obtain ⟨ho, hkey⟩ := by simpa using ho
      exact hkey ▸ ho

end Model

namespace Plan

theorem operationsOn_filter (detectRenames : Bool) (kinds : List Kind) (source target : Model)
    (k : ObjectKey) :
    operationsOn detectRenames (source.filter kinds) (target.filter kinds) k =
      if k.kind.isCompared kinds then operationsOn detectRenames source target k else [] := by
  rw [operationsOn, Model.get?_filter, Model.get?_filter, operationsOn]
  by_cases h : k.kind.isCompared kinds = true
  · rw [if_pos h, if_pos h, if_pos h]
  · rw [if_neg h, if_neg h, if_neg h]

theorem mem_operations_iff {detectRenames : Bool} {source target : Model} {o : Operation} :
    o ∈ (between detectRenames source target).operations ↔
      o ∈ operationsOn detectRenames source target o.key := by
  rw [← filter_operations, List.mem_filter, and_iff_left (decide_eq_true rfl)]

/-- The plan between two models without some kinds is the plan between the whole models without
the operations on these kinds, as far as the order is left aside. -/
theorem perm_operations_filter (detectRenames : Bool) (kinds : List Kind)
    (source target : Model) :
    (between detectRenames (source.filter kinds) (target.filter kinds)).operations.Perm
      ((between detectRenames source target).operations.filter
        (fun o => o.kind.isCompared kinds)) := by
  refine (List.perm_ext_iff_of_nodup (nodup_operations ..)
    ((nodup_operations ..).filter _)).2 (fun o => ?_)
  rw [mem_operations_iff, operationsOn_filter, List.mem_filter, mem_operations_iff]
  by_cases h : o.key.kind.isCompared kinds = true
  · rw [if_pos h, and_iff_left (show o.kind.isCompared kinds = true from h)]
  · rw [if_neg h]
    exact ⟨fun ho => absurd ho List.not_mem_nil, fun ho => absurd ho.2 h⟩

/-- Leaving out kinds and comparing may change places, but for the order of the plan. Left out
twice, the objects of the kinds in both lists remain, in their order and with all warnings. -/
theorem filter_commutes (detectRenames : Bool) (source target m : Model) (k l : Kind)
    (ks ls : List Kind) :
    (between detectRenames (source.filter (k :: ks)) (target.filter (k :: ks))).operations.Perm
      ((between detectRenames source target).operations.filter
        (fun o => (k :: ks).contains o.kind)) ∧
    ((m.filter (k :: ks)).filter (l :: ls)).objects =
      m.objects.filter (fun o => (k :: ks).contains o.kind && (l :: ls).contains o.kind) ∧
    ((m.filter (k :: ks)).filter (l :: ls)).warnings = m.warnings := by
  refine ⟨perm_operations_filter detectRenames (k :: ks) source target, ?_, ?_⟩
  · rw [Model.objects_filter, Model.objects_filter, List.filter_filter]
    refine List.filter_congr (fun o _ => ?_)
    exact Bool.and_comm _ _
  · rw [Model.warnings_filter, Model.warnings_filter]

end Plan

end SchemaDrift
