import SchemaDrift.Proofs.Details
import SchemaDrift.Proofs.Replay
import SchemaDrift.Script

namespace SchemaDrift

/-- Names tell apart what a table holds: columns of one name have one definition, and keys of one
name are the same. -/
def Table.Unambiguous (t : Table) : Prop :=
  (∀ c ∈ t.columns, ∀ d ∈ t.columns, c.name = d.name → c.sameDefinition d = true) ∧
  ∀ i ∈ t.indexes, ∀ j ∈ t.indexes, i.name = j.name → i = j

instance (t : Table) : Decidable t.Unambiguous := inferInstanceAs (Decidable (_ ∧ _))

namespace Details

theorem table_self_eq_nil_iff (detectRenames : Bool) (t : Table) :
    table detectRenames t t = [] ↔ t.Unambiguous := by
  simp [table, columns_self_eq_nil_iff, indexes_self_eq_nil_iff, constraints, unpaired_self,
    versioning, Table.Unambiguous]

/-- Columns and keys of a table are looked up by name. All else is compared with itself. -/
theorem object_self_eq_nil_iff (detectRenames : Bool) (o : Object) :
    object detectRenames o o = [] ↔ ∀ t, o = .table t → t.Unambiguous := by
  cases o with
  | table t => simp [object, table_self_eq_nil_iff]
  | index i => simp [object, index_eq_nil_iff]
  | _ => simp [object, view, trigger, routine, synonym, virtualTable, auxiliaryTable, raw]

end Details

namespace Plan

theorem operationsOn_self_eq_nil_iff {detectRenames : Bool} {m : Model} {k : ObjectKey} :
    operationsOn detectRenames m m k = [] ↔
      ∀ o, m.get? k = some o → Details.object detectRenames o o = [] := by
  rw [operationsOn]
  cases m.get? k with
  | none => simp
  | some o => simp [changeUnder_eq_nil_iff]

/-- A schema drifts from itself exactly where a name in one of its tables is ambiguous. -/
theorem operations_self_eq_nil_iff (detectRenames : Bool) (m : Model) :
    (between detectRenames m m).operations = [] ↔
      ∀ t, Object.table t ∈ m.objects → t.Unambiguous := by
  simp only [operations_eq_nil_iff, operationsOn_self_eq_nil_iff, Details.object_self_eq_nil_iff,
    Model.get?_eq_some_iff]
  constructor
  · intro h t ht
    exact h (Object.table t).key (.table t) ⟨ht, rfl⟩ t rfl
  · rintro h k o ⟨ho, -⟩ t rfl
    exact h t ho

def keysOfOneColumn : Script := ⟨"t.sql", "CREATE TABLE t (a int, b int, KEY (a), KEY (a, b));"⟩

def isAmbiguous : Object → Bool
  | .table t => t.indexes.any (fun i => t.indexes.any (fun j => i.name = j.name && i ≠ j))
  | _ => false

theorem not_unambiguous {o : Object} (h : isAmbiguous o = true) :
    ∃ t, o = .table t ∧ ¬ t.Unambiguous := by
  cases o with
  | table t =>
      simp only [isAmbiguous, List.any_eq_true, Bool.and_eq_true, decide_eq_true_eq] at h
      obtain ⟨i, hi, j, hj, hname, hne⟩ := h
      exact ⟨t, rfl, fun hu => hne (hu.2 i hi j hj hname)⟩
  | _ => cases h

theorem drifts_from_itself : ¬ ∀ (d : Dialect) (scripts : List Script) (m : Model),
    Model.ofScripts d scripts = .ok m →
    ∀ detectRenames, (between detectRenames m m).operations = [] := by
  intro h
  have hread : (Model.ofScripts .mySql [keysOfOneColumn]).toOption.any
      (fun m => m.objects.any isAmbiguous) = true := by decide +kernel
  cases hm : Model.ofScripts .mySql [keysOfOneColumn] with
  | error e =>
      rw [hm] at hread
      cases hread
  | ok m =>
      rw [hm] at hread
      obtain ⟨o, ho, hambiguous⟩ := List.any_eq_true.1 hread
      obtain ⟨t, rfl, ht⟩ := not_unambiguous hambiguous
      have hnone := operations_eq_nil_iff.1 (h .mySql [keysOfOneColumn] m hm true)
      have hself := operationsOn_self_eq_nil_iff.1 (hnone _) _ (Model.get?_key ho)
      exact ht ((Details.object_self_eq_nil_iff true _).1 hself t rfl)

end Plan

end SchemaDrift
