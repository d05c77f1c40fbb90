import SchemaDrift.Proofs.Agreement
import SchemaDrift.Proofs.SelfCompare

namespace SchemaDrift

def Object.substance : Object → Object
  | .view v => .view { v with references := [] }
  | o => o.unspelled

@[simp]
theorem Object.key_substance (o : Object) : o.substance.key = o.key := by
  cases o <;> rfl

namespace Column

@[simp]
theorem sameDefinition_unspelled (a b : Column) :
    a.sameDefinition b.unspelled = a.sameDefinition b := rfl

theorem map_find?_unspelled (cs : List Column) (name : String) :
    (cs.find? (·.name == name)).map unspelled =
      (cs.map unspelled).find? (·.name == name) := by
  rw [List.find?_map]
  rfl

end Column

namespace Details

variable {detectRenames : Bool}

section

variable {a b : List Column}

theorem hasColumn_map_unspelled (cs : List Column) (name : String) :
    hasColumn (cs.map Column.unspelled) name = hasColumn cs name :=
  List.any_map

theorem onlyIn_eq_nil_of_unspelled (h : a.map Column.unspelled = b.map Column.unspelled) :
    onlyIn a b = [] := by
  refine onlyIn_eq_nil_iff.2 fun c hc => ?_
  rw [← hasColumn_map_unspelled, ← h, hasColumn_map_unspelled]
  exact List.any_eq_true.2 ⟨c, hc, beq_self_eq_true c.name⟩

theorem columns_eq_nil_congr (h : a.map Column.unspelled = b.map Column.unspelled) :
    columns detectRenames a b = [] ↔ columns detectRenames a a = [] := by
  have hkept : kept a b = kept b a := by
    have hnames : a.map Column.name = b.map Column.name := by
      simpa [Function.comp_def, Column.unspelled] using congrArg (List.map Column.name) h
    rw [kept_of_onlyIn_eq_nil (onlyIn_eq_nil_of_unspelled h),
      kept_of_onlyIn_eq_nil (onlyIn_eq_nil_of_unspelled h.symm), hnames]
  have hrenames : (if detectRenames then renames [] [] else []) = [] := by
    cases detectRenames <;> rfl
  simp only [columns, onlyIn_eq_nil_of_unspelled h, onlyIn_eq_nil_of_unspelled h.symm, onlyIn_self,
    hrenames, List.map_nil, List.filter_nil, List.nil_append, List.append_eq_nil_iff,
    List.flatMap_eq_nil_iff, changed_eq_nil_iff, hkept, and_true]
  refine forall₂_congr fun c _ => ?_
  have hfound : (b.find? (·.name == c.name)).map Column.unspelled =
      (a.find? (·.name == c.name)).map Column.unspelled := by
    rw [Column.map_find?_unspelled, ← h, Column.map_find?_unspelled]
  cases hb : b.find? (·.name == c.name) with
  | none =>
      rw [hb, Option.map_none, eq_comm, Option.map_eq_none_iff] at hfound
      rw [hfound]
  | some d =>
      rw [hb, Option.map_some, eq_comm, Option.map_eq_some_iff] at hfound
      obtain ⟨e, ha, hed⟩ := hfound
      rw [ha, column_eq_nil_iff, column_eq_nil_iff, ← c.sameDefinition_unspelled d, ← hed,
        c.sameDefinition_unspelled]

end

theorem table_eq_nil_congr {s t : Table} (h : s.unspelled = t.unspelled) :
    table detectRenames s t = [] ↔ table detectRenames s s = [] := by
  obtain ⟨_, _, _, _, _, _, _⟩ := s
  obtain ⟨_, _, _, _, _, _, _⟩ := t
  simp only [Table.unspelled, Table.mk.injEq] at h
  obtain ⟨rfl, hcolumns, rfl, rfl, rfl, rfl, rfl⟩ := h
  simp only [table, List.append_eq_nil_iff, columns_eq_nil_congr hcolumns]

theorem object_eq_nil_congr {a b : Object} (h : a.substance = b.substance) :
    object detectRenames a b = [] ↔ object detectRenames a a = [] := by
  cases a with
  | table s =>
      cases b with
      | table t => exact table_eq_nil_congr (Object.table.inj h)
      | _ => cases h
  | view v =>
      cases b with
      | view w =>
          have hview := Object.view.inj h
          have hfields : v.query = w.query ∧ v.materialized = w.materialized ∧
              v.columns = w.columns := by
            simpa [and_assoc] using (View.mk.inj hview).2
          simp [object, view, hfields]
      | _ => cases h
  | _ =>
      cases b <;> cases h
      rfl

end Details

namespace Plan

open Details

variable {detectRenames : Bool}

/-- Between two schemas of one substance there is drift only where a name in one of the tables is
ambiguous. -/
theorem operations_eq_nil_iff_of_substance {source target : Model}
    (h : source.objects.map Object.substance = target.objects.map Object.substance) :
    (between detectRenames source target).operations = [] ↔
      ∀ t, Object.table t ∈ source.objects → t.Unambiguous := by
  have hget (k : ObjectKey) :
      (source.get? k).map Object.substance = (target.get? k).map Object.substance :=
    Model.map_get?_congr Object.key_substance h k
  have hkeys (k : ObjectKey) : k ∈ source.keys ↔ k ∈ target.keys := by
    rw [Model.mem_keys_iff, Model.mem_keys_iff, ← Option.isSome_map (f := Object.substance), hget,
      Option.isSome_map]
  simp only [operations_eq_nil_iff, operationsOn_eq_nil_iff, hkeys, true_and]
  constructor
  · intro hnone t ht
    have ha := Model.get?_key ht
    have hb := hget (Object.table t).key
    rw [ha, Option.map_some, eq_comm, Option.map_eq_some_iff] at hb
    obtain ⟨b, hb, hsub⟩ := hb
    exact (object_self_eq_nil_iff detectRenames _).1
      ((object_eq_nil_congr hsub.symm).1 (hnone _ _ _ ha hb)) t rfl
  · intro hall k a b ha hb
    have hsub := hget k
    rw [ha, hb, Option.map_some, Option.map_some] at hsub
    refine (object_eq_nil_congr (Option.some.inj hsub)).2 ((object_self_eq_nil_iff _ _).2 ?_)
    rintro t rfl
    exact hall t (Model.get?_eq_some_iff.1 ha).1

end Plan

end SchemaDrift
