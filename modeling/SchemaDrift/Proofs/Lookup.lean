import SchemaDrift.Plan.Diff
import SchemaDrift.Proofs.Lists

namespace SchemaDrift.Model

variable {m : Model} {k : ObjectKey} {o : Object}

theorem get?_eq_some_iff : m.get? k = some o ↔ o ∈ m.objects ∧ o.key = k :=
  m.indexed.get?_eq_some_iff

theorem get?_eq_find? (m : Model) (k : ObjectKey) :
    m.get? k = m.objects.find? (fun o => o.key = k) := by
  ext o
  rw [get?_eq_some_iff, Lists.find?_key_eq_some_iff m.keys_nodup]

/-- Objects that look alike in a way that keeps their keys are found alike. -/
theorem map_get?_congr {f : Object → Object} (hf : ∀ o, (f o).key = o.key) {m n : Model}
    (h : m.objects.map f = n.objects.map f) (k : ObjectKey) :
    (m.get? k).map f = (n.get? k).map f := by
  have hkey : (fun o : Object => decide (o.key = k)) ∘ f = fun o => decide (o.key = k) := by
    funext o
    rw [Function.comp_apply, hf]
  have hfind (m : Model) : (m.get? k).map f =
      (m.objects.map f).find? (fun o => o.key = k) := by
    rw [get?_eq_find?, List.find?_map, hkey]
  rw [hfind, h, hfind]

theorem get?_eq_none_iff : m.get? k = none ↔ k ∉ m.keys := by
  rw [get?_eq_find?]
  exact Lists.find?_key_eq_none_iff

theorem get?_key (h : o ∈ m.objects) : m.get? o.key = some o := get?_eq_some_iff.2 ⟨h, rfl⟩

theorem eq_of_get? (h : m.get? k = some o) {p : Object} (hp : p ∈ m.objects) (hk : p.key = k) :
    p = o := by
  have hfound := get?_key hp
  rw [hk, h] at hfound
  exact (Option.some.inj hfound).symm

theorem mem_keys_iff : k ∈ m.keys ↔ (m.get? k).isSome := by
  rw [Option.isSome_iff_ne_none, ne_eq, get?_eq_none_iff, not_not]

theorem contains_eq_isSome : m.contains k = (m.get? k).isSome := by
  rw [contains, position?, get?, Store.get?]
  cases h : m.toStore.position? k with
  | none => rfl
  | some i =>
      obtain ⟨o, ho, -⟩ := m.indexed.exists_of_position? h
      rw [Option.bind_some, show m.toStore.objects[i]? = some o from ho]
      rfl

theorem nodup_zipIdx_keys (m : Model) : (m.objects.zipIdx.map (fun p => p.1.key)).Nodup := by
  have h : m.objects.zipIdx.map (fun p => p.1.key) =
      (m.objects.zipIdx.map Prod.fst).map Object.key := by
    rw [List.map_map]
    rfl
  rw [h, List.zipIdx_map_fst]
  exact m.keys_nodup

theorem map_fst_find?_zipIdx (m : Model) (k : ObjectKey) :
    (m.objects.zipIdx.find? (fun p => p.1.key = k)).map Prod.fst = m.get? k := by
  have h : m.get? k = (m.objects.zipIdx.map Prod.fst).find? (fun o => o.key = k) := by
    rw [List.zipIdx_map_fst, get?_eq_find?]
  rw [h, List.find?_map]
  rfl

end SchemaDrift.Model
