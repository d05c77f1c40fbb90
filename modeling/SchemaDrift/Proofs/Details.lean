import SchemaDrift.Plan.Details
import SchemaDrift.Proofs.Lists

namespace SchemaDrift

namespace Options

theorem get?_eq_some_iff {o : Options} {k v : String} : o.get? k = some v ↔ (k, v) ∈ o.entries := by
  obtain ⟨es, hs⟩ := o
  change es.lookup k = some v ↔ (k, v) ∈ es
  induction es with
  | nil => simp
  | cons e es ih =>
      obtain ⟨he, hes⟩ := List.pairwise_cons.1 hs
      rw [List.lookup_cons, List.mem_cons]
      by_cases hk : k = e.1
      · have hnot : (k, v) ∉ es := by
          intro hm
          exact String.lt_irrefl k (by simpa [← hk] using he _ hm)
        simp [hk ▸ hnot, hk, Prod.ext_iff, eq_comm]
      · rw [beq_eq_false_iff_ne.2 hk, ih hes, Prod.ext_iff]
        simp [hk]

theorem ext_get? {a b : Options} (h : ∀ k, a.get? k = b.get? k) : a = b := by
  have hmem : ∀ e, e ∈ a.entries ↔ e ∈ b.entries := by
    rintro ⟨k, v⟩
    rw [← get?_eq_some_iff, ← get?_eq_some_iff, h k]
  have hnodup (o : Options) : o.entries.Nodup := by
    refine o.sorted.imp (fun {x y} hlt => ?_)
    rintro rfl
    exact String.lt_irrefl _ hlt
  have hperm : a.entries.Perm b.entries :=
    (List.perm_ext_iff_of_nodup (hnodup a) (hnodup b)).2 hmem
  have he : a.entries = b.entries := by
    refine hperm.eq_of_pairwise (fun x y _ _ hxy hyx => ?_) a.sorted b.sorted
    exact absurd (String.lt_trans hxy hyx) (String.lt_irrefl _)
  cases a
  cases b
  cases he
  rfl

end Options

namespace Storage

@[simp]
theorem change_eq_nil_iff {label : String} {before after : Option String} :
    change label before after = [] ↔ before = after := by
  simp [change]

@[simp]
theorem changes_eq_nil_iff {a b : Storage} : a.changes b = [] ↔ a = b := by
  cases a
  cases b
  simp [changes]

end Storage

namespace Column

variable {a b c : Column}

theorem sameDefinition_iff : a.sameDefinition b = true ↔
    a.dataType.unspelled = b.dataType.unspelled ∧ a.nullable = b.nullable ∧
      a.default = b.default ∧ a.generation = b.generation ∧ a.attributes = b.attributes := by
  simp [sameDefinition, DataType.sameAs, and_assoc]

theorem sameDefinition_symm (h : a.sameDefinition b = true) : b.sameDefinition a = true := by
  rw [sameDefinition_iff] at h ⊢
  obtain ⟨ht, hn, hd, hg, ha⟩ := h
  exact ⟨ht.symm, hn.symm, hd.symm, hg.symm, ha.symm⟩

theorem sameDefinition_trans (hab : a.sameDefinition b = true) (hbc : b.sameDefinition c = true) :
    a.sameDefinition c = true := by
  rw [sameDefinition_iff] at hab hbc ⊢
  obtain ⟨ht, hn, hd, hg, ha⟩ := hab
  obtain ⟨ht', hn', hd', hg', ha'⟩ := hbc
  exact ⟨ht.trans ht', hn.trans hn', hd.trans hd', hg.trans hg', ha.trans ha'⟩

end Column

theorem Constraint.equivalent_refl (c : Constraint) : c.equivalent c = true := by
  cases hn : c.name <;> simp [equivalent, namesAgree, hn]

namespace Details

@[simp]
theorem changed_eq_nil_iff {α : Type} [DecidableEq α] {a b : α} {detail : α → α → String} :
    changed a b detail = [] ↔ a = b := by
  simp [changed]

@[simp]
theorem options_eq_nil_iff {a b : Options} : options a b = [] ↔ a = b := by
  constructor
  · intro h
    obtain ⟨hkept, hadded⟩ := List.append_eq_nil_iff.1 h
    rw [List.flatMap_eq_nil_iff] at hkept hadded
    refine Options.ext_get? (fun k => ?_)
    cases ha : a.get? k with
    | some v =>
        have hv := hkept _ (Options.get?_eq_some_iff.1 ha)
        cases hb : b.get? k with
        | none => simp [hb] at hv
        | some w => simpa [hb] using hv
    | none =>
        cases hb : b.get? k with
        | none => rfl
        | some w => simpa [ha] using hadded _ (Options.get?_eq_some_iff.1 hb)
  · rintro rfl
    refine List.append_eq_nil_iff.2 ⟨?_, ?_⟩ <;> rw [List.flatMap_eq_nil_iff]
    · intro e he
      simp [Options.get?_eq_some_iff.2 he]
    · intro e he
      simp [Options.get?_eq_some_iff.2 he]

/-- The name of an index is not among its details. -/
theorem index_eq_nil_iff {a b : Index} : index a b = [] ↔ { a with name := b.name } = b := by
  cases a
  cases b
  simp [index]

theorem column_eq_nil_iff {a b : Column} : column a b = [] ↔ a.sameDefinition b = true := by
  simp [column, Column.sameDefinition, and_assoc]

theorem onlyIn_self (cs : List Column) : onlyIn cs cs = [] := by
  rw [onlyIn, List.filter_eq_nil_iff]
  intro c hc
  simpa [hasColumn] using ⟨c, hc, rfl⟩

theorem columns_self_eq_nil_iff (detectRenames : Bool) (cs : List Column) :
    columns detectRenames cs cs = [] ↔
      ∀ c ∈ cs, ∀ d ∈ cs, c.name = d.name → c.sameDefinition d = true := by
  have hrenames : (if detectRenames then renames [] [] else []) = [] := by
    cases detectRenames <;> rfl
  have hfound : (∀ c ∈ cs, ∀ d, cs.find? (fun e => e.name = c.name) = some d →
      c.sameDefinition d = true) ↔
      ∀ c ∈ cs, ∀ d ∈ cs, c.name = d.name → c.sameDefinition d = true :=
    Lists.forall_find?_key_iff Column.sameDefinition_symm Column.sameDefinition_trans
  simp only [columns, onlyIn_self, hrenames, List.map_nil, List.filter_nil, List.nil_append,
    List.append_eq_nil_iff, List.flatMap_eq_nil_iff, changed_eq_nil_iff, and_true, beq_eq_decide]
  rw [← hfound]
  refine forall₂_congr (fun c _ => ?_)
  cases cs.find? (fun d => d.name = c.name) with
  | none => simp
  | some d => simp [column_eq_nil_iff]

theorem unpaired_self (cs : List Constraint) : unpaired cs cs = ([], []) := by
  induction cs with
  | nil => rfl
  | cons c cs ih =>
      simpa [unpaired, c.equivalent_refl] using ih

theorem indexes_self_eq_nil_iff (is : List Index) :
    indexes is is = [] ↔ ∀ i ∈ is, ∀ j ∈ is, i.name = j.name → i = j := by
  have hadded : is.filter (fun j => !is.any (fun i => i.name = j.name)) = [] := by
    rw [List.filter_eq_nil_iff]
    intro i hi
    simpa using ⟨i, hi, rfl⟩
  have hfound : (∀ i ∈ is, ∀ j, is.find? (fun e => e.name = i.name) = some j → i = j) ↔
      ∀ i ∈ is, ∀ j ∈ is, i.name = j.name → i = j :=
    Lists.forall_find?_key_iff Eq.symm Eq.trans
  rw [indexes, hadded, List.map_nil, List.append_nil, List.flatMap_eq_nil_iff, ← hfound]
  refine forall₂_congr (fun i hi => ?_)
  cases hf : is.find? (fun j => j.name = i.name) with
  | none => simpa using List.find?_eq_none.1 hf i hi
  | some j =>
      have hname : j.name = i.name := by simpa using List.find?_some hf
      simp [index_eq_nil_iff, hname]

end Details

end SchemaDrift
