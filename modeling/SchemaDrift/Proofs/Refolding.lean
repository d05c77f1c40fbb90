import Mathlib.Data.List.Induction
import SchemaDrift.Proofs.Details
import SchemaDrift.Proofs.PrimaryKeys

namespace SchemaDrift

namespace Table

def replace (c : Column) : List Column → List Column
  | [] => []
  | b :: bs => if b.name = c.name then { c with ordinal := b.ordinal } :: bs else b :: replace c bs

def put (cs : List Column) (c : Column) : List Column :=
  if c.name ∈ cs.map Column.name then replace c cs
  else cs ++ [{ c with ordinal := cs.length + 1 }]

variable {b c : Column} {bs cs : List Column}

theorem replaceFirst_eq_replace {old : Column} (h : cs.find? (·.name == c.name) = some old) :
    addColumn.replaceFirst { c with ordinal := old.ordinal } cs = replace c cs := by
  induction cs with
  | nil => cases h
  | cons b cs ih =>
      rw [List.find?_cons] at h
      rw [addColumn.replaceFirst, replace]
      by_cases hb : b.name = c.name
      · rw [beq_iff_eq.2 hb] at h
        rw [if_pos hb, if_pos (beq_iff_eq.2 hb), Option.some.inj h]
      · rw [beq_eq_false_iff_ne.2 hb] at h
        rw [if_neg hb, if_neg (by simpa using hb), ih h]

theorem addColumn_eq (t : Table) (c : Column) :
    t.addColumn c = { t with columns := put t.columns c } := by
  unfold addColumn
  split
  · next old hold =>
      have hmem : c.name ∈ t.columns.map Column.name := by
        have hname := List.find?_some hold
        exact beq_iff_eq.1 hname ▸ List.mem_map_of_mem (List.mem_of_find?_eq_some hold)
      rw [put, if_pos hmem, replaceFirst_eq_replace hold]
  · next hnone =>
      have hmem : c.name ∉ t.columns.map Column.name := by
        intro hmem
        obtain ⟨b, hb, hname⟩ := List.mem_map.1 hmem
        exact List.find?_eq_none.1 hnone b hb (beq_iff_eq.2 hname)
      rw [put, if_neg hmem]

theorem map_name_replace (c : Column) (cs : List Column) :
    (replace c cs).map Column.name = cs.map Column.name := by
  induction cs with
  | nil => rfl
  | cons b cs ih =>
      rw [replace]
      split
      · next h => exact congrArg (· :: _) h.symm
      · exact congrArg (b.name :: ·) ih

theorem replace_replace (h : b.name = c.name) (cs : List Column) :
    replace c (replace b cs) = replace c cs := by
  induction cs with
  | nil => rfl
  | cons a cs ih =>
      by_cases ha : a.name = b.name
      · rw [replace, if_pos ha, replace, if_pos h, replace, if_pos (ha.trans h)]
      · have hc : a.name ≠ c.name := fun hc => ha (hc.trans h.symm)
        rw [replace, if_neg ha, replace, if_neg hc, replace, if_neg hc, ih]

theorem replace_comm (h : b.name ≠ c.name) (cs : List Column) :
    replace c (replace b cs) = replace b (replace c cs) := by
  induction cs with
  | nil => rfl
  | cons a cs ih =>
      by_cases hb : a.name = b.name
      · have hc : a.name ≠ c.name := fun hc => h (hb.symm.trans hc)
        rw [replace, if_pos hb, replace, if_neg h, replace, if_neg hc, replace, if_pos hb]
      · by_cases hc : a.name = c.name
        · rw [replace, if_neg hb, replace, if_pos hc, replace, if_pos hc, replace,
            if_neg (Ne.symm h)]
        · rw [replace, if_neg hb, replace, if_neg hc, replace, if_neg hc, replace, if_neg hb, ih]

theorem replace_append (h : c.name ∈ cs.map Column.name) (ds : List Column) :
    replace c (cs ++ ds) = replace c cs ++ ds := by
  induction cs with
  | nil => cases h
  | cons a cs ih =>
      rw [List.cons_append, replace, replace]
      split
      · rfl
      · next hne =>
          rw [ih ((List.mem_cons.1 h).resolve_left (Ne.symm hne))]
          rfl

theorem replace_append_of_not_mem (h : c.name ∉ cs.map Column.name) (ds : List Column) :
    replace c (cs ++ ds) = cs ++ replace c ds := by
  induction cs with
  | nil => rfl
  | cons a cs ih =>
      rw [List.map_cons, List.mem_cons, not_or] at h
      rw [List.cons_append, replace, if_neg (Ne.symm h.1), ih h.2]
      rfl

/-- What was put in place of a column makes no difference once the column is replaced again. -/
theorem replace_foldl_replace (c : Column) (cs bs : List Column) :
    replace c (bs.foldl (fun cs b => replace b cs) (replace c cs)) =
      replace c (bs.foldl (fun cs b => replace b cs) cs) := by
  induction bs generalizing cs with
  | nil => exact replace_replace rfl cs
  | cons b bs ih =>
      rw [List.foldl_cons, List.foldl_cons]
      by_cases h : c.name = b.name
      · rw [replace_replace h]
      · rw [replace_comm h, ih]

theorem map_name_foldl_replace (cs bs : List Column) :
    (bs.foldl (fun cs b => replace b cs) cs).map Column.name = cs.map Column.name := by
  induction bs generalizing cs with
  | nil => rfl
  | cons b bs ih => rw [List.foldl_cons, ih, map_name_replace]

theorem names_put (cs : List Column) (c : Column) :
    cs.map Column.name ⊆ (put cs c).map Column.name ∧ c.name ∈ (put cs c).map Column.name := by
  unfold put
  split
  · next h =>
      rw [map_name_replace]
      exact ⟨List.Subset.refl _, h⟩
  · rw [List.map_append]
    exact ⟨List.subset_append_left _ _, List.mem_append_right _ (List.mem_singleton_self _)⟩

theorem names_foldl_put (cs bs : List Column) :
    cs.map Column.name ⊆ (bs.foldl put cs).map Column.name ∧
      ∀ b ∈ bs, b.name ∈ (bs.foldl put cs).map Column.name := by
  induction bs generalizing cs with
  | nil => exact ⟨List.Subset.refl _, fun b hb => nomatch hb⟩
  | cons a bs ih =>
      obtain ⟨hsub, hmem⟩ := ih (put cs a)
      refine ⟨List.Subset.trans (names_put cs a).1 hsub, fun b hb => ?_⟩
      rcases List.mem_cons.1 hb with rfl | hb
      · exact hsub (names_put cs b).2
      · exact hmem b hb

theorem foldl_put_eq (h : ∀ b ∈ bs, b.name ∈ cs.map Column.name) :
    bs.foldl put cs = bs.foldl (fun cs b => replace b cs) cs := by
  induction bs generalizing cs with
  | nil => rfl
  | cons a bs ih =>
      rw [List.foldl_cons, List.foldl_cons, put, if_pos (h a List.mem_cons_self)]
      refine ih fun b hb => ?_
      rw [map_name_replace]
      exact h b (List.mem_cons_of_mem a hb)

theorem foldl_replace_append (h : ∀ b ∈ bs, b.name ∈ cs.map Column.name) (ds : List Column) :
    bs.foldl (fun cs b => replace b cs) (cs ++ ds) =
      bs.foldl (fun cs b => replace b cs) cs ++ ds := by
  induction bs generalizing cs with
  | nil => rfl
  | cons a bs ih =>
      rw [List.foldl_cons, List.foldl_cons, replace_append (h a List.mem_cons_self)]
      refine ih fun b hb => ?_
      rw [map_name_replace]
      exact h b (List.mem_cons_of_mem a hb)

/-- Columns added twice, in one order, are as they were after the first time. -/
theorem foldl_put_foldl_put (cs bs : List Column) :
    bs.foldl put (bs.foldl put cs) = bs.foldl put cs := by
  induction bs using List.reverseRecOn with
  | nil => rfl
  | append_singleton bs c ih =>
      rw [List.foldl_concat, List.foldl_concat]
      have hnames := (names_foldl_put cs bs).2
      generalize bs.foldl put cs = settled at ih hnames ⊢
      rw [foldl_put_eq hnames] at ih
      by_cases hc : c.name ∈ settled.map Column.name
      · have hput : put settled c = replace c settled := if_pos hc
        have hnames' : ∀ b ∈ bs, b.name ∈ (replace c settled).map Column.name := by
          rw [map_name_replace]
          exact hnames
        rw [hput, foldl_put_eq hnames', put, map_name_foldl_replace, map_name_replace, if_pos hc,
          replace_foldl_replace, ih]
      · have hput : put settled c = settled ++ [{ c with ordinal := settled.length + 1 }] :=
          if_neg hc
        have hlast : c.name ∈
            (settled ++ [{ c with ordinal := settled.length + 1 }]).map Column.name := by
          rw [List.map_append]
          exact List.mem_append_right _ (List.mem_singleton_self _)
        have hnames' : ∀ b ∈ bs, b.name ∈
            (settled ++ [{ c with ordinal := settled.length + 1 }]).map Column.name := by
          intro b hb
          rw [List.map_append]
          exact List.mem_append_left _ (hnames b hb)
        rw [hput, foldl_put_eq hnames', foldl_replace_append hnames, ih, put, if_pos hlast,
          replace_append_of_not_mem hc, replace, if_pos rfl]

def join (ks : List Constraint) (k : Constraint) : List Constraint :=
  if ks.any (·.equivalent k) then ks else ks ++ [k]

theorem addConstraint_eq (t : Table) (k : Constraint) :
    t.addConstraint k = { t with constraints := join t.constraints k } := by
  unfold addConstraint join
  split <;> rfl

theorem join_subset (ks : List Constraint) (k : Constraint) : ks ⊆ join ks k := by
  unfold join
  split
  · exact List.Subset.refl ks
  · exact List.subset_append_left ks [k]

theorem foldl_join_subset (ks js : List Constraint) : ks ⊆ js.foldl join ks := by
  induction js generalizing ks with
  | nil => exact List.Subset.refl ks
  | cons j js ih => exact List.Subset.trans (join_subset ks j) (ih (join ks j))

theorem foldl_join_of_any {ks js : List Constraint}
    (h : ∀ j ∈ js, ks.any (·.equivalent j) = true) : js.foldl join ks = ks := by
  induction js with
  | nil => rfl
  | cons j js ih =>
      rw [List.foldl_cons, join, if_pos (h j List.mem_cons_self)]
      exact ih fun i hi => h i (List.mem_cons_of_mem j hi)

theorem any_foldl_join {j : Constraint} {js : List Constraint} (hj : j ∈ js)
    (ks : List Constraint) : (js.foldl join ks).any (·.equivalent j) = true := by
  induction js generalizing ks with
  | nil => cases hj
  | cons i js ih =>
      rw [List.foldl_cons]
      rcases List.mem_cons.1 hj with rfl | hj
      · have hany : (join ks j).any (·.equivalent j) = true := by
          unfold join
          split
          · next h => exact h
          · rw [List.any_append, Bool.or_eq_true]
            exact .inr (List.any_eq_true.2 ⟨j, List.mem_singleton_self j, j.equivalent_refl⟩)
        obtain ⟨k, hk, hequivalent⟩ := List.any_eq_true.1 hany
        exact List.any_eq_true.2 ⟨k, foldl_join_subset _ js hk, hequivalent⟩
      · exact ih hj (join ks i)

theorem foldl_join_foldl_join (ks js : List Constraint) :
    js.foldl join (js.foldl join ks) = js.foldl join ks :=
  foldl_join_of_any fun _ hj => any_foldl_join hj ks

def addedColumns (changes : List TableChange) : List Column :=
  changes.filterMap fun
    | .addColumn c => some c
    | .addConstraint _ => none

def addedConstraints (changes : List TableChange) : List Constraint :=
  changes.filterMap fun
    | .addColumn _ => none
    | .addConstraint k => some k

theorem foldl_apply_eq (t : Table) (changes : List TableChange) :
    changes.foldl apply t = { t with
      columns := (addedColumns changes).foldl put t.columns
      constraints := (addedConstraints changes).foldl join t.constraints } := by
  induction changes generalizing t with
  | nil => rfl
  | cons change changes ih =>
      rw [List.foldl_cons, ih]
      cases change with
      | addColumn c =>
          rw [apply, addColumn_eq]
          rfl
      | addConstraint k =>
          rw [apply, addConstraint_eq]
          rfl

theorem foldl_apply_foldl_apply (t : Table) (changes : List TableChange) :
    changes.foldl apply (changes.foldl apply t) = changes.foldl apply t := by
  rw [foldl_apply_eq (changes.foldl apply t), foldl_apply_eq t]
  simp only [foldl_put_foldl_put, foldl_join_foldl_join]

def keyed (keys : List String) (c : Column) : Column :=
  if keys.contains c.name then { c with nullable := false } else c

theorem enforcePrimaryKey_eq (t : Table) : t.enforcePrimaryKey =
    { t with columns := t.columns.map (keyed t.primaryKeyColumns) } := rfl

theorem keyed_eq (keys : List String) (c : Column) :
    keyed keys c = { c with nullable := if keys.contains c.name then false else c.nullable } := by
  unfold keyed
  split <;> rfl

theorem keyed_keyed {keys keys' : List String} (h : keys ⊆ keys') (c : Column) :
    keyed keys' (keyed keys c) = keyed keys' c := by
  rw [keyed_eq keys' c, keyed_eq keys c, keyed_eq]
  by_cases hc : keys.contains c.name = true
  · have hc' : keys'.contains c.name = true :=
      List.contains_iff_mem.2 (h (List.contains_iff_mem.1 hc))
    simp only [hc', if_true]
  · simp only [hc, if_false, Bool.false_eq_true]

theorem map_keyed_map_keyed {keys keys' : List String} (h : keys ⊆ keys') (cs : List Column) :
    (cs.map (keyed keys)).map (keyed keys') = cs.map (keyed keys') := by
  rw [List.map_map]
  exact List.map_congr_left fun c _ => keyed_keyed h c

theorem map_keyed_put (keys : List String) (cs : List Column) (c : Column) :
    (put (cs.map (keyed keys)) c).map (keyed keys) = (put cs c).map (keyed keys) := by
  have hnames : (cs.map (keyed keys)).map Column.name = cs.map Column.name := by
    rw [List.map_map]
    refine List.map_congr_left fun b _ => ?_
    rw [Function.comp_apply, keyed_eq]
  have hself := keyed_keyed (List.Subset.refl keys)
  have hreplace (cs : List Column) :
      (replace c (cs.map (keyed keys))).map (keyed keys) = (replace c cs).map (keyed keys) := by
    induction cs with
    | nil => rfl
    | cons b cs ih =>
        have hname : (keyed keys b).name = b.name := by rw [keyed_eq]
        have hordinal : (keyed keys b).ordinal = b.ordinal := by rw [keyed_eq]
        rw [List.map_cons, replace, hname, hordinal, replace]
        split
        · exact congrArg (_ :: ·) (map_keyed_map_keyed (List.Subset.refl keys) cs)
        · exact congrArg₂ List.cons (hself b) ih
  unfold put
  rw [hnames, List.length_map]
  split
  · exact hreplace cs
  · rw [List.map_append, List.map_append, map_keyed_map_keyed (List.Subset.refl keys)]

theorem enforcePrimaryKey_apply (t : Table) (change : TableChange) :
    (t.enforcePrimaryKey.apply change).enforcePrimaryKey = (t.apply change).enforcePrimaryKey := by
  cases change with
  | addColumn c =>
      rw [apply, apply, addColumn_eq, addColumn_eq]
      exact congrArg (fun cs => { t with columns := cs })
        (map_keyed_put t.primaryKeyColumns t.columns c)
  | addConstraint k =>
      rw [apply, apply, addConstraint_eq, addConstraint_eq]
      have hkeys : t.primaryKeyColumns ⊆
          primaryKeyColumns { t with constraints := join t.constraints k } :=
        primaryKeyColumns_mono (join_subset t.constraints k)
      exact congrArg (fun cs => { t with columns := cs, constraints := join t.constraints k })
        (map_keyed_map_keyed hkeys t.columns)

theorem enforcePrimaryKey_foldl_apply (t : Table) (changes : List TableChange) :
    (changes.foldl apply t.enforcePrimaryKey).enforcePrimaryKey =
      (changes.foldl apply t).enforcePrimaryKey := by
  induction changes generalizing t with
  | nil =>
      rw [List.foldl_nil, enforcePrimaryKey_eq, enforcePrimaryKey_eq]
      exact congrArg (fun cs => { t with columns := cs })
        (map_keyed_map_keyed (List.Subset.refl t.primaryKeyColumns) t.columns)
  | cons change changes ih =>
      rw [List.foldl_cons, List.foldl_cons, ← ih (t.enforcePrimaryKey.apply change),
        enforcePrimaryKey_apply, ih (t.apply change)]

/-- Between changes it does not count which columns are nullable for the sake of a key. -/
theorem foldl_applyAll_eq (t : Table) {changes : List (List TableChange)} (h : changes ≠ []) :
    changes.foldl applyAll t = (changes.flatten.foldl apply t).enforcePrimaryKey := by
  induction changes generalizing t with
  | nil => exact absurd rfl h
  | cons first others ih =>
      rw [List.foldl_cons, List.flatten_cons, List.foldl_append]
      cases others with
      | nil => rfl
      | cons second others =>
          rw [ih (t.applyAll first) (List.cons_ne_nil second others), applyAll,
            enforcePrimaryKey_foldl_apply]

/-- Changes made twice, in one order, lead to where they led the first time. -/
theorem foldl_applyAll_foldl_applyAll (t : Table) (changes : List (List TableChange)) :
    changes.foldl applyAll (changes.foldl applyAll t) = changes.foldl applyAll t := by
  by_cases h : changes = []
  · subst h
    rfl
  · rw [foldl_applyAll_eq _ h, foldl_applyAll_eq t h, enforcePrimaryKey_foldl_apply,
      foldl_apply_foldl_apply]

end Table

end SchemaDrift
