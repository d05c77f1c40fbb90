import SchemaDrift.Proofs.Refolding

namespace SchemaDrift.Table

variable {t u v : Table} {change : TableChange} {changes : List TableChange}

/-- What a change leaves of a table. A new column takes the place of the first of its name, or else
goes to the end; a constraint is added unless there is one that it is equivalent to. -/
inductive Takes (t : Table) : TableChange → Table → Prop
  | replaced {before after : List Column} {old c : Column}
      (found : t.columns = before ++ old :: after) (first : ∀ b ∈ before, b.name ≠ c.name)
      (same : old.name = c.name) :
      Takes t (.addColumn c)
        { t with columns := before ++ { c with ordinal := old.ordinal } :: after }
  | appended {c : Column} (new : ∀ b ∈ t.columns, b.name ≠ c.name) :
      Takes t (.addColumn c)
        { t with columns := t.columns ++ [{ c with ordinal := t.columns.length + 1 }] }
  | present {j k : Constraint} (found : j ∈ t.constraints) (same : j.equivalent k = true) :
      Takes t (.addConstraint k) t
  | joined {k : Constraint} (new : ∀ j ∈ t.constraints, j.equivalent k = false) :
      Takes t (.addConstraint k) { t with constraints := t.constraints ++ [k] }

inductive TakesAll : Table → List TableChange → Table → Prop
  | nil (t : Table) : TakesAll t [] t
  | cons {t u v : Table} {change : TableChange} {changes : List TableChange}
      (step : t.Takes change u) (rest : TakesAll u changes v) : TakesAll t (change :: changes) v

def InPrimaryKey (t : Table) (name : String) : Prop :=
  ∃ k ∈ t.constraints, k.rule = .primaryKey ∧ ∃ entry ∈ k.columns, keyWord entry = some name

structure Settles (t u : Table) : Prop where
  rest : u = { t with columns := u.columns }
  columns : List.Forall₂ (fun b c => c = { b with nullable := c.nullable } ∧
    (c.nullable = true ↔ b.nullable = true ∧ ¬ t.InPrimaryKey b.name)) t.columns u.columns

inductive Alters : Table → List (List TableChange) → Table → Prop
  | nil (t : Table) : Alters t [] t
  | cons {t u v w : Table} {changes : List TableChange} {more : List (List TableChange)}
      (takes : t.TakesAll changes u) (settles : u.Settles v) (rest : Alters v more w) :
      Alters t (changes :: more) w

theorem takes_apply (t : Table) (change : TableChange) : t.Takes change (t.apply change) := by
  cases change with
  | addColumn c =>
      rw [apply, addColumn_eq]
      by_cases h : c.name ∈ t.columns.map Column.name
      · obtain ⟨names, others, hnames, hfirst⟩ := List.eq_append_cons_of_mem h
        obtain ⟨before, rest, hcolumns, rfl, hrest⟩ := List.map_eq_append_iff.1 hnames
        obtain ⟨old, after, rfl, hold, -⟩ := List.map_eq_cons_iff.1 hrest
        rw [put, if_pos h, hcolumns, replace_append_of_not_mem hfirst, replace, if_pos hold]
        exact .replaced hcolumns (fun b hb hname => hfirst (hname ▸ List.mem_map_of_mem hb)) hold
      · rw [put, if_neg h]
        exact .appended fun b hb hname => h (hname ▸ List.mem_map_of_mem hb)
  | addConstraint k =>
      rw [apply, addConstraint]
      split
      · next h =>
          obtain ⟨j, hj, hsame⟩ := List.any_eq_true.1 h
          exact .present hj hsame
      · next h =>
          rw [Bool.not_eq_true, List.any_eq_false] at h
          exact .joined fun j hj => Bool.not_eq_true _ ▸ h j hj

theorem takesAll_foldl (t : Table) (changes : List TableChange) :
    t.TakesAll changes (changes.foldl apply t) := by
  induction changes generalizing t with
  | nil => exact .nil t
  | cons change changes ih => exact .cons (takes_apply t change) (ih (t.apply change))

theorem settles_enforcePrimaryKey (t : Table) : t.Settles t.enforcePrimaryKey := by
  refine ⟨rfl, ?_⟩
  rw [enforcePrimaryKey_eq, List.forall₂_map_right_iff, List.forall₂_same]
  intro c _
  rw [keyed_eq]
  refine ⟨rfl, ?_⟩
  rw [InPrimaryKey, ← mem_primaryKeyColumns_iff, ← List.contains_iff_mem]
  cases t.primaryKeyColumns.contains c.name <;> simp

theorem alters_foldl (t : Table) (changes : List (List TableChange)) :
    t.Alters changes (changes.foldl applyAll t) := by
  induction changes generalizing t with
  | nil => exact .nil t
  | cons first others ih =>
      exact .cons (takesAll_foldl t first) (settles_enforcePrimaryKey _) (ih (t.applyAll first))

structure Within (t u : Table) : Prop where
  columns : t.columns.map Column.name <+: u.columns.map Column.name
  constraints : t.constraints <+: u.constraints

def Shows (t : Table) : TableChange → Prop
  | .addColumn c => ∃ b ∈ t.columns, b.name = c.name
  | .addConstraint k => ∃ j ∈ t.constraints, j.equivalent k = true

theorem Within.refl (t : Table) : t.Within t := ⟨List.prefix_rfl, List.prefix_rfl⟩

theorem Within.trans (h : t.Within u) (h' : u.Within v) : t.Within v :=
  ⟨h.columns.trans h'.columns, h.constraints.trans h'.constraints⟩

theorem Within.shows (h : t.Within u) (ht : t.Shows change) : u.Shows change := by
  cases change with
  | addColumn c =>
      obtain ⟨b, hb, hname⟩ := ht
      have hmem := h.columns.subset (List.mem_map_of_mem hb)
      rw [hname] at hmem
      exact List.mem_map.1 hmem
  | addConstraint k =>
      obtain ⟨j, hj, hsame⟩ := ht
      exact ⟨j, h.constraints.subset hj, hsame⟩

theorem Takes.within (h : t.Takes change u) : t.Within u := by
  cases h with
  | replaced found first same => exact ⟨by simp [found, same], List.prefix_rfl⟩
  | appended => exact ⟨by simp, List.prefix_rfl⟩
  | present => exact .refl t
  | joined => exact ⟨List.prefix_rfl, List.prefix_append _ _⟩

theorem Takes.shows (h : t.Takes change u) : u.Shows change := by
  cases h with
  | replaced => exact ⟨_, List.mem_append_right _ List.mem_cons_self, rfl⟩
  | appended => exact ⟨_, List.mem_append_right _ List.mem_cons_self, rfl⟩
  | present found same => exact ⟨_, found, same⟩
  | @joined k => exact ⟨k, List.mem_append_right _ List.mem_cons_self, k.equivalent_refl⟩

theorem Settles.within (h : t.Settles u) : t.Within u := by
  have hnames : t.columns.map Column.name = u.columns.map Column.name := by
    rw [← List.forall₂_eq_eq_eq, List.forall₂_map_left_iff, List.forall₂_map_right_iff]
    exact h.columns.imp fun b c hbc => by rw [hbc.1]
  have hconstraints : u.constraints = t.constraints := by rw [h.rest]
  exact ⟨hnames ▸ List.prefix_rfl, hconstraints ▸ List.prefix_rfl⟩

theorem TakesAll.within (h : t.TakesAll changes u) : t.Within u := by
  induction h with
  | nil t => exact .refl t
  | cons step rest ih => exact step.within.trans ih

theorem TakesAll.shows (h : t.TakesAll changes u) : ∀ change ∈ changes, u.Shows change := by
  induction h with
  | nil t => exact fun _ hchange => nomatch hchange
  | cons step rest ih =>
      intro change hchange
      rcases List.mem_cons.1 hchange with rfl | hchange
      · exact rest.within.shows step.shows
      · exact ih change hchange

theorem Alters.within {more : List (List TableChange)} (h : t.Alters more u) : t.Within u := by
  induction h with
  | nil t => exact .refl t
  | cons takes settles rest ih => exact (takes.within.trans settles.within).trans ih

/-- Nothing that statements add to a table is lost again. -/
theorem Alters.shows {more : List (List TableChange)} (h : t.Alters more u) :
    ∀ changes ∈ more, ∀ change ∈ changes, u.Shows change := by
  induction h with
  | nil t => exact fun _ hchanges => nomatch hchanges
  | cons takes settles rest ih =>
      intro changes hchanges change hchange
      rcases List.mem_cons.1 hchanges with rfl | hchanges
      · exact (settles.within.trans rest.within).shows (takes.shows change hchange)
      · exact ih changes hchanges change hchange

end SchemaDrift.Table
