import SchemaDrift.Proofs.Ordinals

namespace SchemaDrift

structure Operation.SameButTable (x y : Operation) : Prop where
  same : { x with details := y.details } = y
  details : x.details = y.details ∨ x.action = .alter ∧ x.kind = .table

namespace Details

def common (a b : Table) : List String :=
  a.columns.flatMap (fun old => match b.columns.find? (·.name == old.name) with
    | some new => column old new
    | none => []) ++
  changed (kept a.columns b.columns) (kept b.columns a.columns)
    (fun s t => fromTo "column order" (grouped s) (grouped t)) ++
  constraints a.constraints b.constraints ++ indexes a.indexes b.indexes ++
  a.storage.changes b.storage ++ versioning a.versioning b.versioning ++
  options a.options b.options

/-- What is said of two tables with and without renames. With renames, the columns that go are
those of the pairs and those that are dropped, and the columns that come are those of the pairs and
those that are added. -/
structure Regrouped (a b : Table) (pairs : List (Column × Column)) (gone come : List Column) :
    Prop where
  detected : table true a b =
    pairs.map (fun p => "column " ++ p.1.name ++ " renamed to " ++ p.2.name) ++
      gone.map (fun c => "column dropped: " ++ c.name) ++
      come.map (fun c => "column added: " ++ c.text) ++ common a b
  undetected : table false a b =
    (onlyIn a.columns b.columns).map (fun c => "column dropped: " ++ c.name) ++
      (onlyIn b.columns a.columns).map (fun c => "column added: " ++ c.text) ++ common a b
  dropped : (pairs.map Prod.fst ++ gone).Perm (onlyIn a.columns b.columns)
  added : (pairs.map Prod.snd ++ come).Perm (onlyIn b.columns a.columns)
  droppedOnce : ((pairs.map Prod.fst ++ gone).map Column.name).Nodup
  addedOnce : ((pairs.map Prod.snd ++ come).map Column.name).Nodup
  mem_iff (old new : Column) : (old, new) ∈ pairs ↔
    old ∈ onlyIn a.columns b.columns ∧ new ∈ onlyIn b.columns a.columns ∧
      (∃ i : Nat, a.columns[i]? = some old ∧ b.columns[i]? = some new) ∧
      new.sameDefinition old = true

end Details

theorem Table.Numbered.ordinal_eq {t : Table} (h : t.Numbered) {i : Nat} {c : Column}
    (hi : t.columns[i]? = some c) : c.ordinal = i + 1 := by
  have hlt : i < t.columns.length := (List.getElem?_eq_some_iff.1 hi).1
  have hmap : (t.columns.map Column.ordinal)[i]? = some c.ordinal := by
    rw [List.getElem?_map, hi, Option.map_some]
  rw [h, List.getElem?_range' hlt] at hmap
  have hordinal := Option.some.inj hmap
  omega

theorem Table.Numbered.same_place_iff {a b : Table} (ha : a.Numbered) (hb : b.Numbered)
    {old new : Column} (hold : old ∈ a.columns) (hnew : new ∈ b.columns) :
    new.ordinal = old.ordinal ↔ ∃ i : Nat, a.columns[i]? = some old ∧ b.columns[i]? = some new := by
  obtain ⟨i, hi⟩ := List.mem_iff_getElem?.1 hold
  obtain ⟨j, hj⟩ := List.mem_iff_getElem?.1 hnew
  rw [ha.ordinal_eq hi, hb.ordinal_eq hj]
  constructor
  · intro heq
    obtain rfl : j = i := Nat.succ.inj heq
    exact ⟨j, hi, hj⟩
  · rintro ⟨k, hk, hk'⟩
    have hik := (ha.ordinal_eq hk).symm.trans (ha.ordinal_eq hi)
    have hjk := (hb.ordinal_eq hk').symm.trans (hb.ordinal_eq hj)
    omega

namespace Details

/-- What is taken out of a list and what is left of it make up the list. -/
theorem perm_append_left {taken whole : List Column} (htaken : taken.Nodup)
    (hwhole : whole.Nodup) (hsub : taken ⊆ whole) :
    (taken ++ whole.filter (fun c => !taken.contains c)).Perm whole := by
  have hperm : taken.Perm (whole.filter taken.contains) := by
    refine (List.perm_ext_iff_of_nodup htaken (hwhole.filter _)).2 fun c => ?_
    rw [List.mem_filter, List.contains_iff_mem]
    exact ⟨fun hc => ⟨hsub hc, hc⟩, And.right⟩
  exact (hperm.append_right _).trans (List.filter_append_perm _ whole)

/-- Among columns told apart by name, names will do to tell what was taken. -/
theorem filter_names_eq {taken whole : List Column} (hnames : (whole.map Column.name).Nodup)
    (hsub : taken ⊆ whole) :
    whole.filter (fun c => !(taken.map Column.name).contains c.name) =
      whole.filter (fun c => !taken.contains c) := by
  refine List.filter_congr fun c hc => congrArg _ ?_
  rw [Bool.eq_iff_iff, List.contains_iff_mem, List.contains_iff_mem]
  constructor
  · intro hmem
    obtain ⟨e, he, hname⟩ := List.mem_map.1 hmem
    exact List.inj_on_of_nodup_map hnames (hsub he) hc hname ▸ he
  · exact List.mem_map_of_mem

section

variable (dropped added : List Column)

def successor? (old : Column) : Option Column :=
  added.find? (fun new => new.ordinal == old.ordinal && new.sameDefinition old)

def renamedPairs : List (Column × Column) :=
  dropped.filterMap (fun old => (successor? added old).map (old, ·))

theorem renames_eq : renames dropped added =
    (renamedPairs dropped added).map (fun p => (p.1.name, p.2.name)) := by
  rw [renames, renamedPairs, List.map_filterMap]
  refine congrArg (List.filterMap · dropped) (funext fun old => ?_)
  rw [Option.map_map]
  rfl

variable {dropped added}

theorem mem_renamedPairs_iff (hadded : (added.map Column.ordinal).Nodup) {old new : Column} :
    (old, new) ∈ renamedPairs dropped added ↔
      old ∈ dropped ∧ new ∈ added ∧ new.ordinal = old.ordinal ∧ new.sameDefinition old = true := by
  have hsuccessor : successor? added old = some new ↔
      new ∈ added ∧ new.ordinal = old.ordinal ∧ new.sameDefinition old = true := by
    constructor
    · intro h
      have hfound := List.find?_some h
      rw [Bool.and_eq_true, beq_iff_eq] at hfound
      exact ⟨List.mem_of_find?_eq_some h, hfound⟩
    · rintro ⟨hnew, hordinal, hsame⟩
      cases h : successor? added old with
      | none =>
          have hnone := List.find?_eq_none.1 h new hnew
          simp [hordinal, hsame] at hnone
      | some found =>
          have hfound := List.find?_some h
          rw [Bool.and_eq_true, beq_iff_eq] at hfound
          rw [List.inj_on_of_nodup_map hadded (List.mem_of_find?_eq_some h) hnew
            (hfound.1.trans hordinal.symm)]
  rw [← hsuccessor, renamedPairs, List.mem_filterMap]
  simp only [Option.map_eq_some_iff, Prod.mk.injEq]
  constructor
  · rintro ⟨_, hold, _, hnew, rfl, rfl⟩
    exact ⟨hold, hnew⟩
  · rintro ⟨hold, hnew⟩
    exact ⟨old, hold, new, hnew, rfl, rfl⟩

theorem fst_renamedPairs_sublist : ((renamedPairs dropped added).map Prod.fst).Sublist dropped := by
  induction dropped with
  | nil => exact .slnil
  | cons old dropped ih =>
      rw [renamedPairs, List.filterMap_cons]
      cases successor? added old with
      | none => exact ih.cons old
      | some new => exact ih.cons_cons old

/-- No column comes in place of two. -/
theorem nodup_snd_renamedPairs (hdropped : (dropped.map Column.ordinal).Nodup)
    (hadded : (added.map Column.ordinal).Nodup) :
    ((renamedPairs dropped added).map Prod.snd).Nodup := by
  refine List.Nodup.of_map Column.ordinal ?_
  have hordinals : ((renamedPairs dropped added).map Prod.snd).map Column.ordinal =
      ((renamedPairs dropped added).map Prod.fst).map Column.ordinal := by
    rw [List.map_map, List.map_map]
    exact List.map_congr_left fun p hp => ((mem_renamedPairs_iff hadded).1 hp).2.2.1
  rw [hordinals]
  exact hdropped.sublist (fst_renamedPairs_sublist.map _)

end

theorem table_eq (detectRenames : Bool) (a b : Table) : table detectRenames a b =
    (let dropped := onlyIn a.columns b.columns
     let added := onlyIn b.columns a.columns
     let renamed := if detectRenames then renames dropped added else []
     renamed.map (fun r => "column " ++ r.1 ++ " renamed to " ++ r.2) ++
      (dropped.filter (fun c => !(renamed.map Prod.fst).contains c.name)).map
        (fun c => "column dropped: " ++ c.name) ++
      (added.filter (fun c => !(renamed.map Prod.snd).contains c.name)).map
        (fun c => "column added: " ++ c.text) ++ common a b) := by
  have hassoc (as bs cs ds es fs gs hs : List String) :
      as ++ bs ++ cs ++ ds ++ es ++ fs ++ gs ++ hs =
        as ++ (bs ++ cs ++ ds ++ es ++ fs ++ gs ++ hs) := by
    simp only [List.append_assoc]
  exact hassoc ..

theorem exists_regrouped {a b : Table} (ha : a.Numbered) (hb : b.Numbered)
    (hanames : (a.columns.map Column.name).Nodup) (hbnames : (b.columns.map Column.name).Nodup) :
    ∃ pairs gone come, Regrouped a b pairs gone come := by
  have honly (cs others : List Column) : (onlyIn cs others).Sublist cs := List.filter_sublist
  have hordinals {t : Table} (ht : t.Numbered) (others : List Column) :
      ((onlyIn t.columns others).map Column.ordinal).Nodup := by
    refine List.Nodup.sublist ((honly _ _).map _) ?_
    rw [ht]
    exact List.nodup_range'
  have hdropped := hordinals ha b.columns
  have hadded := hordinals hb a.columns
  have hdroppedNames := hanames.sublist ((honly a.columns b.columns).map _)
  have haddedNames := hbnames.sublist ((honly b.columns a.columns).map _)
  have hmem {old new : Column} :=
    @mem_renamedPairs_iff (onlyIn a.columns b.columns) _ hadded old new
  have hrenames := renames_eq (onlyIn a.columns b.columns) (onlyIn b.columns a.columns)
  have hfst := @fst_renamedPairs_sublist (onlyIn a.columns b.columns) (onlyIn b.columns a.columns)
  have hsnd := nodup_snd_renamedPairs hdropped hadded
  generalize hD : onlyIn a.columns b.columns = dropped at *
  generalize hA : onlyIn b.columns a.columns = added at *
  generalize renamedPairs dropped added = pairs at *
  have hsndMem : pairs.map Prod.snd ⊆ added := by
    intro new hnew
    obtain ⟨p, hp, rfl⟩ := List.mem_map.1 hnew
    exact (hmem.1 hp).2.1
  have hdroppedPerm := perm_append_left (hfst.nodup (hdropped.of_map _)) (hdropped.of_map _)
    hfst.subset
  have haddedPerm := perm_append_left hsnd (hadded.of_map _) hsndMem
  refine ⟨pairs, dropped.filter (fun c => !(pairs.map Prod.fst).contains c),
    added.filter (fun c => !(pairs.map Prod.snd).contains c), ?_, ?_, ?_, ?_, ?_, ?_, ?_⟩
  · rw [table_eq]
    simp only [hD, hA, hrenames, if_true, List.map_map]
    have hfstNames := filter_names_eq hdroppedNames hfst.subset
    have hsndNames := filter_names_eq haddedNames hsndMem
    rw [List.map_map] at hfstNames hsndNames
    rw [show Prod.fst ∘ (fun p : Column × Column => (p.1.name, p.2.name)) =
        Column.name ∘ Prod.fst from rfl, show Prod.snd ∘
        (fun p : Column × Column => (p.1.name, p.2.name)) = Column.name ∘ Prod.snd from rfl,
      hfstNames, hsndNames]
    rfl
  · rw [table_eq]
    simp [hD, hA]
  · exact hD ▸ hdroppedPerm
  · exact hA ▸ haddedPerm
  · exact (hdroppedPerm.map _).nodup_iff.2 hdroppedNames
  · exact (haddedPerm.map _).nodup_iff.2 haddedNames
  · intro old new
    rw [hmem, hD, hA]
    refine and_congr_right fun hold => and_congr_right fun hnew => and_congr_left fun _ => ?_
    exact ha.same_place_iff hb ((honly _ _).subset (hD ▸ hold)) ((honly _ _).subset (hA ▸ hnew))

end Details

namespace Details

/-- With renames there is something to say just where there is without. -/
theorem table_eq_nil_iff (a b : Table) : table true a b = [] ↔ table false a b = [] := by
  have hnone {detectRenames : Bool} (h : table detectRenames a b = []) :
      onlyIn a.columns b.columns = [] ∧ onlyIn b.columns a.columns = [] ∧ common a b = [] := by
    have hcolumns : columns detectRenames a.columns b.columns = [] := by
      simp only [table, List.append_eq_nil_iff] at h
      exact h.1.1.1.1.1
    rw [table_eq] at h
    have hcommon := (List.append_eq_nil_iff.1 h).2
    exact ⟨(onlyIn_of_columns_eq_nil hcolumns).1, (onlyIn_of_columns_eq_nil hcolumns).2, hcommon⟩
  constructor
  · intro h
    obtain ⟨hdropped, hadded, hcommon⟩ := hnone h
    simp [table_eq, hdropped, hadded, hcommon]
  · intro h
    obtain ⟨hdropped, hadded, hcommon⟩ := hnone h
    simp [table_eq, hdropped, hadded, hcommon, renames]

theorem object_eq_of_kind_ne_table {a : Object} (h : a.kind ≠ .table) (b : Object) :
    object true a b = object false a b := by
  cases a with
  | table t => exact absurd rfl h
  | _ => cases b <;> rfl

theorem object_eq_nil_iff (a b : Object) : object true a b = [] ↔ object false a b = [] := by
  by_cases h : a.kind = .table
  · cases a with
    | table s =>
        cases b with
        | table t => exact table_eq_nil_iff s t
        | _ => exact Iff.rfl
    | _ => cases h
  · rw [object_eq_of_kind_ne_table h]

end Details

namespace Step

def undetailed (s : Step) : Step := { s with operation := { s.operation with details := [] } }

structure SameButTable (x y : Step) : Prop where
  undetailed : x.undetailed = y.undetailed
  operation : x.operation.SameButTable y.operation

variable {xs ys : List Step}

theorem edges_map_undetailed (steps : List Step) :
    Schedule.edges (steps.map undetailed) = Schedule.edges steps := by
  have hreplaced (s : Step) : s.undetailed.isReplaced (steps.map undetailed) =
      s.isReplaced steps := by
    rw [isReplaced, isReplaced, List.any_map]
    rfl
  have hmust (x y : Step) : mustPrecede (steps.map undetailed) x.undetailed y.undetailed =
      mustPrecede steps x y := by
    have hreleases : releases (steps.map undetailed) x.undetailed y.undetailed =
        releases steps x y := by
      rw [releases, hreplaced]
      rfl
    rw [mustPrecede, hreleases]
    rfl
  simp only [Schedule.edges, List.zipIdx_map, List.flatMap_map, List.filter_map, List.map_map]
  refine congrArg (List.flatMap · steps.zipIdx) (funext fun x => ?_)
  refine congrArg (List.map _) (List.filter_congr fun y _ => ?_)
  exact congrArg (_ && ·) (hmust x.1 y.1)

theorem ranks_map_undetailed (steps : List Step) :
    Schedule.ranks (steps.map undetailed) = Schedule.ranks steps := by
  rw [Schedule.ranks, List.zipIdx_map, List.map_map]
  rfl

/-- What the operations say has no part in the order of the steps. -/
theorem forall₂_ordered (h : List.Forall₂ SameButTable xs ys) :
    List.Forall₂ SameButTable (ordered xs) (ordered ys) := by
  have hmap : xs.map undetailed = ys.map undetailed := by
    rw [← List.forall₂_eq_eq_eq, List.forall₂_map_left_iff, List.forall₂_map_right_iff]
    exact h.imp fun _ _ h => h.undetailed
  rw [ordered, ordered, ← edges_map_undetailed xs, ← ranks_map_undetailed xs, hmap,
    edges_map_undetailed, ranks_map_undetailed]
  induction Schedule.order (Schedule.edges ys) (Schedule.ranks ys) with
  | nil => exact .nil
  | cons i is ih =>
      rw [List.filterMap_cons, List.filterMap_cons]
      obtain ⟨hlength, hget⟩ := List.forall₂_iff_get.1 h
      by_cases hi : i < xs.length
      · rw [List.getElem?_eq_getElem hi, List.getElem?_eq_getElem (hlength ▸ hi)]
        exact .cons (hget i hi (hlength ▸ hi)) ih
      · rw [List.getElem?_eq_none (Nat.le_of_not_lt hi),
          List.getElem?_eq_none (hlength ▸ Nat.le_of_not_lt hi)]
        exact ih

end Step

namespace Plan

open Details

theorem forall₂_targetSteps (source : Model) (o : Object) (position : Nat) :
    List.Forall₂ Step.SameButTable (targetSteps true source o position)
      (targetSteps false source o position) := by
  have hself (xs : List Step) : List.Forall₂ Step.SameButTable xs xs :=
    List.forall₂_same.2 fun x _ => ⟨rfl, rfl, .inl rfl⟩
  unfold targetSteps
  cases hbefore : source.get? o.key with
  | none => exact hself _
  | some before =>
      have hkind : before.kind = o.kind :=
        congrArg ObjectKey.kind (Model.get?_eq_some_iff.1 hbefore).2
      by_cases htable : o.kind = .table
      · have hnil := object_eq_nil_iff before o
        dsimp only
        cases htrue : object true before o with
        | nil =>
            rw [hnil.1 htrue]
            exact .nil
        | cons first others =>
            cases hfalse : object false before o with
            | nil =>
                rw [hnil.2 hfalse] at htrue
                cases htrue
            | cons first' others' =>
                have halters : o.kind.supportsAlter = true := by
                  rw [htable]
                  rfl
                dsimp only
                rw [if_pos halters, if_pos halters]
                exact .cons ⟨rfl, rfl, .inr ⟨rfl, htable⟩⟩ .nil
      · dsimp only
        rw [object_eq_of_kind_ne_table (hkind ▸ htable) o]
        exact hself _

theorem forall₂_steps (source target : Model) :
    List.Forall₂ Step.SameButTable (steps true source target) (steps false source target) := by
  refine List.rel_append (List.rel_flatMap (R := Eq) (List.forall₂_refl _) ?_) ?_
  · rintro p _ rfl
    exact forall₂_targetSteps source p.1 p.2
  · exact List.forall₂_same.2 fun x _ => ⟨rfl, rfl, .inl rfl⟩

end Plan

/-- Counting columns as renamed changes no more of a plan than what is said of altered tables. Of
two tables of any models, with columns told apart by name, it says with renames and without what
goes and what comes, each column once. What counts as renamed is each pair of a column that goes and
one that comes at the same place with the same definition, and no column is in two pairs. -/
theorem renames_regroup :
    (∀ source target : Model, List.Forall₂ Operation.SameButTable
      (Plan.between true source target).operations
      (Plan.between false source target).operations) ∧
    ∀ (d d' : Dialect) (m n : Model), m.Gathered d → n.Gathered d' →
      ∀ a b : Table, .table a ∈ m.objects → .table b ∈ n.objects →
        (a.columns.map Column.name).Nodup → (b.columns.map Column.name).Nodup →
          ∃ pairs gone come, Details.Regrouped a b pairs gone come := by
  constructor
  · intro source target
    have hordered := Step.forall₂_ordered (Plan.forall₂_steps source target)
    refine List.forall₂_map_left_iff.2 (List.forall₂_map_right_iff.2 ?_)
    exact hordered.imp fun _ _ h => h.operation
  · intro d d' m n hm hn a b ha hb hanames hbnames
    exact Details.exists_regrouped (hm.numbered a ha) (hn.numbered b hb) hanames hbnames

def notesBefore : Table :=
  { Table.new (.unqualified "notes") with
    columns := [⟨"id", ⟨.integer, [], "int"⟩, true, none, .plain, 1, []⟩,
      ⟨"body", ⟨.text, [], "text"⟩, true, none, .plain, 2, []⟩,
      ⟨"done", ⟨.boolean, [], "bool"⟩, true, none, .plain, 3, []⟩] }

def notesAfter : Table :=
  { Table.new (.unqualified "notes") with
    columns := [⟨"id", ⟨.integer, [], "int"⟩, true, none, .plain, 1, []⟩,
      ⟨"content", ⟨.text, [], "text"⟩, true, none, .plain, 2, []⟩,
      ⟨"kind", ⟨.text, [], "text"⟩, false, none, .plain, 3, []⟩] }

theorem renames_regroup_notes :
    (Model.empty.insert (.table notesBefore)).Gathered .postgres ∧
    (Model.empty.insert (.table notesAfter)).Gathered .postgres ∧
    (∃ pairs gone come, Details.Regrouped notesBefore notesAfter pairs gone come) ∧
    Details.table true notesBefore notesAfter = ["column body renamed to content",
      "column dropped: done", "column added: kind text NOT NULL"] ∧
    Details.table false notesBefore notesAfter = ["column dropped: body", "column dropped: done",
      "column added: content text", "column added: kind text NOT NULL"] := by
  have hbefore : (Model.empty.insert (.table notesBefore)).Gathered .postgres :=
    .insert (s := "CREATE TABLE notes (id int, body text, done bool)") .empty (by decide +kernel)
  have hafter : (Model.empty.insert (.table notesAfter)).Gathered .postgres :=
    .insert (s := "CREATE TABLE notes (id int, content text, kind text NOT NULL)") .empty
      (by decide +kernel)
  refine ⟨hbefore, hafter, ?_, by decide +kernel, by decide +kernel⟩
  refine renames_regroup.2 _ _ _ _ hbefore hafter notesBefore notesAfter ?_ ?_ (by decide)
    (by decide)
  · exact List.mem_singleton_self _
  · exact List.mem_singleton_self _

end SchemaDrift
