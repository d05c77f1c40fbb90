import Mathlib.Data.List.Forall2
import SchemaDrift.Proofs.Details
import SchemaDrift.Proofs.Replay

namespace SchemaDrift

def Column.Agrees (a b : Column) : Prop :=
  { a with dataType := { a.dataType with raw := b.dataType.raw }, ordinal := b.ordinal } = b

def Constraint.Paired (as bs : List Constraint) : Prop :=
  ∃ cs, cs.Perm bs ∧ List.Forall₂ (fun a c => a.equivalent c = true) as cs

namespace Table

def Numbered (t : Table) : Prop := t.columns.map Column.ordinal = List.range' 1 t.columns.length

structure Distinct (t : Table) : Prop where
  columns : (t.columns.map Column.name).Nodup
  indexes : (t.indexes.map Index.name).Nodup

/-- What two tables share if the order of constraints and of keys does not count. -/
structure Agrees (a b : Table) : Prop where
  columns : List.Forall₂ Column.Agrees a.columns b.columns
  numbered : a.Numbered → b.Numbered →
    a.columns.map Column.unspelled = b.columns.map Column.unspelled
  constraints : Constraint.Paired a.constraints b.constraints
  indexes : a.indexes.Perm b.indexes
  others : { a with columns := b.columns, constraints := b.constraints, indexes := b.indexes } = b

end Table

/-- What two objects share if it does not count which relations the query of a view was seen to
name, nor the verb of a statement kept as text. -/
def Object.Agrees : Object → Object → Prop
  | .table a, .table b => a.Agrees b
  | .view a, .view b => { a with references := b.references } = b
  | .raw a, .raw b => { a with verb := b.verb } = b
  | a, b => a = b

theorem Column.agrees_iff {a b : Column} :
    a.Agrees b ↔ a.name = b.name ∧ a.sameDefinition b = true := by
  obtain ⟨name, ⟨family, params, raw⟩, nullable, default, generation, ordinal, attributes⟩ := a
  obtain ⟨name', ⟨family', params', raw'⟩, nullable', default', generation', ordinal',
    attributes'⟩ := b
  simp [Agrees, sameDefinition_iff, DataType.unspelled, and_assoc]

theorem Column.Agrees.unspelled_eq {a b : Column} (h : a.Agrees b) (ho : a.ordinal = b.ordinal) :
    a.unspelled = b.unspelled := by
  rw [← h, unspelled, unspelled, ← ho]
  rfl

theorem Table.map_unspelled_of_numbered {a b : Table}
    (h : List.Forall₂ Column.Agrees a.columns b.columns) (ha : a.Numbered) (hb : b.Numbered) :
    a.columns.map Column.unspelled = b.columns.map Column.unspelled := by
  have hordinals : a.columns.map Column.ordinal = b.columns.map Column.ordinal := by
    rw [ha, hb, h.length_eq]
  rw [← List.forall₂_eq_eq_eq, List.forall₂_map_left_iff, List.forall₂_map_right_iff] at *
  exact h.mp (fun c d hcd ho => hcd.unspelled_eq ho) hordinals

namespace Details

variable {a b : List Column} {detectRenames : Bool}

theorem onlyIn_eq_nil_iff : onlyIn a b = [] ↔ ∀ c ∈ a, hasColumn b c.name = true := by
  simp [onlyIn]

theorem kept_of_onlyIn_eq_nil (h : onlyIn a b = []) : kept a b = a.map Column.name := by
  rw [kept, List.filter_eq_self.2 (onlyIn_eq_nil_iff.1 h)]

/-- Without a rename to report, every column that goes or comes is reported for itself. -/
theorem onlyIn_of_columns_eq_nil (h : columns detectRenames a b = []) :
    onlyIn a b = [] ∧ onlyIn b a = [] := by
  simp only [columns, List.append_eq_nil_iff, List.map_eq_nil_iff, List.filter_eq_nil_iff] at h
  obtain ⟨⟨⟨⟨hrenamed, hdropped⟩, hadded⟩, -⟩, -⟩ := h
  simp only [hrenamed] at hdropped hadded
  constructor
  · exact List.eq_nil_iff_forall_not_mem.2 (fun c hc => by simpa using hdropped c hc)
  · exact List.eq_nil_iff_forall_not_mem.2 (fun c hc => by simpa using hadded c hc)

theorem agrees_of_columns_eq_nil (hb : (b.map Column.name).Nodup)
    (h : columns detectRenames a b = []) : List.Forall₂ Column.Agrees a b := by
  obtain ⟨hdropped, hadded⟩ := onlyIn_of_columns_eq_nil h
  simp only [columns, List.append_eq_nil_iff, changed_eq_nil_iff, kept_of_onlyIn_eq_nil hdropped,
    kept_of_onlyIn_eq_nil hadded, List.flatMap_eq_nil_iff] at h
  obtain ⟨⟨-, hchanged⟩, hnames⟩ := h
  have hsame : List.Forall₂ (fun c d => Column.name c = Column.name d) a b := by
    rw [← List.forall₂_map_right_iff, ← List.forall₂_map_left_iff, hnames]
    exact List.forall₂_refl _
  obtain ⟨hlength, hpairs⟩ := List.forall₂_iff_zip.1 hsame
  refine List.forall₂_iff_zip.2 ⟨hlength, fun {c d} hcd => ?_⟩
  -- By its name, a column finds the one in its own place.
  have hname : c.name = d.name := hpairs hcd
  have hfound : b.find? (·.name == c.name) = some d :=
    Lists.find?_eq_some_of_mem hb (List.of_mem_zip hcd).2 (fun e _ => by rw [beq_iff_eq, hname])
  have hchange := hchanged c (List.of_mem_zip hcd).1
  rw [hfound] at hchange
  exact Column.agrees_iff.2 ⟨hname, column_eq_nil_iff.1 hchange⟩

theorem paired_of_unpaired {as bs : List Constraint} (h : unpaired as bs = ([], [])) :
    Constraint.Paired as bs := by
  induction as generalizing bs with
  | nil => exact ⟨[], by simp_all [unpaired], .nil⟩
  | cons a as ih =>
      rw [unpaired] at h
      split at h
      · next hany =>
          obtain ⟨d, hd, had⟩ := List.any_eq_true.1 hany
          obtain ⟨e, before, after, -, hae, rfl, herase⟩ := List.exists_of_eraseP hd had
          rw [herase] at h
          obtain ⟨cs, hperm, hcs⟩ := ih h
          exact ⟨e :: cs, (hperm.cons e).trans List.perm_middle.symm, .cons hae hcs⟩
      · cases h

theorem perm_of_indexes_eq_nil {is js : List Index} (hi : (is.map Index.name).Nodup)
    (hj : (js.map Index.name).Nodup) (h : indexes is js = []) : is.Perm js := by
  rw [indexes, List.append_eq_nil_iff, List.flatMap_eq_nil_iff, List.map_eq_nil_iff,
    List.filter_eq_nil_iff] at h
  obtain ⟨hkept, hadded⟩ := h
  have hsub : ∀ i ∈ is, i ∈ js := by
    intro i hmem
    have hkept := hkept i hmem
    cases hf : js.find? (fun j => j.name = i.name) with
    | none => simp [hf] at hkept
    | some j =>
        obtain ⟨hjmem, hname⟩ := (Lists.find?_key_eq_some_iff hj).1 hf
        rw [hf, List.map_eq_nil_iff, index_eq_nil_iff, hname] at hkept
        rwa [show i = j from hkept]
  refine (List.perm_ext_iff_of_nodup hi.of_map hj.of_map).2 (fun j => ⟨hsub j, fun hmem => ?_⟩)
  have hnamed := hadded j hmem
  simp only [Bool.not_eq_true', Bool.not_eq_false, List.any_eq_true, decide_eq_true_eq] at hnamed
  obtain ⟨i, himem, hname⟩ := hnamed
  rwa [← List.inj_on_of_nodup_map hj (hsub i himem) hmem hname]

theorem agrees_of_table_eq_nil {a b : Table} (hname : a.name = b.name) (ha : a.Distinct)
    (hb : b.Distinct) (h : table detectRenames a b = []) : a.Agrees b := by
  simp only [table, List.append_eq_nil_iff, constraints, List.map_eq_nil_iff, versioning,
    changed_eq_nil_iff, Storage.changes_eq_nil_iff, options_eq_nil_iff] at h
  obtain ⟨⟨⟨⟨⟨hcolumns, hdropped, hadded⟩, hindexes⟩, hstorage⟩, hperiod, hversioned⟩, hoptions⟩ := h
  have hcolumns := agrees_of_columns_eq_nil hb.columns hcolumns
  refine ⟨hcolumns, Table.map_unspelled_of_numbered hcolumns, ?_, ?_, ?_⟩
  · exact paired_of_unpaired (Prod.ext hdropped hadded)
  · exact perm_of_indexes_eq_nil ha.indexes hb.indexes hindexes
  · obtain ⟨_, _, _, _, _, ⟨_, _⟩, _⟩ := a
    obtain ⟨_, _, _, _, _, ⟨_, _⟩, _⟩ := b
    simp_all

theorem view_eq_nil_iff {a b : View} (hname : a.name = b.name) :
    view a b = [] ↔ { a with references := b.references } = b := by
  cases a
  cases b
  simp_all [view]

theorem trigger_eq_nil_iff {a b : Trigger} (hname : a.name = b.name) :
    trigger a b = [] ↔ a = b := by
  cases a
  cases b
  simp_all [trigger]

theorem routine_eq_nil_iff {a b : Routine} (hname : a.name = b.name) :
    routine a b = [] ↔ a = b := by
  cases a
  cases b
  simp_all [routine]

theorem synonym_eq_nil_iff {a b : Synonym} (hname : a.name = b.name) :
    synonym a b = [] ↔ a = b := by
  cases a
  cases b
  simp_all [synonym]

theorem virtualTable_eq_nil_iff {a b : VirtualTable} (hname : a.name = b.name) :
    virtualTable a b = [] ↔ a = b := by
  cases a
  cases b
  simp_all [virtualTable]

theorem auxiliaryTable_eq_nil_iff {a b : AuxiliaryTable} (hname : a.name = b.name) :
    auxiliaryTable a b = [] ↔ a = b := by
  cases a
  cases b
  simp_all [auxiliaryTable]
  tauto

theorem raw_eq_nil_iff {a b : RawStatement} (hlabel : a.label = b.label) :
    raw a b = [] ↔ { a with verb := b.verb } = b := by
  cases a
  cases b
  simp_all [raw]

/-- Two objects under one key, of which there is nothing to say, agree. -/
theorem agrees_of_object_eq_nil {a b : Object} (hkey : a.key = b.key)
    (ha : ∀ t, a = .table t → t.Distinct) (hb : ∀ t, b = .table t → t.Distinct)
    (h : object detectRenames a b = []) : a.Agrees b := by
  have hname : a.name = b.name := congrArg ObjectKey.name hkey
  cases a with
  | table s =>
      cases b with
      | table t => exact agrees_of_table_eq_nil hname (ha s rfl) (hb t rfl) h
      | _ => cases h
  | view v =>
      cases b with
      | view w => exact (view_eq_nil_iff hname).1 h
      | _ => cases h
  | index i =>
      cases b with
      | index j =>
          have hrest : { i with name := j.name } = j := index_eq_nil_iff.1 h
          rw [← show i.name = j.name from hname] at hrest
          exact congrArg Object.index hrest
      | _ => cases h
  | trigger s =>
      cases b with
      | trigger t => exact congrArg Object.trigger ((trigger_eq_nil_iff hname).1 h)
      | _ => cases h
  | routine q =>
      cases b with
      | routine r => exact congrArg Object.routine ((routine_eq_nil_iff hname).1 h)
      | _ => cases h
  | synonym s =>
      cases b with
      | synonym t => exact congrArg Object.synonym ((synonym_eq_nil_iff hname).1 h)
      | _ => cases h
  | virtualTable s =>
      cases b with
      | virtualTable t => exact congrArg Object.virtualTable ((virtualTable_eq_nil_iff hname).1 h)
      | _ => cases h
  | auxiliaryTable s =>
      cases b with
      | auxiliaryTable t =>
          exact congrArg Object.auxiliaryTable ((auxiliaryTable_eq_nil_iff hname).1 h)
      | _ => cases h
  | raw q =>
      cases b with
      | raw r => exact (raw_eq_nil_iff hname).1 h
      | _ => cases h

end Details

namespace Plan

variable {detectRenames : Bool} {source target : Model}

/-- No drift is missed: where the plan is empty, both schemas have the same keys, and under every
key they agree. -/
theorem agreement_of_operations_eq_nil
    (hs : ∀ t, Object.table t ∈ source.objects → t.Distinct)
    (ht : ∀ t, Object.table t ∈ target.objects → t.Distinct)
    (h : (between detectRenames source target).operations = []) :
    (∀ k, k ∈ source.keys ↔ k ∈ target.keys) ∧
    ∀ k a b, source.get? k = some a → target.get? k = some b → a.Agrees b := by
  rw [operations_eq_nil_iff] at h
  refine ⟨fun k => (operationsOn_eq_nil_iff.1 (h k)).1, fun k a b ha hb => ?_⟩
  obtain ⟨hamem, hakey⟩ := Model.get?_eq_some_iff.1 ha
  obtain ⟨hbmem, hbkey⟩ := Model.get?_eq_some_iff.1 hb
  refine Details.agrees_of_object_eq_nil (hakey.trans hbkey.symm) ?_ ?_
    ((operationsOn_eq_nil_iff.1 (h k)).2 a b ha hb)
  · rintro t rfl
    exact hs t hamem
  · rintro t rfl
    exact ht t hbmem

def writtenNotes : Table :=
  { Table.new (.unqualified "notes") with
    columns := [⟨"id", ⟨.integer, [], "INT"⟩, false, none, .identity, 1, []⟩,
      ⟨"body", ⟨.varchar, ["80"], "VARCHAR (80)"⟩, true, some "''", .plain, 2, []⟩]
    constraints := [⟨none, .primaryKey, ["id"], []⟩,
      ⟨some "some_body", .check "body <> ''", [], []⟩]
    indexes := [.new (.unqualified "by_body") (.unqualified "notes"),
      .new (.unqualified "by_id") (.unqualified "notes")] }

def reportedNotes : Table :=
  { Table.new (.unqualified "notes") with
    columns := [⟨"id", ⟨.integer, [], "integer"⟩, false, none, .identity, 1, []⟩,
      ⟨"body", ⟨.varchar, ["80"], "character varying(80)"⟩, true, some "''", .plain, 2, []⟩]
    constraints := [⟨none, .check "body <> ''", [], []⟩,
      ⟨some "notes_pkey", .primaryKey, ["id"], []⟩]
    indexes := [.new (.unqualified "by_id") (.unqualified "notes"),
      .new (.unqualified "by_body") (.unqualified "notes")] }

def bodies (references : List QualifiedName) : Object :=
  .view ⟨.unqualified "bodies", "select body from notes", false, [], references⟩

def written : Model :=
  (Model.empty.insert (.table writtenNotes)).insert (bodies [.unqualified "notes"])

def reported : Model := (Model.empty.insert (bodies [])).insert (.table reportedNotes)

theorem agreement_written_reported :
    (∀ t, Object.table t ∈ written.objects → t.Distinct) ∧
    (∀ t, Object.table t ∈ reported.objects → t.Distinct) ∧
    (between true written reported).operations = [] ∧
    ∀ k a b, written.get? k = some a → reported.get? k = some b → a.Agrees b := by
  have hwritten : ∀ t, Object.table t ∈ written.objects → t.Distinct := by
    intro t ht
    have hobjects : written.objects = [.table writtenNotes, bodies [.unqualified "notes"]] := rfl
    simp only [hobjects, bodies, List.mem_cons, Object.table.injEq, reduceCtorEq, List.not_mem_nil,
      or_false] at ht
    rw [ht]
    exact ⟨by decide, by decide⟩
  have hreported : ∀ t, Object.table t ∈ reported.objects → t.Distinct := by
    intro t ht
    have hobjects : reported.objects = [bodies [], .table reportedNotes] := rfl
    simp only [hobjects, bodies, List.mem_cons, Object.table.injEq, reduceCtorEq, List.not_mem_nil,
      or_false, false_or] at ht
    rw [ht]
    exact ⟨by decide, by decide⟩
  have hempty : (between true written reported).operations = [] := by decide +kernel
  exact ⟨hwritten, hreported, hempty, (agreement_of_operations_eq_nil hwritten hreported hempty).2⟩

end Plan

end SchemaDrift
