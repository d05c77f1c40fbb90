import Mathlib.Data.List.Induction
import Mathlib.Data.List.ReduceOption
import SchemaDrift.Proofs.Lookup
import SchemaDrift.Script

namespace SchemaDrift

/-- An object that comes up at a place in the scripts, with the reason if it stands for a piece that
could not be split. -/
structure Occurrence where
  location : String
  object : Object
  error : Option String

namespace Occurrence

def key (e : Occurrence) : ObjectKey := e.object.key

/-- The warnings about an occurrence, given the keys of the occurrences before it. -/
def warnings (earlier : List ObjectKey) (e : Occurrence) : List Warning :=
  (e.error.map (Warning.mk e.location)).toList ++
    if e.key ∈ earlier then [⟨e.location, Model.duplicateMessage e.key⟩] else []

def allWarnings (earlier : List ObjectKey) : List Occurrence → List Warning
  | [] => []
  | e :: es => e.warnings earlier ++ allWarnings (earlier ++ [e.key]) es

theorem allWarnings_concat (earlier : List ObjectKey) (es : List Occurrence) (e : Occurrence) :
    allWarnings earlier (es ++ [e]) =
      allWarnings earlier es ++ e.warnings (earlier ++ es.map key) := by
  induction es generalizing earlier with
  | nil => simp [allWarnings]
  | cons a es ih => simp [allWarnings, ih]

def last? (es : List Occurrence) (k : ObjectKey) : Option Occurrence :=
  es.reverse.find? (fun e => e.key = k)

theorem last?_concat (es : List Occurrence) (e : Occurrence) (k : ObjectKey) :
    last? (es ++ [e]) k = if e.key = k then some e else last? es k := by
  rw [last?, List.reverse_concat, List.find?_cons]
  by_cases h : e.key = k <;> simp [h, last?]

theorem mem_of_last? {es : List Occurrence} {k : ObjectKey} {e : Occurrence}
    (h : last? es k = some e) : e ∈ es ∧ e.key = k :=
  ⟨List.mem_reverse.1 (List.mem_of_find?_eq_some h), by simpa using List.find?_some h⟩

theorem exists_last? {es : List Occurrence} {e : Occurrence} (h : e ∈ es) :
    ∃ e', last? es e.key = some e' :=
  Option.isSome_iff_exists.1 (List.find?_isSome.2
    ⟨e, List.mem_reverse.2 h, decide_eq_true rfl⟩)

end Occurrence

def Script.items (d : Dialect) (s : Script) : List (String × Statement.Item) :=
  (Statement.split d s.sql).map fun item => (s.label, item)

namespace Finding

def occurrence? : Finding → Option Occurrence
  | defined location (.object o) => some ⟨location, o, none⟩
  | defined _ (.change ..) => none
  | unfinished location u raw => some ⟨location, .raw raw, some u.message⟩

def stranded? (known : List ObjectKey) : Finding → Option Occurrence
  | defined location (.change name _ raw) =>
      if ⟨.table, name⟩ ∈ known then none else some ⟨location, .raw raw, none⟩
  | _ => none

def occurrences (found : List Finding) : List Occurrence :=
  let defined := found.filterMap occurrence?
  defined ++ found.filterMap (stranded? (defined.map Occurrence.key))

def fold (o : Object) : Finding → Object
  | defined _ (.change name changes _) =>
      if o.key = ⟨.table, name⟩ then o.changed changes else o
  | _ => o

theorem key_fold (o : Object) (f : Finding) : (fold o f).key = o.key := by
  unfold fold
  split
  · split
    · exact o.key_changed _
    · rfl
  · rfl

theorem key_foldl_fold (fs : List Finding) (o : Object) : (fs.foldl fold o).key = o.key := by
  induction fs generalizing o with
  | nil => rfl
  | cons f fs ih => rw [List.foldl_cons, ih, key_fold]

def changes? (name : QualifiedName) : Finding → Option (List TableChange)
  | defined _ (.change table changes _) => if table = name then some changes else none
  | _ => none

theorem fold_table (t : Table) (f : Finding) : fold (.table t) f =
    .table (((f.changes? t.name).map t.applyAll).getD t) := by
  cases f with
  | unfinished => rfl
  | defined place found =>
      cases found with
      | object => rfl
      | change name changes raw =>
          by_cases h : name = t.name
          · rw [changes?, if_pos h]
            exact if_pos (congrArg (ObjectKey.mk .table) h.symm)
          · rw [changes?, if_neg h]
            exact if_neg fun hk => h (congrArg ObjectKey.name hk).symm

theorem foldl_fold_table (t : Table) (fs : List Finding) : fs.foldl fold (.table t) =
    .table ((fs.filterMap (changes? t.name)).foldl Table.applyAll t) := by
  induction fs generalizing t with
  | nil => rfl
  | cons f fs ih =>
      rw [List.foldl_cons, fold_table, ih, List.filterMap_cons]
      cases f.changes? t.name with
      | none => rfl
      | some changes => rw [Option.map_some, Option.getD_some, t.name_applyAll, List.foldl_cons]

theorem foldl_fold_of_not_table {o : Object} (ho : ∀ t, o ≠ .table t) (fs : List Finding) :
    fs.foldl fold o = o := by
  induction fs with
  | nil => rfl
  | cons f fs ih =>
      have hf : fold o f = o := by
        unfold fold
        split
        · cases o with
          | table t => exact absurd rfl (ho t)
          | _ => exact ite_self _
        · rfl
      rw [List.foldl_cons, hf, ih]

theorem kind_of_stranded {known : List ObjectKey} {fs : List Finding} {e : Occurrence}
    (h : e ∈ fs.filterMap (stranded? known)) : e.key.kind = .raw := by
  obtain ⟨f, -, hf⟩ := List.mem_filterMap.1 h
  unfold stranded? at hf
  split at hf
  · split at hf
    · cases hf
    · cases hf
      rfl
  · cases hf

theorem ofItems_eq (d : Dialect) (label : String) (items : List Statement.Item) :
    ofItems d label items =
      ((items.map fun item => (label, item)).mapM fun i => ofItem d i.1 i.2).map
        List.reduceOption := by
  induction items with
  | nil => rfl
  | cons item items ih =>
      rw [ofItems, ih, List.map_cons, List.mapM_cons]
      cases ofItem d label item with
      | error e => rfl
      | ok found =>
          cases (items.map fun item => (label, item)).mapM fun i => ofItem d i.1 i.2 with
          | error e => rfl
          | ok rest => cases found <;> rfl

/-- Every item of the scripts is read, in order, and what defines nothing is left out. -/
theorem ofScripts_eq (d : Dialect) (scripts : List Script) :
    ofScripts d scripts = ((scripts.flatMap (Script.items d)).mapM
      fun i => ofItem d i.1 i.2).map List.reduceOption := by
  induction scripts with
  | nil => rfl
  | cons s scripts ih =>
      rw [ofScripts, ofItems_eq, ih, List.flatMap_cons, List.mapM_append, Script.items]
      cases ((Statement.split d s.sql).map fun item => (s.label, item)).mapM
          fun i => ofItem d i.1 i.2 with
      | error e => rfl
      | ok found =>
          cases (scripts.flatMap (Script.items d)).mapM fun i => ofItem d i.1 i.2 with
          | error e => rfl
          | ok rest => exact congrArg Except.ok (List.reduceOption_append found rest).symm

end Finding

namespace Model

variable {m : Model} {es : List Occurrence} {fs : List Finding} {known : List ObjectKey}

theorem get?_modify (m : Model) (k : ObjectKey) (f : Object → Object) (hf : ∀ o, (f o).key = o.key)
    (l : ObjectKey) :
    (m.modify k f hf).get? l = if l = k then (m.get? k).map f else m.get? l :=
  Store.get?_modify m.indexed k f l

theorem isSome_displaced? (m : Model) (o : Object) : (m.displaced? o).isSome ↔ o.key ∈ m.keys := by
  rw [mem_keys_iff, displaced?, Store.fst_insert]
  rfl

theorem keys_define (m : Model) (location : String) (o : Object) : (m.define location o).keys =
    if o.key ∈ m.keys then m.keys else m.keys ++ [o.key] := by
  rw [keys, objects_define]
  exact keys_place o m.objects

theorem get?_define (m : Model) (location : String) (o : Object) (k : ObjectKey) :
    (m.define location o).get? k = if k = o.key then some o else m.get? k := by
  unfold define
  split <;> exact Store.get?_insert m.indexed o k

theorem warnings_define (m : Model) (location : String) (o : Object) :
    (m.define location o).warnings = m.warnings ++
      if o.key ∈ m.keys then [⟨location, duplicateMessage o.key⟩] else [] := by
  simp only [define, isSome_displaced?]
  split
  · exact congrArg (· ++ [_]) (m.toStore.warnings_insert o)
  · rw [List.append_nil]
    exact m.toStore.warnings_insert o

def report (m : Model) (e : Occurrence) : Model :=
  match e.error with
  | some message => m.warn e.location message
  | none => m

def record (m : Model) (e : Occurrence) : Model := (m.report e).define e.location e.object

theorem keys_report (m : Model) (e : Occurrence) : (m.report e).keys = m.keys := by
  unfold report
  split <;> rfl

theorem get?_report (m : Model) (e : Occurrence) (k : ObjectKey) :
    (m.report e).get? k = m.get? k := by
  unfold report
  split <;> rfl

theorem warnings_report (m : Model) (e : Occurrence) :
    (m.report e).warnings = m.warnings ++ (e.error.map (Warning.mk e.location)).toList := by
  unfold report
  split
  · next message h =>
      rw [h]
      rfl
  · next h => rw [h, Option.map_none, Option.toList_none, List.append_nil]

theorem addFinding_eq (m : Model) (f : Finding) :
    m.addFinding f = (f.occurrence?.map m.record).getD m := by
  cases f with
  | defined location found => cases found <;> rfl
  | unfinished => rfl

theorem foldl_addFinding (m : Model) (found : List Finding) :
    found.foldl addFinding m = (found.filterMap Finding.occurrence?).foldl record m := by
  induction found generalizing m with
  | nil => rfl
  | cons f found ih =>
      rw [List.foldl_cons, ih, addFinding_eq, List.filterMap_cons]
      cases f.occurrence? <;> rfl

structure Accounts (es : List Occurrence) (fs : List Finding) (m : Model) : Prop where
  keys : m.keys = (es.map Occurrence.key).eraseDups
  get? (k : ObjectKey) : m.get? k =
    (Occurrence.last? es k).map (fun e => fs.foldl Finding.fold e.object)
  warnings : m.warnings = Occurrence.allWarnings [] es

theorem accounts_empty : Accounts [] [] empty := ⟨rfl, fun _ => rfl, rfl⟩

namespace Accounts

theorem mem_keys_iff (h : Accounts es fs m) {k : ObjectKey} :
    k ∈ m.keys ↔ k ∈ es.map Occurrence.key := by
  rw [h.keys, List.mem_eraseDups]

theorem record (h : Accounts es fs m) {e : Occurrence}
    (hfolded : fs.foldl Finding.fold e.object = e.object) :
    Accounts (es ++ [e]) fs (m.record e) := by
  refine ⟨?_, fun k => ?_, ?_⟩
  · rw [Model.record, keys_define, keys_report, List.map_append, List.map_singleton,
      Lists.eraseDups_concat, ← h.keys]
    simp only [← h.mem_keys_iff]
    rfl
  · rw [Model.record, get?_define, get?_report, Occurrence.last?_concat, h.get?]
    by_cases hk : k = e.object.key
    · rw [if_pos hk, if_pos (show e.key = k from hk.symm), Option.map_some, hfolded]
    · rw [if_neg hk, if_neg (show e.key ≠ k from Ne.symm hk)]
  · rw [Model.record, warnings_define, keys_report, warnings_report, h.warnings, List.append_assoc,
      Occurrence.allWarnings_concat, List.nil_append, Occurrence.warnings]
    simp only [← h.mem_keys_iff]
    rfl

theorem recordAll (h : Accounts es [] m) (more : List Occurrence) :
    Accounts (es ++ more) [] (more.foldl Model.record m) := by
  induction more generalizing es m with
  | nil =>
      rw [List.append_nil]
      exact h
  | cons e more ih =>
      have happend : es ++ e :: more = (es ++ [e]) ++ more := by simp
      rw [happend]
      exact ih (h.record rfl)

/-- A finding that folds into none of the objects. -/
theorem skip (h : Accounts es fs m) {f : Finding}
    (hf : ∀ e ∈ es, Finding.fold (fs.foldl Finding.fold e.object) f =
      fs.foldl Finding.fold e.object) : Accounts es (fs ++ [f]) m := by
  refine ⟨h.keys, fun k => (h.get? k).trans ?_, h.warnings⟩
  refine Option.map_congr (fun e he => ?_)
  rw [List.foldl_concat, hf e (Occurrence.mem_of_last? he).1]

/-- A table is known if one of its keys came up. -/
theorem exists_table_iff (h : Accounts es fs m) {name : QualifiedName} :
    (∃ t, m.get? ⟨.table, name⟩ = some (.table t)) ↔ ⟨.table, name⟩ ∈ es.map Occurrence.key := by
  rw [← h.mem_keys_iff, Model.mem_keys_iff]
  constructor
  · rintro ⟨t, ht⟩
    rw [ht]
    rfl
  · intro hsome
    obtain ⟨o, ho⟩ := Option.isSome_iff_exists.1 hsome
    have hkind : o.kind = .table := congrArg ObjectKey.kind (get?_eq_some_iff.1 ho).2
    cases o with
    | table t => exact ⟨t, ho⟩
    | _ => cases hkind

theorem change (h : Accounts es fs m) {location : String} {name : QualifiedName}
    {changes : List TableChange} {raw : RawStatement} {t : Table}
    (ht : m.get? ⟨.table, name⟩ = some (.table t)) :
    Accounts es (fs ++ [.defined location (.change name changes raw)])
      (m.addChange (.defined location (.change name changes raw))) := by
  have hmodify : m.addChange (.defined location (.change name changes raw)) =
      m.modify ⟨.table, name⟩ (Object.changed changes) (Object.key_changed changes) := by
    simp only [addChange, ht]
  rw [hmodify]
  refine ⟨?_, fun k => ?_, ?_⟩
  · exact (Store.map_key_modify m.toStore _ (Object.key_changed changes)).trans h.keys
  · have hfold (e : Occurrence) (he : e.key = k) :
        (fs ++ [Finding.defined location (.change name changes raw)]).foldl Finding.fold e.object =
          if k = ⟨.table, name⟩ then (fs.foldl Finding.fold e.object).changed changes
          else fs.foldl Finding.fold e.object := by
      rw [List.foldl_concat, Finding.fold, Finding.key_foldl_fold, show e.object.key = k from he]
    have hfound : (Occurrence.last? es k).map (fun e =>
        (fs ++ [Finding.defined location (.change name changes raw)]).foldl Finding.fold e.object) =
          (Occurrence.last? es k).map (fun e =>
            if k = ⟨.table, name⟩ then (fs.foldl Finding.fold e.object).changed changes
            else fs.foldl Finding.fold e.object) :=
      Option.map_congr (fun e he => hfold e (Occurrence.mem_of_last? he).2)
    rw [get?_modify, hfound]
    split
    · next hk =>
        rw [← hk, h.get?, Option.map_map]
        rfl
    · exact h.get? k
  · exact (m.toStore.warnings_modify _ _).trans h.warnings

/-- A change to a table that did not come up is recorded as text. -/
theorem strand (h : Accounts es fs m) {location : String} {name : QualifiedName}
    {changes : List TableChange} {raw : RawStatement}
    (hnone : ⟨.table, name⟩ ∉ es.map Occurrence.key) :
    Accounts (es ++ [⟨location, .raw raw, none⟩])
      (fs ++ [.defined location (.change name changes raw)])
      (m.addChange (.defined location (.change name changes raw))) := by
  rw [addChange_of_unknown (not_exists.1 (fun ht => hnone (h.exists_table_iff.1 ht)))]
  have hskip : Accounts es (fs ++ [.defined location (.change name changes raw)]) m := by
    refine h.skip (fun e he => if_neg (fun hk => hnone ?_))
    rw [Finding.key_foldl_fold] at hk
    exact hk ▸ List.mem_map_of_mem he
  have hraw (t : Table) : Object.raw raw ≠ .table t := Object.noConfusion
  exact hskip.record (e := ⟨location, .raw raw, none⟩) (Finding.foldl_fold_of_not_table hraw _)

theorem addChange (h : Accounts es fs m)
    (hknown : ∀ name, ⟨.table, name⟩ ∈ es.map Occurrence.key ↔ ⟨.table, name⟩ ∈ known)
    (f : Finding) :
    Accounts (es ++ (f.stranded? known).toList) (fs ++ [f]) (m.addChange f) := by
  have hkeep : es ++ [] = es := List.append_nil es
  cases f with
  | unfinished => exact hkeep.symm ▸ h.skip (fun _ _ => rfl)
  | defined location found =>
      cases found with
      | object => exact hkeep.symm ▸ h.skip (fun _ _ => rfl)
      | change name changes raw =>
          rw [Finding.stranded?]
          split
          · next hmem =>
              obtain ⟨t, ht⟩ := h.exists_table_iff.2 ((hknown name).2 hmem)
              exact hkeep.symm ▸ h.change ht
          · next hmem => exact h.strand (fun hes => hmem ((hknown name).1 hes))

theorem addChanges (h : Accounts es [] m)
    (hknown : ∀ name, ⟨.table, name⟩ ∈ es.map Occurrence.key ↔ ⟨.table, name⟩ ∈ known)
    (fs : List Finding) :
    Accounts (es ++ fs.filterMap (Finding.stranded? known)) fs (fs.foldl Model.addChange m) := by
  induction fs using List.reverseRecOn with
  | nil =>
      rw [List.filterMap_nil, List.append_nil]
      exact h
  | append_singleton fs f ih =>
      rw [List.foldl_concat, List.filterMap_append, ← List.append_assoc]
      refine ih.addChange (fun name => ?_) f
      -- What is kept as text is no table.
      have hraw : ⟨.table, name⟩ ∉ (fs.filterMap (Finding.stranded? known)).map Occurrence.key := by
        intro hmem
        obtain ⟨e, he, hkey⟩ := List.mem_map.1 hmem
        have hkind := congrArg ObjectKey.kind hkey
        rw [Finding.kind_of_stranded he] at hkind
        cases hkind
      rw [List.map_append, List.mem_append, or_iff_left hraw]
      exact hknown name

end Accounts

theorem accounts_ofFindings (found : List Finding) :
    Accounts (Finding.occurrences found) found (ofFindings found) := by
  have hdefined :
      Accounts (found.filterMap Finding.occurrence?) [] (found.foldl addFinding empty) := by
    rw [foldl_addFinding]
    exact accounts_empty.recordAll (found.filterMap Finding.occurrence?)
  exact hdefined.addChanges (fun name => Iff.rfl) found

end Model

end SchemaDrift
