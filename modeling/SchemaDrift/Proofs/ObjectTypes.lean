import SchemaDrift.Compare
import SchemaDrift.Proofs.Outcomes
import SchemaDrift.Proofs.Restriction

namespace SchemaDrift

namespace KindList

def Names (text : String) (k : Kind) : Prop := ∃ item ∈ commaItems text, Kind.ofName? item = some k

theorem mem_kinds_add {l : KindList} {item : String} {k : Kind} :
    k ∈ (l.add item).kinds ↔ k ∈ l.kinds ∨ Kind.ofName? item = some k := by
  unfold add
  cases h : Kind.ofName? item with
  | none => simp
  | some j =>
      simp only [Option.some.injEq]
      split
      · next hj => exact ⟨.inl, fun hk => hk.elim id (· ▸ List.contains_iff_mem.1 hj)⟩
      · rw [List.mem_append, List.mem_singleton, eq_comm (a := k)]

theorem mem_kinds_foldl {items : List String} {l : KindList} {k : Kind} :
    k ∈ (items.foldl add l).kinds ↔ k ∈ l.kinds ∨ ∃ item ∈ items, Kind.ofName? item = some k := by
  induction items generalizing l with
  | nil => simp
  | cons item items ih =>
      simp only [List.foldl_cons, ih, mem_kinds_add, or_assoc, List.mem_cons, exists_eq_or_imp]

theorem mem_kinds_ofText {text : String} {k : Kind} :
    k ∈ (ofText text).kinds ↔ Names text k := by
  rw [ofText, ofItems, mem_kinds_foldl, or_iff_right (show k ∉ empty.kinds from List.not_mem_nil)]
  rfl

end KindList

namespace Layer

def kindText? (es : Toml.Entries) : Option String := do
  let compare ← section? es "compare" ["dialect", "object_types", "detect_renames"]
  let items ← field? compare "object_types" strings?
  items.map (String.intercalate ",")

theorem objectTypes_ofEntries? {es : Toml.Entries} {r : Reading} (h : ofEntries? es = some r) :
    r.layer.objectTypes = (kindText? es).map (fun s => (KindList.ofText s).kinds) := by
  unfold ofEntries? at h
  obtain ⟨compare, hcompare, h⟩ := Option.bind_eq_some_iff.1 h
  obtain ⟨database, -, h⟩ := Option.bind_eq_some_iff.1 h
  obtain ⟨reading, -, h⟩ := Option.bind_eq_some_iff.1 h
  obtain ⟨items, hitems, h⟩ := Option.bind_eq_some_iff.1 h
  have hkinds : kindText? es = items.map (String.intercalate ",") := by
    simp only [kindText?, hcompare, hitems, Option.bind_eq_bind, Option.bind_some]
  obtain ⟨mode, -, h⟩ := Option.bind_eq_some_iff.1 h
  obtain ⟨dialectName, -, h⟩ := Option.bind_eq_some_iff.1 h
  obtain ⟨detectRenames, -, h⟩ := Option.bind_eq_some_iff.1 h
  obtain ⟨url, -, h⟩ := Option.bind_eq_some_iff.1 h
  obtain ⟨schema, -, h⟩ := Option.bind_eq_some_iff.1 h
  obtain ⟨connectRetries, -, h⟩ := Option.bind_eq_some_iff.1 h
  obtain ⟨connectTimeout, -, h⟩ := Option.bind_eq_some_iff.1 h
  obtain ⟨statementTimeout, -, h⟩ := Option.bind_eq_some_iff.1 h
  obtain ⟨keepalive, -, h⟩ := Option.bind_eq_some_iff.1 h
  obtain ⟨introspectTimeout, -, h⟩ := Option.bind_eq_some_iff.1 h
  obtain ⟨parallelThreshold, -, h⟩ := Option.bind_eq_some_iff.1 h
  obtain rfl := Option.some.inj h
  rw [hkinds, Option.map_map]
  cases items <;> rfl

end Layer

namespace Settings

def listInFile? (fs : FileSystem) (path? : Option String) : Option String := do
  let (text, _) ← textAt? fs (path?.getD defaultPath)
  Layer.kindText? (← Toml.parse? text)

/-- The list of object types that counts: that of the caller, or else of the environment, or else
of the settings file. -/
def listInForce? (fs : FileSystem) (env : Environment) (path? : Option String) (o : Overrides) :
    Option String :=
  o.objectTypes <|> env.lookup (variableName "OBJECT_TYPES") <|> listInFile? fs path?

variable {fs : FileSystem} {env : Environment} {path? : Option String} {o : Overrides}

theorem objectTypes_fileLayer {r : Layer.Reading} (h : fileLayer fs path? = .ok r) :
    r.layer.objectTypes = (listInFile? fs path?).map (fun s => (KindList.ofText s).kinds) := by
  simp only [fileLayer] at h
  cases htext : textAt? fs (path?.getD defaultPath) with
  | none =>
      rw [htext] at h
      dsimp only at h
      split at h
      · cases h
      · obtain rfl := Except.ok.inj h
        simp [listInFile?, htext]
  | some found =>
      obtain ⟨text, permissions⟩ := found
      rw [htext] at h
      dsimp only at h
      split at h
      · next reading hreading =>
          obtain rfl := Except.ok.inj h
          obtain ⟨es, hes, hreading⟩ := Option.bind_eq_some_iff.1 hreading
          simp [Layer.objectTypes_ofEntries? hreading, listInFile?, htext, hes]
      · cases h

theorem objectTypes_capRetries (s : Settings) :
    s.capRetries.1.objectTypes = s.objectTypes := by
  rw [capRetries]
  split <;> rfl

theorem objectTypes_layer {l : Layer} (h : o.layer = .ok l) :
    l.objectTypes = o.objectTypes.map (fun s => (KindList.ofText s).kinds) := by
  unfold Overrides.layer at h
  obtain ⟨mode, -, h⟩ := Outcome.bind_eq_ok.1 h
  obtain rfl := Except.ok.inj h
  rw [Overrides.kinds?, Option.map_map]
  rfl

theorem objectTypes_load {s : Settings} {ws : List String} (h : load fs env path? o = .ok (s, ws)) :
    s.objectTypes =
      ((listInForce? fs env path? o).map (fun s => (KindList.ofText s).kinds)).getD [] := by
  unfold load at h
  obtain ⟨file, hfile, h⟩ := Outcome.bind_eq_ok.1 h
  obtain ⟨layer, hlayer, h⟩ := Outcome.bind_eq_ok.1 h
  obtain ⟨-, -, h⟩ := Outcome.bind_eq_ok.1 h
  have hs : s = ((((({} : Settings).overlay file.layer).overlay
      (Layer.ofEnvironment env).layer).overlay layer).capRetries).1 :=
    (congrArg Prod.fst (Except.ok.inj h)).symm
  rw [hs, objectTypes_capRetries, listInForce?]
  simp only [overlay, Layer.ofEnvironment, objectTypes_layer hlayer, objectTypes_fileLayer hfile]
  cases o.objectTypes <;> cases env.lookup (variableName "OBJECT_TYPES") <;>
    cases listInFile? fs path? <;> rfl

end Settings

namespace Report

inductive Comparison
  | files (source target : List String)
  | catalog (rows : Catalog) (target : List String)

def Comparison.report (fs : FileSystem) (s : Settings) : Comparison → Except Error Report
  | files source target => ofFiles fs s source target
  | catalog rows target => ofCatalog fs s rows target

/-- The object types decide only what is left of the two models, not which models these are. -/
theorem Comparison.exists_models {fs : FileSystem} {s : Settings} {x : Comparison} {r : Report}
    (h : x.report fs s = .ok r) :
    ∃ source target : Model, ∀ kinds, ∃ r', x.report fs { s with objectTypes := kinds } = .ok r' ∧
      r'.plan = Plan.between s.detectRenames (source.filter kinds) (target.filter kinds) := by
  cases x with
  | files source target =>
      obtain ⟨d, hd, h⟩ := Outcome.bind_eq_ok.1 (show ofFiles fs s source target = .ok r from h)
      obtain ⟨sourceScripts, hsource, h⟩ := Outcome.bind_eq_ok.1 h
      obtain ⟨targetScripts, htarget, h⟩ := Outcome.bind_eq_ok.1 h
      obtain ⟨before, hbefore, h⟩ := Outcome.bind_eq_ok.1 h
      obtain ⟨after, hafter, h⟩ := Outcome.bind_eq_ok.1 h
      refine ⟨before.model, after.model, fun kinds =>
        ⟨ofSubjects d kinds s.detectRenames before after [] [], ?_, rfl⟩⟩
      exact Outcome.bind_eq_ok.2 ⟨d, hd, Outcome.bind_eq_ok.2 ⟨sourceScripts, hsource,
        Outcome.bind_eq_ok.2 ⟨targetScripts, htarget, Outcome.bind_eq_ok.2 ⟨before, hbefore,
          Outcome.bind_eq_ok.2 ⟨after, hafter, rfl⟩⟩⟩⟩⟩
  | catalog rows target =>
      obtain ⟨d, hd, h⟩ := Outcome.bind_eq_ok.1 (show ofCatalog fs s rows target = .ok r from h)
      obtain ⟨scripts, hscripts, h⟩ := Outcome.bind_eq_ok.1 h
      obtain ⟨live, hlive, h⟩ := Outcome.bind_eq_ok.1 h
      obtain ⟨after, hafter, h⟩ := Outcome.bind_eq_ok.1 h
      refine ⟨live, after.model, fun kinds =>
        ⟨ofLive d { s with objectTypes := kinds } live after, ?_, rfl⟩⟩
      exact Outcome.bind_eq_ok.2 ⟨d, hd, Outcome.bind_eq_ok.2 ⟨scripts, hscripts,
        Outcome.bind_eq_ok.2 ⟨live, hlive, Outcome.bind_eq_ok.2 ⟨after, hafter, rfl⟩⟩⟩⟩

variable {fs : FileSystem} {env : Environment} {path? : Option String} {o : Overrides}
  {s : Settings} {ws : List String} {text : String} {x : Comparison} {r : Report}

/-- A list of object types that names a kind leaves of the whole comparison the operations on the
kinds that it names, and no other. A list that names none leaves all of it. -/
theorem objectTypes_restrict (hload : Settings.load fs env path? o = .ok (s, ws))
    (htext : Settings.listInForce? fs env path? o = some text) (hreport : x.report fs s = .ok r) :
    ∃ whole, x.report fs { s with objectTypes := [] } = .ok whole ∧
      ((∃ k, KindList.Names text k) →
        (∀ op ∈ r.plan.operations, KindList.Names text op.kind) ∧
        r.plan.operations.Perm (whole.plan.operations.filter
          (fun op => (KindList.ofText text).kinds.contains op.kind))) ∧
      ((∀ k, ¬ KindList.Names text k) → r.plan = whole.plan) := by
  have hkinds : s.objectTypes = (KindList.ofText text).kinds := by
    rw [Settings.objectTypes_load hload, htext]
    rfl
  obtain ⟨source, target, hmodels⟩ := Comparison.exists_models hreport
  obtain ⟨whole, hwhole, hwholePlan⟩ := hmodels []
  obtain ⟨r', hr', hplan⟩ := hmodels s.objectTypes
  obtain rfl : r = r' := Except.ok.inj (hreport.symm.trans hr')
  have hperm := Plan.perm_operations_filter s.detectRenames s.objectTypes source target
  rw [← hplan, hkinds] at hperm
  rw [hkinds] at hplan
  change whole.plan = Plan.between s.detectRenames source target at hwholePlan
  rw [← hwholePlan] at hperm
  refine ⟨whole, hwhole, fun ⟨k, hk⟩ => ?_, fun hnone => ?_⟩
  · have hmem : k ∈ (KindList.ofText text).kinds := KindList.mem_kinds_ofText.2 hk
    have hcompared (j : Kind) : j.isCompared (KindList.ofText text).kinds =
        (KindList.ofText text).kinds.contains j := by
      rw [Kind.isCompared, List.isEmpty_eq_false_iff.2 (List.ne_nil_of_mem hmem), Bool.false_or]
    simp only [hcompared] at hperm
    refine ⟨fun op hop => ?_, hperm⟩
    have hop := (List.mem_filter.1 (hperm.mem_iff.1 hop)).2
    exact KindList.mem_kinds_ofText.1 (List.contains_iff_mem.1 hop)
  · have hnil : (KindList.ofText text).kinds = [] :=
      List.eq_nil_iff_forall_not_mem.2 (fun k hk => hnone k (KindList.mem_kinds_ofText.1 hk))
    rw [hplan, hwholePlan, hnil]
    rfl

def tableToView : FileSystem :=
  ((FileSystem.empty []).addFile "old.sql" "CREATE TABLE t (a int);".toUTF8 0o600).addFile
    "new.sql" "CREATE VIEW v AS SELECT 1;".toUTF8 0o600

def asking (list : String) : Overrides :=
  { dialectName := some "postgres", objectTypes := some list }

def oldToNew : Comparison := .files ["old.sql"] ["new.sql"]

def kindsOldToNew (list : String) : Except Error (List Kind) := do
  let (s, _) ← Settings.load tableToView [] none (asking list)
  return (← oldToNew.report tableToView s).plan.operations.map (·.kind)

theorem exists_report_of_kindsOldToNew {list : String} {kinds : List Kind}
    (h : kindsOldToNew list = .ok kinds) :
    ∃ s ws r, Settings.load tableToView [] none (asking list) = .ok (s, ws) ∧
      oldToNew.report tableToView s = .ok r ∧ r.plan.operations.map (·.kind) = kinds := by
  obtain ⟨⟨s, ws⟩, hload, h⟩ := Outcome.bind_eq_ok.1 h
  obtain ⟨r, hreport, h⟩ := Outcome.bind_eq_ok.1 h
  exact ⟨s, ws, r, hload, hreport, Except.ok.inj h⟩

/-- An item that names no kind, beside one that does. -/
theorem objectTypes_restrict_someUnknown : ∃ s ws r whole,
    Settings.load tableToView [] none (asking "views, bogus") = .ok (s, ws) ∧
    Settings.listInForce? tableToView [] none (asking "views, bogus") = some "views, bogus" ∧
    oldToNew.report tableToView s = .ok r ∧
    oldToNew.report tableToView { s with objectTypes := [] } = .ok whole ∧
    KindList.Names "views, bogus" .view ∧
    r.plan.operations.map (·.kind) = [.view] ∧
    ∀ op ∈ r.plan.operations, KindList.Names "views, bogus" op.kind := by
  have hkinds : kindsOldToNew "views, bogus" = .ok [.view] := by decide +kernel
  obtain ⟨s, ws, r, hload, hreport, hview⟩ := exists_report_of_kindsOldToNew hkinds
  obtain ⟨whole, hwhole, hnamed, -⟩ := objectTypes_restrict hload rfl hreport
  have hnames : KindList.Names "views, bogus" .view := ⟨"views", by decide +kernel, by decide +kernel⟩
  exact ⟨s, ws, r, whole, hload, rfl, hreport, hwhole, hnames, hview, (hnamed ⟨.view, hnames⟩).1⟩

/-- A list of which every item is unknown is as good as none: the table is compared as well. -/
theorem unknown_objectTypes_widen : ¬ ∀ (fs : FileSystem) (env : Environment)
    (path? : Option String) (o : Overrides) (s : Settings) (ws : List String) (text : String)
    (x : Comparison) (r : Report), Settings.load fs env path? o = .ok (s, ws) →
    Settings.listInForce? fs env path? o = some text → commaItems text ≠ [] →
    x.report fs s = .ok r → ∀ op ∈ r.plan.operations, KindList.Names text op.kind := by
  intro h
  have hkinds : kindsOldToNew "tabels" = .ok [.table, .view] := by decide +kernel
  obtain ⟨s, ws, r, hload, hreport, hboth⟩ := exists_report_of_kindsOldToNew hkinds
  have htable : Kind.table ∈ r.plan.operations.map (·.kind) := by
    rw [hboth]
    exact List.mem_cons_self
  obtain ⟨op, hop, hkind⟩ := List.mem_map.1 htable
  obtain ⟨item, hitem, hname⟩ := h _ _ _ _ s ws "tabels" oldToNew r hload rfl (by decide +kernel)
    hreport op hop
  have hitems : commaItems "tabels" = ["tabels"] := by decide +kernel
  rw [hitems, List.mem_singleton] at hitem
  subst hitem
  have hnone : Kind.ofName? "tabels" = none := by decide +kernel
  rw [hnone] at hname
  cases hname

end Report

end SchemaDrift
