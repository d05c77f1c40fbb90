import SchemaDrift.Proofs.Lookup
import SchemaDrift.Proofs.Seam
import SchemaDrift.Script

namespace SchemaDrift

variable {d : Dialect} {m n : Model}

def Statement.Item.text? : Statement.Item → Option String
  | .ok s => some s.text
  | .error _ => none

namespace Finding

def said : Finding → Definition ⊕ RawStatement
  | .defined _ d => .inl d
  | .unfinished _ _ raw => .inr raw

def reading (d : Dialect) : Statement.Item → Except Fault (Option (Definition ⊕ RawStatement))
  | .ok s => (Definition.ofStatement? d s.text).map (Option.map .inl)
  | .error u => (Grammar.rawStatement d u.snippet.toList).map (some ∘ .inr)

def readings (d : Dialect) :
    List Statement.Item → Except Fault (List (Definition ⊕ RawStatement))
  | [] => .ok []
  | item :: items => do return (← reading d item).toList ++ (← readings d items)

theorem reading_of_text? {item : Statement.Item} {text : String} (h : item.text? = some text) :
    reading d item = (Definition.ofStatement? d text).map (Option.map .inl) := by
  cases item with
  | ok s => rw [reading, Option.some.inj h]
  | error => cases h

theorem map_said_ofItem (label : String) (item : Statement.Item) :
    (ofItem d label item).map (Option.map said) = reading d item := by
  cases item with
  | ok s =>
      simp only [ofItem, reading]
      cases Definition.ofStatement? d s.text with
      | error e => rfl
      | ok found => cases found <;> rfl
  | error u =>
      simp only [ofItem, reading]
      cases Grammar.rawStatement d u.snippet.toList <;> rfl

theorem map_said_ofItems (label : String) (items : List Statement.Item) :
    (ofItems d label items).map (List.map said) = readings d items := by
  induction items with
  | nil => rfl
  | cons item items ih =>
      rw [ofItems, readings, ← map_said_ofItem label, ← ih]
      cases ofItem d label item with
      | error e => rfl
      | ok found =>
          cases ofItems d label items with
          | error e => rfl
          | ok rest => cases found <;> rfl

theorem readings_append (xs ys : List Statement.Item) :
    readings d (xs ++ ys) = do return (← readings d xs) ++ (← readings d ys) := by
  induction xs with
  | nil => cases h : readings d ys <;> simp [readings, h] <;> rfl
  | cons x xs ih =>
      rw [List.cons_append, readings, readings, ih]
      cases reading d x with
      | error e => rfl
      | ok found =>
          cases readings d xs with
          | error e => rfl
          | ok rest =>
              cases readings d ys with
              | error e => rfl
              | ok more => exact congrArg Except.ok (List.append_assoc _ _ _).symm

theorem reading_shift (p : List Char) (item : Statement.Item) :
    reading d (Statement.Item.shift p item) = reading d item := by
  cases item <;> rfl

theorem readings_shift (p : List Char) (items : List Statement.Item) :
    readings d (items.map (Statement.Item.shift p)) = readings d items := by
  induction items with
  | nil => rfl
  | cons item items ih => rw [List.map_cons, readings, readings, reading_shift, ih]

theorem map_said_ofScripts (scripts : List Script) :
    (ofScripts d scripts).map (List.map said) =
      readings d (scripts.flatMap (fun s => Statement.split d s.sql)) := by
  induction scripts with
  | nil => rfl
  | cons s scripts ih =>
      rw [ofScripts, List.flatMap_cons, readings_append, ← ih, ← map_said_ofItems s.label]
      cases ofItems d s.label (Statement.split d s.sql) with
      | error e => rfl
      | ok found =>
          cases ofScripts d scripts with
          | error e => rfl
          | ok rest => exact congrArg Except.ok List.map_append

end Finding

namespace Model

theorem objects_addFinding (h : m.objects = n.objects) {f g : Finding} (hfg : f.said = g.said) :
    (m.addFinding f).objects = (n.addFinding g).objects := by
  cases f with
  | defined _ f =>
      cases g with
      | unfinished => cases hfg
      | defined _ g =>
          cases hfg
          cases f with
          | object o => simp only [addFinding, objects_define, h]
          | change => exact h
  | unfinished _ _ raw =>
      cases g with
      | defined => cases hfg
      | unfinished _ _ raw' =>
          cases hfg
          simp only [addFinding, objects_define]
          exact congrArg (place _) h

theorem objects_addChange (h : m.objects = n.objects) {f g : Finding} (hfg : f.said = g.said) :
    (m.addChange f).objects = (n.addChange g).objects := by
  cases f with
  | defined _ f =>
      cases g with
      | unfinished => cases hfg
      | defined _ g =>
          cases hfg
          cases f with
          | object o => exact h
          | change name changes raw =>
              have hget : m.get? ⟨.table, name⟩ = n.get? ⟨.table, name⟩ := by
                rw [get?_eq_find?, get?_eq_find?, h]
              by_cases ht : ∃ t, m.get? ⟨.table, name⟩ = some (.table t)
              · obtain ⟨t, ht⟩ := ht
                rw [objects_addChange_of_table ht, objects_addChange_of_table (hget ▸ ht), h]
              · have hn : ∀ t, n.get? ⟨.table, name⟩ ≠ some (.table t) :=
                  fun t hn => ht ⟨t, hget.trans hn⟩
                rw [addChange_of_unknown (not_exists.1 ht), addChange_of_unknown hn,
                  objects_define, objects_define, h]
  | unfinished =>
      cases g with
      | defined => cases hfg
      | unfinished => exact h

theorem objects_foldl {step : Model → Finding → Model}
    (hstep : ∀ {m n : Model}, m.objects = n.objects → ∀ {f g : Finding}, f.said = g.said →
      (step m f).objects = (step n g).objects)
    {fs gs : List Finding} (hfg : fs.map Finding.said = gs.map Finding.said)
    (h : m.objects = n.objects) : (fs.foldl step m).objects = (gs.foldl step n).objects := by
  induction fs generalizing gs m n with
  | nil =>
      rw [List.map_eq_nil_iff.1 hfg.symm]
      exact h
  | cons f fs ih =>
      cases gs with
      | nil => cases hfg
      | cons g gs =>
          obtain ⟨hf, hfs⟩ := List.cons.inj hfg
          rw [List.foldl_cons, List.foldl_cons]
          exact ih hfs (hstep h hf)

/-- The objects of a model depend on what was said, and not on where. -/
theorem objects_ofFindings {fs gs : List Finding}
    (h : fs.map Finding.said = gs.map Finding.said) :
    (ofFindings fs).objects = (ofFindings gs).objects :=
  objects_foldl objects_addChange h (objects_foldl objects_addFinding h rfl)

theorem objects_ofScripts {scripts scripts' : List Script}
    (h : Finding.readings d (scripts.flatMap (fun s => Statement.split d s.sql)) =
      Finding.readings d (scripts'.flatMap (fun s => Statement.split d s.sql))) :
    (ofScripts d scripts).map objects = (ofScripts d scripts').map objects := by
  rw [← Finding.map_said_ofScripts, ← Finding.map_said_ofScripts] at h
  unfold ofScripts
  cases hs : Finding.ofScripts d scripts with
  | error e =>
      cases hs' : Finding.ofScripts d scripts' with
      | error e' =>
          rw [hs, hs'] at h
          cases h
          rfl
      | ok gs =>
          rw [hs, hs'] at h
          cases h
  | ok fs =>
      cases hs' : Finding.ofScripts d scripts' with
      | error e' =>
          rw [hs, hs'] at h
          cases h
      | ok gs =>
          rw [hs, hs'] at h
          exact congrArg Except.ok (objects_ofFindings (Except.ok.inj h))

end Model

namespace Finding

/-- One script made of many says what they say. -/
theorem readings_intercalate {texts : List String}
    (h : ∀ t ∈ texts.dropLast, Statement.Settled d t) :
    readings d (Statement.split d ("\n;\n".intercalate texts)) =
      readings d (texts.flatMap (Statement.split d)) := by
  induction texts with
  | nil =>
      rw [String.intercalate_nil, Statement.split_empty]
      rfl
  | cons a texts ih =>
      cases texts with
      | nil => rw [String.intercalate_singleton, List.flatMap_singleton]
      | cons b texts =>
          obtain ⟨ha, htexts⟩ := List.forall_mem_cons.1 h
          rw [String.intercalate_cons_cons, ← Statement.join, Statement.split_join ha,
            List.flatMap_cons, readings_append, readings_append, readings_shift, ih htexts]

end Finding

/-- Scripts come to the same objects, in the same order, when they are read as one. -/
theorem objects_ofScripts_intercalate (d : Dialect) :
    (∀ a b : String, Statement.Settled d a →
      Statement.split d (a ++ "\n;\n" ++ b) = Statement.split d a ++
        (Statement.split d b).map (Statement.Item.shift (a ++ "\n;\n").toList)) ∧
    ∀ (label : String) (scripts : List Script),
      (∀ s ∈ scripts.dropLast, Statement.Settled d s.sql) →
        (Model.ofScripts d scripts).map Model.objects =
          (Model.ofScripts d [⟨label, "\n;\n".intercalate (scripts.map Script.sql)⟩]).map
            Model.objects := by
  constructor
  · intro a b ha
    exact Statement.split_join ha b
  · intro label scripts h
    apply Model.objects_ofScripts
    rw [List.flatMap_singleton, Finding.readings_intercalate, List.flatMap_map]
    rw [← List.map_dropLast]
    exact List.forall_mem_map.2 h

def triggerScript : String :=
  "DELIMITER //\nCREATE TRIGGER g BEGIN SET x = ';'; END//\nDELIMITER ;\nCREATE TABLE t (id INT) -- t"

def viewScript : String := "CREATE VIEW v AS SELECT id FROM t;\nBEGIN x"

theorem objects_ofScripts_intercalate_triggerScript :
    Statement.Settled .mySql triggerScript ∧
      (Statement.split .mySql triggerScript).length = 2 ∧
      Statement.split .mySql (triggerScript ++ "\n;\n" ++ viewScript) =
        Statement.split .mySql triggerScript ++ (Statement.split .mySql viewScript).map
          (Statement.Item.shift (triggerScript ++ "\n;\n").toList) ∧
      (Model.ofScripts .mySql [⟨"a.sql", triggerScript⟩, ⟨"b.sql", viewScript⟩]).map
          Model.objects =
        (Model.ofScripts .mySql
          [⟨"all.sql", "\n;\n".intercalate [triggerScript, viewScript]⟩]).map Model.objects := by
  have h : Statement.Settled .mySql triggerScript := ⟨by decide +kernel, by decide +kernel⟩
  obtain ⟨hsplit, hmodel⟩ := objects_ofScripts_intercalate .mySql
  refine ⟨h, by decide +kernel, hsplit _ viewScript h, ?_⟩
  refine hmodel "all.sql" [⟨"a.sql", triggerScript⟩, ⟨"b.sql", viewScript⟩] ?_
  intro s hs
  rw [List.mem_singleton.1 hs]
  exact h

end SchemaDrift
