import SchemaDrift.Proofs.Dependence

namespace SchemaDrift

open Relation

namespace Plan

variable {detectRenames : Bool} {source target : Model} {k : ObjectKey} {o : Object}

/-- How a plan comes to drop a relation, by the operation `op`, that the definition `o` in force
under `k` still names. The relation is replaced, and the plan never drops the object. Or one of
another kind has its name in the target, which the object names there too, and the object is left
alone or is as the target has it. Or the object is a view that is left alone, since its query reads
the same, though another reading of it named the relation no more. Or the drop waited for an
operation in vain, behind a cycle. -/
inductive Hazard (detectRenames : Bool) (source target : Model) (op : Operation) (k : ObjectKey) :
    Object → Prop
  | standing {o : Object} (old : source.get? k = some o) (replaced : op.key ∈ target.keys)
      (kept : ∀ p ∈ (between detectRenames source target).operations,
        p.key = k → p.action ≠ .drop) : Hazard detectRenames source target op k o
  | turned {o new : Object} (gone : op.key ∉ target.keys) (another : target.HasRelation op.name)
      (found : target.get? k = some new) (names : op.name ∈ new.dependencies)
      (stays : o = new ∨
        source.get? k = some o ∧ operationsOn detectRenames source target k = []) :
      Hazard detectRenames source target op k o
  | overlooked {v w : View} (old : source.get? k = some (.view v))
      (alone : operationsOn detectRenames source target k = [])
      (found : target.get? k = some (.view w)) (same : v.query = w.query)
      (unnamed : op.name ∉ (Object.view w).dependencies) :
      Hazard detectRenames source target op k (.view v)
  | cycle {o : Object} {z s : Step} (old : source.get? k = some o) (drop : s.operation = op)
      (around : TransGen (Edge detectRenames source target) z z)
      (leads : ReflTransGen (Edge detectRenames source target) z s) :
      Hazard detectRenames source target op k o

/-- No relation is dropped while a definition in force names it. -/
def Safe (detectRenames : Bool) (source target : Model) : Prop :=
  ∀ before op after, (between detectRenames source target).operations = before ++ op :: after →
    op.action = .drop → op.kind.isRelation = true →
    ∀ k o, inForce source target before k = some o → op.name ∉ o.dependencies

section Drop

variable {before after : List Step} {s t : Step}

theorem mem_of_ordered_eq {l : List Step}
    (hl : Step.ordered (steps detectRenames source target) = l) :
    t ∈ l ↔ t ∈ steps detectRenames source target := by
  rw [← hl]
  exact (Step.perm_ordered _).mem_iff

theorem cycle_of_waiting
    (hl : Step.ordered (steps detectRenames source target) = before ++ s :: after) (ht : t ∈ after)
    (hts : Edge detectRenames source target t s) :
    ∃ z, TransGen (Edge detectRenames source target) z z ∧
      ReflTransGen (Edge detectRenames source target) z s := by
  have hgreedy := Step.isGreedy_ordered (nodup_steps detectRenames source target)
  rw [hl] at hgreedy
  obtain ⟨-, -, z, hz, hzt⟩ := hgreedy.behind_cycle ht hts
  have hzt := ReflTransGen.mono (fun _ _ hij => hij.2.2) z t hzt
  exact ⟨z, Greedy.transGen_of_among hz, hzt.tail hts⟩

/-- What needs a relation to be created anew is not done before the old one is dropped: a step that
passes over one that it waits for is the first of all that is left, and drops go first. -/
theorem not_mem_before_of_create
    (hl : Step.ordered (steps detectRenames source target) = before ++ s :: after)
    (hs : s.action = .drop) {c : Step} (hc : c ∈ steps detectRenames source target)
    (hca : c.action = .create) (hck : c.operation.key = s.operation.key)
    (ht : t.action ≠ .drop) (hct : Step.Requires (steps detectRenames source target) c t) :
    t ∉ before := by
  intro hmem
  have hgreedy := Step.isGreedy_ordered (nodup_steps detectRenames source target)
  have hpairs := Step.pairwise_ordered (steps detectRenames source target)
  rw [hl] at hgreedy hpairs
  have hcbefore : c ∉ before := fun hcb =>
    (List.pairwise_append.1 hpairs).2.2 c hcb s List.mem_cons_self ⟨hca, hs, hck⟩
  have hcafter : c ∈ s :: after :=
    (List.mem_append.1 ((mem_of_ordered_eq hl).2 hc)).resolve_left hcbefore
  have hne : c ≠ t := fun h => hcbefore (h ▸ hmem)
  have htmem := (mem_of_ordered_eq hl).1 (List.mem_append_left _ hmem)
  obtain ⟨first, second, rfl⟩ := List.append_of_mem hmem
  rw [List.append_assoc, List.cons_append] at hgreedy
  have hfirst := (hgreedy.behind_cycle (List.mem_append_right second hcafter)
    ⟨hc, htmem, hne, hct⟩).2.1 s (List.mem_append_right second List.mem_cons_self)
  rw [Step.priority, Step.priority, hs, Prod.Lex.toLex_le_toLex] at hfirst
  cases ha : t.action <;> simp_all [Action.rank]

theorem hasRelation_of_names (hsupplies : target.Supplies source)
    (hsteps : s ∈ steps detectRenames source target) (hs : s.action = .drop)
    (hrelation : s.operation.kind.isRelation = true) (ho : o ∈ target.objects)
    (hnames : s.operation.name ∈ o.dependencies) : target.HasRelation s.operation.name := by
  have hfits := fits_of_mem_steps hsteps
  rw [← hfits.name_eq]
  exact hsupplies s.object (hfits.old hs) (hfits.kind_eq ▸ hrelation)
    ⟨o, ho, hfits.name_eq ▸ hnames⟩

/-- A definition in force that names what is dropped is that of the source, unless the name stays
with a relation of another kind: no definition of the target is brought in before the relations of
one kind that it names have come to stay. -/
theorem source_or_hazard (hsupplies : target.Supplies source)
    (hl : Step.ordered (steps detectRenames source target) = before ++ s :: after)
    (hs : s.action = .drop) (hrelation : s.operation.kind.isRelation = true)
    (ho : inForce source target (before.map Step.operation) k = some o)
    (hnames : s.operation.name ∈ o.dependencies) :
    (source.get? k = some o ∧ ∀ t ∈ before, t.operation.key ≠ k) ∨
      Hazard detectRenames source target s.operation k o := by
  have hmem {t : Step} (ht : t ∈ before ++ s :: after) : t ∈ steps detectRenames source target :=
    (mem_of_ordered_eq hl).1 ht
  rcases inForce_cases ho with ⟨hsource, hnone⟩ | ⟨htarget, p, hp, hpk, hpa⟩
  · exact .inl ⟨hsource, fun t ht => hnone _ (List.mem_map_of_mem ht)⟩
  · obtain ⟨t, ht, rfl⟩ := List.mem_map.1 hp
    have hfits := fits_of_mem_steps (hmem (List.mem_append_left _ ht))
    have hobject : t.object = o := Model.eq_of_get? htarget (hfits.new hpa) (hfits.key_eq.trans hpk)
    have hsteps : s ∈ steps detectRenames source target := hmem (by simp)
    by_cases hkey : s.operation.key ∈ target.keys
    · obtain ⟨p, hp, hpc⟩ := exists_create_of_drop (operation_mem_operationsOn hsteps) hs hkey
      obtain ⟨c, hc, rfl, hck⟩ := exists_step_of_mem_operationsOn hp
      have hcnames : c.Names s.operation.name := by
        have hkind : c.operation.kind = s.operation.kind := congrArg ObjectKey.kind hck
        exact ⟨hkind ▸ hrelation, congrArg ObjectKey.name hck⟩
      have hct : Step.Requires (steps detectRenames source target) c t :=
        .creation s.operation.name hpc hpa (hobject ▸ hnames) hcnames
      exact absurd ht (not_mem_before_of_create hl hs hc hpc hck hpa hct)
    · have hanother := hasRelation_of_names hsupplies hsteps hs hrelation
        (Model.get?_eq_some_iff.1 htarget).1 hnames
      exact .inr (.turned hkey hanother htarget hnames (.inl rfl))

theorem hazard_of_waiting (ho : source.get? k = some o)
    (hl : Step.ordered (steps detectRenames source target) = before ++ s :: after)
    (ht : t ∈ steps detectRenames source target) (htbefore : t ∉ before) (hts : t ≠ s)
    (hreq : Step.Requires (steps detectRenames source target) t s) :
    Hazard detectRenames source target s.operation k o := by
  have hsteps : s ∈ steps detectRenames source target := (mem_of_ordered_eq hl).1 (by simp)
  have htafter : t ∈ s :: after :=
    (List.mem_append.1 ((mem_of_ordered_eq hl).2 ht)).resolve_left htbefore
  have htafter : t ∈ after := (List.mem_cons.1 htafter).resolve_left hts
  obtain ⟨z, hz, hzs⟩ := cycle_of_waiting hl htafter ⟨ht, hsteps, hts, hreq⟩
  exact .cycle ho rfl hz hzs

/-- An object of the source is dropped or altered before what it names is dropped, unless what it
names is replaced, it is left alone or a cycle is broken. -/
theorem hazard_of_drop (hacyclic : source.Acyclic) (hsupplies : target.Supplies source)
    (hl : Step.ordered (steps detectRenames source target) = before ++ s :: after)
    (hs : s.action = .drop) (hrelation : s.operation.kind.isRelation = true)
    (ho : source.get? k = some o) (hnone : ∀ t ∈ before, t.operation.key ≠ k)
    (hnames : s.operation.name ∈ o.dependencies) :
    Hazard detectRenames source target s.operation k o := by
  have hsteps : s ∈ steps detectRenames source target := (mem_of_ordered_eq hl).1 (by simp)
  have hsfits := fits_of_mem_steps hsteps
  obtain ⟨homem, hokey⟩ := Model.get?_eq_some_iff.1 ho
  rcases operationsOn_of_source detectRenames target ho with
    ⟨p, hp, hpa⟩ | ⟨p, hp, hpa⟩ | ⟨new, hnew, hnothing, halone⟩
  · -- The object is dropped as well, and that must come first.
    obtain ⟨t, ht, rfl, htk⟩ := exists_step_of_mem_operationsOn hp
    have htfits := fits_of_mem_steps ht
    have hobject : t.object = o :=
      Model.eq_of_get? ho (htfits.old hpa) (htfits.key_eq.trans htk)
    have hts : t ≠ s := by
      rintro rfl
      have hkind := hobject ▸ hsfits.kind_eq
      have hname := hobject ▸ hsfits.name_eq
      exact hacyclic o (.single ⟨homem, homem, hkind ▸ hrelation, hname ▸ hnames⟩)
    have hscreate : s.action ≠ .create := hs ▸ Action.noConfusion
    exact hazard_of_waiting ho hl ht (fun hb => hnone t hb htk) hts
      (.removal s.operation.name hpa hscreate (hobject ▸ hnames) ⟨hrelation, rfl⟩)
  · -- The object is altered, and that must come first unless the relation is to be replaced.
    obtain ⟨t, ht, rfl, htk⟩ := exists_step_of_mem_operationsOn (hp ▸ List.mem_singleton_self p)
    have hta : t.action = .alter := hpa
    have htdrop : t.action ≠ .drop := hta ▸ Action.noConfusion
    have htfits := fits_of_mem_steps ht
    obtain ⟨old, hold⟩ := Option.isSome_iff_exists.1 (htfits.altered hpa)
    obtain ⟨-, holdmem, holdkey⟩ := htfits.previous old hold
    have hobject : old = o := Model.eq_of_get? ho holdmem (holdkey.trans htk)
    by_cases hr : Step.Replaced (steps detectRenames source target) s
    · obtain ⟨c, hc, hca, hck⟩ := hr
      have hcfits := fits_of_mem_steps hc
      refine .standing ho ?_ (fun q hq hqk => ?_)
      · rw [← hck, ← hcfits.key_eq]
        exact List.mem_map_of_mem (hcfits.new (hca ▸ Action.noConfusion))
      · have hqon := mem_operationsOn_of_mem hq hqk
        rw [hp, List.mem_singleton] at hqon
        rw [hqon]
        exact htdrop
    · have hts : t ≠ s := fun h => htdrop (h ▸ hs)
      exact hazard_of_waiting ho hl ht (fun hb => hnone t hb htk) hts
        (.release old s.operation.name htdrop hs hold (hobject ▸ hnames) ⟨hrelation, rfl⟩ hr)
  · -- The object is left alone.
    obtain ⟨hnewmem, hnewkey⟩ := Model.get?_eq_some_iff.1 hnew
    by_cases hnewnames : s.operation.name ∈ new.dependencies
    · by_cases hkey : s.operation.key ∈ target.keys
      · refine .standing ho hkey (fun q hq hqk => ?_)
        have hqon := mem_operationsOn_of_mem hq hqk
        rw [halone] at hqon
        cases hqon
      · have hanother := hasRelation_of_names hsupplies hsteps hs hrelation hnewmem hnewnames
        exact .turned hkey hanother hnew hnewnames (.inr ⟨ho, halone⟩)
    · rcases Details.mem_dependencies_of_object_eq_nil (hokey.trans hnewkey.symm) hnothing hnames
        with hq | ⟨v, w, rfl, rfl, hquery⟩
      · exact absurd hq hnewnames
      · exact .overlooked ho halone hnew hquery hnewnames

end Drop

def TurnsNoRelation (detectRenames : Bool) (source target : Model) : Prop :=
  ∀ op ∈ (between detectRenames source target).operations, op.action = .drop →
    op.kind.isRelation = true → op.key ∉ target.keys → ¬ target.HasRelation op.name

instance : Decidable (TurnsNoRelation detectRenames source target) :=
  inferInstanceAs (Decidable (∀ op ∈ (between detectRenames source target).operations,
    op.action = .drop → op.kind.isRelation = true → op.key ∉ target.keys →
      ¬ target.HasRelation op.name))

def ViewsNameAlike (source target : Model) : Prop :=
  ∀ k v w, source.get? k = some (.view v) → target.get? k = some (.view w) → v.query = w.query →
    ∀ q ∈ v.references, q ∈ w.references

/-- Where a plan drops a relation that a definition in force names, there is one of four reasons.
There is none where the plan replaces no relation, turns none into one of another kind, and views
are read alike. -/
theorem drop_hazards (detectRenames : Bool) {source target : Model} (hs : source.Acyclic)
    (ht : target.Acyclic) (hsupplies : target.Supplies source) :
    (∀ before op after,
      (between detectRenames source target).operations = before ++ op :: after →
      op.action = .drop → op.kind.isRelation = true →
      ∀ k o, inForce source target before k = some o → op.name ∈ o.dependencies →
        Hazard detectRenames source target op k o) ∧
    (ReplacesNoRelation detectRenames source target → TurnsNoRelation detectRenames source target →
      ViewsNameAlike source target → Safe detectRenames source target) := by
  have hhazard : ∀ before op after,
      (between detectRenames source target).operations = before ++ op :: after →
      op.action = .drop → op.kind.isRelation = true →
      ∀ k o, inForce source target before k = some o → op.name ∈ o.dependencies →
        Hazard detectRenames source target op k o := by
    intro before op after hops ha hrelation k o ho hnames
    obtain ⟨first, rest, hl, rfl, hrest⟩ := List.map_eq_append_iff.1 hops
    obtain ⟨s, later, rfl, rfl, -⟩ := List.map_eq_cons_iff.1 hrest
    rcases source_or_hazard hsupplies hl ha hrelation ho hnames with ⟨hsource, hnone⟩ | hz
    · exact hazard_of_drop hs hsupplies hl ha hrelation hsource hnone hnames
    · exact hz
  refine ⟨hhazard, fun hno hturns halike before op after hops ha hrelation k o ho hnames => ?_⟩
  have hmem : op ∈ (between detectRenames source target).operations := by simp [hops]
  cases hhazard before op after hops ha hrelation k o ho hnames with
  | standing old replaced kept => exact hno op hmem ha hrelation replaced
  | turned gone another => exact hturns op hmem ha hrelation gone another
  | @overlooked v w old alone found same unnamed =>
      have hname : v.name = w.name := congrArg ObjectKey.name
        ((Model.get?_eq_some_iff.1 old).2.trans (Model.get?_eq_some_iff.1 found).2.symm)
      obtain ⟨hq, hne⟩ := List.mem_filter.1 hnames
      exact unnamed (List.mem_filter.2 ⟨halike k v w old found same _ hq, hname ▸ hne⟩)
  | cycle old drop around leads => exact not_transGen_edge hno hs ht _ around

def viewOf (name query : String) (references : List String) : Object :=
  .view ⟨.unqualified name, query, true, [], references.map .unqualified⟩

def indexOn (name table : String) : Object :=
  .index (.new (.unqualified name) (.unqualified table))

def innerView (query : String) : Model :=
  (Model.empty.insert (viewOf "v" query [])).insert (viewOf "w" "select a from v" ["v"])

def releasedTable : Model × Model :=
  ((Model.empty.insert (.table (.new (.unqualified "a")))).insert (tableNaming "b" "a"),
    Model.empty.insert (.table (.new (.unqualified "b"))))

theorem drop_hazards_innerView :
    (innerView "select a").Acyclic ∧ (innerView "select b").Acyclic ∧
    (innerView "select b").Supplies (innerView "select a") ∧
    (between true (innerView "select a") (innerView "select b")).operations =
      [] ++ ⟨.drop, .view, .unqualified "v", [replacedDetail]⟩ ::
        [⟨.create, .view, .unqualified "v", ["query changed"]⟩] ∧
    Hazard true (innerView "select a") (innerView "select b")
      ⟨.drop, .view, .unqualified "v", [replacedDetail]⟩ ⟨.view, .unqualified "w"⟩
      (viewOf "w" "select a from v" ["v"]) ∧
    releasedTable.1.Acyclic ∧ releasedTable.2.Acyclic ∧
    releasedTable.2.Supplies releasedTable.1 ∧
    ReplacesNoRelation true releasedTable.1 releasedTable.2 ∧
    TurnsNoRelation true releasedTable.1 releasedTable.2 ∧
    Safe true releasedTable.1 releasedTable.2 := by
  have hs : (innerView "select a").Acyclic := Model.acyclic_of_idxOf_lt (by decide +kernel)
  have ht : (innerView "select b").Acyclic := Model.acyclic_of_idxOf_lt (by decide +kernel)
  have hsupplies : (innerView "select b").Supplies (innerView "select a") := by decide +kernel
  have hplan : (between true (innerView "select a") (innerView "select b")).operations =
      [] ++ ⟨.drop, .view, .unqualified "v", [replacedDetail]⟩ ::
        [⟨.create, .view, .unqualified "v", ["query changed"]⟩] := by decide +kernel
  have hforce : inForce (innerView "select a") (innerView "select b") []
      ⟨.view, .unqualified "w"⟩ = some (viewOf "w" "select a from v" ["v"]) := by decide +kernel
  have hs' : releasedTable.1.Acyclic := Model.acyclic_of_idxOf_lt (by decide +kernel)
  have ht' : releasedTable.2.Acyclic := Model.acyclic_of_idxOf_lt (by decide +kernel)
  have hsupplies' : releasedTable.2.Supplies releasedTable.1 := by decide +kernel
  have hno : ReplacesNoRelation true releasedTable.1 releasedTable.2 := by decide +kernel
  have hturns : TurnsNoRelation true releasedTable.1 releasedTable.2 := by decide +kernel
  have htables : ∀ o ∈ releasedTable.1.objects, o.kind = .table := by decide +kernel
  have halike : ViewsNameAlike releasedTable.1 releasedTable.2 := fun k v w hv =>
    Kind.noConfusion (htables _ (Model.get?_eq_some_iff.1 hv).1)
  exact ⟨hs, ht, hsupplies, hplan,
    (drop_hazards true hs ht hsupplies).1 _ _ _ hplan rfl rfl _ _ hforce (by decide),
    hs', ht', hsupplies', hno, hturns, (drop_hazards true hs' ht' hsupplies').2 hno hturns halike⟩

def turnedView : Model × Model :=
  ((Model.empty.insert (.table (.new (.unqualified "t")))).insert
      (viewOf "v" "select a from t" ["t"]),
    (Model.empty.insert (viewOf "t" "select 1 as a" [])).insert
      (viewOf "v" "select a from t" ["t"]))

def turnedEarly : Model × Model :=
  ((Model.empty.insert (.table (.new (.unqualified "t")))).insert (tableNaming "u" "t"),
    (((Model.empty.insert (viewOf "t" "select 1 as a" [])).insert
      (viewOf "v" "select a from t" ["t"])).insert (.table (.new (.unqualified "w")))).insert
        (tableNaming "u" "w"))

def readTwice : Model × Model :=
  ((Model.empty.insert (.table (.new (.unqualified "t")))).insert (viewOf "w" "select a" ["t"]),
    Model.empty.insert (viewOf "w" "select a" []))

/-- An index moves from a view to another, which the first view names and which is replaced: the
index waits for the new view, the first view for the index, and the old view for the first. -/
def movedIndex : Model × Model :=
  (((Model.empty.insert (viewOf "v" "select a" [])).insert
      (viewOf "u" "select a from v" ["v"])).insert (indexOn "i" "u"),
    (Model.empty.insert (viewOf "v" "select b" [])).insert (indexOn "i" "v"))

structure Endangers (source target : Model) : Prop where
  acyclic_source : source.Acyclic
  acyclic_target : target.Acyclic
  supplies : target.Supplies source
  breach : ¬ Safe true source target

theorem Endangers.of_operations {before after : List Operation} {op : Operation}
    (hs : source.Acyclic) (ht : target.Acyclic) (hsupplies : target.Supplies source)
    (hops : (between true source target).operations = before ++ op :: after)
    (ha : op.action = .drop) (hrelation : op.kind.isRelation = true)
    (ho : inForce source target before k = some o) (hnames : op.name ∈ o.dependencies) :
    Endangers source target :=
  ⟨hs, ht, hsupplies, fun h => h before op after hops ha hrelation k o ho hnames⟩

/-- The view under another is replaced; the table under a view gives way to a view of its name, or
does so only after that view and a new one over it are there; the table is dropped under a view
whose query reads as before; and, behind a cycle, a view is dropped under another that is dropped
later. -/
theorem not_safe : Endangers (innerView "select a") (innerView "select b") ∧
    Endangers turnedView.1 turnedView.2 ∧ Endangers turnedEarly.1 turnedEarly.2 ∧
    Endangers readTwice.1 readTwice.2 ∧ Endangers movedIndex.1 movedIndex.2 := by
  have hacyclic {m : Model} := @Model.acyclic_of_idxOf_lt m
  refine ⟨?_, ?_, ?_, ?_, ?_⟩
  · have hplan : (between true (innerView "select a") (innerView "select b")).operations =
        [] ++ ⟨.drop, .view, .unqualified "v", [replacedDetail]⟩ ::
          [⟨.create, .view, .unqualified "v", ["query changed"]⟩] := by decide +kernel
    exact .of_operations (k := ⟨.view, .unqualified "w"⟩)
      (o := viewOf "w" "select a from v" ["v"]) (hacyclic (by decide +kernel))
      (hacyclic (by decide +kernel)) (by decide +kernel) hplan rfl rfl (by decide +kernel)
      (by decide)
  · have hplan : (between true turnedView.1 turnedView.2).operations =
        [] ++ ⟨.drop, .table, .unqualified "t", []⟩ ::
          [⟨.create, .view, .unqualified "t", []⟩] := by decide +kernel
    exact .of_operations (k := ⟨.view, .unqualified "v"⟩)
      (o := viewOf "v" "select a from t" ["t"]) (hacyclic (by decide +kernel))
      (hacyclic (by decide +kernel)) (by decide +kernel) hplan rfl rfl (by decide +kernel)
      (by decide)
  · have hplan : (between true turnedEarly.1 turnedEarly.2).operations =
        (between true turnedEarly.1 turnedEarly.2).operations.take 4 ++
          ⟨.drop, .table, .unqualified "t", []⟩ :: [] := by decide +kernel
    exact .of_operations (k := ⟨.view, .unqualified "v"⟩)
      (o := viewOf "v" "select a from t" ["t"]) (hacyclic (by decide +kernel))
      (hacyclic (by decide +kernel)) (by decide +kernel) hplan rfl rfl (by decide +kernel)
      (by decide)
  · have hplan : (between true readTwice.1 readTwice.2).operations =
        [] ++ ⟨.drop, .table, .unqualified "t", []⟩ :: [] := by decide +kernel
    exact .of_operations (k := ⟨.view, .unqualified "w"⟩) (o := viewOf "w" "select a" ["t"])
      (hacyclic (by decide +kernel)) (hacyclic (by decide +kernel)) (by decide +kernel) hplan rfl
      rfl (by decide +kernel) (by decide)
  · have hplan : (between true movedIndex.1 movedIndex.2).operations =
        [] ++ ⟨.drop, .view, .unqualified "v", [replacedDetail]⟩ ::
          [⟨.create, .view, .unqualified "v", ["query changed"]⟩,
            ⟨.alter, .index, .unqualified "i", ["table changed from u to v"]⟩,
            ⟨.drop, .view, .unqualified "u", []⟩] := by decide +kernel
    exact .of_operations (k := ⟨.view, .unqualified "u"⟩)
      (o := viewOf "u" "select a from v" ["v"]) (hacyclic (by decide +kernel))
      (hacyclic (by decide +kernel)) (by decide +kernel) hplan rfl rfl (by decide +kernel)
      (by decide)

end Plan

end SchemaDrift
