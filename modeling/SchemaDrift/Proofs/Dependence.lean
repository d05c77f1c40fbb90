import SchemaDrift.Proofs.Agreement
import SchemaDrift.Proofs.Cycle
import SchemaDrift.Proofs.Lifetime

namespace SchemaDrift

open Relation

namespace Model

def DependsOn (m : Model) (a b : Object) : Prop :=
  a ∈ m.objects ∧ b ∈ m.objects ∧ b.kind.isRelation = true ∧ b.name ∈ a.dependencies

def Acyclic (m : Model) : Prop := ∀ o, ¬ TransGen m.DependsOn o o

def HasRelation (m : Model) (q : QualifiedName) : Prop :=
  ∃ r ∈ m.objects, r.kind.isRelation = true ∧ r.name = q

instance (m : Model) (q : QualifiedName) : Decidable (m.HasRelation q) :=
  inferInstanceAs (Decidable (∃ r ∈ m.objects, r.kind.isRelation = true ∧ r.name = q))

/-- Whether the target has every relation, by its name, that the source has and an object of the
target names. -/
def Supplies (target source : Model) : Prop :=
  ∀ r ∈ source.objects, r.kind.isRelation = true →
    (∃ o ∈ target.objects, r.name ∈ o.dependencies) → target.HasRelation r.name

instance (target source : Model) : Decidable (target.Supplies source) :=
  inferInstanceAs (Decidable (∀ r ∈ source.objects, r.kind.isRelation = true →
    (∃ o ∈ target.objects, r.name ∈ o.dependencies) → target.HasRelation r.name))

/-- A schema in which every object names only relations that come before it has no cycle. -/
theorem acyclic_of_idxOf_lt {m : Model} (h : ∀ a ∈ m.objects, ∀ b ∈ m.objects,
    b.kind.isRelation = true → b.name ∈ a.dependencies →
      m.objects.idxOf b < m.objects.idxOf a) : m.Acyclic := by
  have hpath {a b : Object} (hab : TransGen m.DependsOn a b) :
      m.objects.idxOf b < m.objects.idxOf a := by
    induction hab with
    | single hab => exact h _ hab.1 _ hab.2.1 hab.2.2.1 hab.2.2.2
    | tail _ hbc ih => exact (h _ hbc.1 _ hbc.2.1 hbc.2.2.1 hbc.2.2.2).trans ih
  exact fun o ho => (hpath ho).false

end Model

theorem Table.mem_referencedTables_iff {t : Table} {q : QualifiedName} :
    q ∈ t.referencedTables ↔ q ≠ t.name ∧ ∃ c ∈ t.constraints, keyTarget c.rule = some q := by
  have hfold (qs seen : List QualifiedName) : q ∈ qs.foldl
      (fun seen q => if q = t.name || seen.contains q then seen else seen ++ [q]) seen ↔
      q ∈ seen ∨ q ≠ t.name ∧ q ∈ qs := by
    induction qs generalizing seen with
    | nil => simp
    | cons r rs ih =>
        rw [List.foldl_cons, ih, List.mem_cons]
        by_cases hr : r = t.name
        · simp only [hr, decide_true, Bool.true_or, if_true]
          tauto
        · by_cases hs : r ∈ seen
          · have : q = r → q ∈ seen := fun h => h ▸ hs
            simp only [hr, hs, decide_false, Bool.false_or, List.contains_iff_mem, if_true]
            tauto
          · have : q = r → q ≠ t.name := fun h => h ▸ hr
            simp only [hr, hs, decide_false, Bool.false_or, List.contains_iff_mem, if_false,
              List.mem_append, List.mem_singleton]
            tauto
  rw [referencedTables, hfold, List.mem_filterMap]
  simp

theorem Constraint.Paired.exists_rule {as bs : List Constraint} (h : Paired as bs) {a : Constraint}
    (ha : a ∈ as) : ∃ b ∈ bs, b.rule = a.rule := by
  obtain ⟨cs, hperm, hcs⟩ := h
  obtain ⟨i, hi, rfl⟩ := List.mem_iff_getElem.1 ha
  have hi' : i < cs.length := hcs.length_eq ▸ hi
  have heq : as[i].equivalent cs[i] = true := hcs.get hi hi'
  refine ⟨cs[i], hperm.mem_iff.1 (List.getElem_mem hi'), ?_⟩
  simp only [equivalent, Bool.and_eq_true, beq_iff_eq] at heq
  exact heq.1.1.2.symm

/-- Where there is nothing to say, the new definition names all that the old one does, unless the
two are views of one query. -/
theorem Details.mem_dependencies_of_object_eq_nil {detectRenames : Bool} {a b : Object}
    (hkey : a.key = b.key) (h : object detectRenames a b = []) {q : QualifiedName}
    (hq : q ∈ a.dependencies) :
    q ∈ b.dependencies ∨ ∃ v w, a = .view v ∧ b = .view w ∧ v.query = w.query := by
  have hname : a.name = b.name := congrArg ObjectKey.name hkey
  cases a with
  | table s =>
      cases b with
      | table t =>
          obtain ⟨hne, c, hc, htarget⟩ := Table.mem_referencedTables_iff.1 hq
          simp only [object, table, List.append_eq_nil_iff, constraints, List.map_eq_nil_iff] at h
          obtain ⟨⟨⟨⟨⟨-, hdropped, hadded⟩, -⟩, -⟩, -⟩, -⟩ := h
          obtain ⟨d, hd, hrule⟩ := (paired_of_unpaired (Prod.ext hdropped hadded)).exists_rule hc
          have hne : q ≠ t.name := (show s.name = t.name from hname) ▸ hne
          exact .inl (Table.mem_referencedTables_iff.2 ⟨hne, d, hd, hrule ▸ htarget⟩)
      | _ => cases h
  | view v =>
      cases b with
      | view w =>
          have hquery := congrArg View.query ((view_eq_nil_iff hname).1 h)
          exact .inr ⟨v, w, rfl, rfl, hquery⟩
      | _ => cases h
  | index i =>
      cases b with
      | index j =>
          have htable := congrArg Index.table (index_eq_nil_iff.1 h)
          have hq : q = i.table := List.mem_singleton.1 hq
          exact .inl (List.mem_singleton.2 (hq.trans htable))
      | _ => cases h
  | trigger s =>
      cases b with
      | trigger t => exact .inl ((trigger_eq_nil_iff hname).1 h ▸ hq)
      | _ => cases h
  | synonym s =>
      cases b with
      | synonym t => exact .inl ((synonym_eq_nil_iff hname).1 h ▸ hq)
      | _ => cases h
  | auxiliaryTable s =>
      cases b with
      | auxiliaryTable t => exact .inl ((auxiliaryTable_eq_nil_iff hname).1 h ▸ hq)
      | _ => cases h
  | routine | virtualTable | raw => cases hq

namespace Plan

variable {detectRenames : Bool} {source target : Model} {x y z : Step}

def ReplacesNoRelation (detectRenames : Bool) (source target : Model) : Prop :=
  ∀ op ∈ (between detectRenames source target).operations,
    op.action = .drop → op.kind.isRelation = true → op.key ∉ target.keys

instance : Decidable (ReplacesNoRelation detectRenames source target) :=
  inferInstanceAs (Decidable (∀ op ∈ (between detectRenames source target).operations,
    op.action = .drop → op.kind.isRelation = true → op.key ∉ target.keys))

theorem not_replaced (hno : ReplacesNoRelation detectRenames source target)
    (hx : x ∈ steps detectRenames source target) (hxa : x.action = .drop)
    (hrelation : x.operation.kind.isRelation = true) : x.operation.key ∉ target.keys :=
  hno x.operation (List.mem_map_of_mem ((Step.perm_ordered _).mem_iff.2 hx)) hxa hrelation

/-- A step before which another must come is about a relation, if it is a creation. -/
theorem isRelation_of_edge (h : Edge detectRenames source target x y) (hx : x.action = .create) :
    x.operation.kind.isRelation = true := by
  obtain ⟨hxs, -, -, hreq⟩ := h
  cases hreq with
  | creation q ha hb hq hn => exact hn.1
  | release old q ha hb hold hq hn hr =>
      have hxa := ((fits_of_mem_steps hxs).previous old hold).1
      rw [hx] at hxa
      cases hxa
  | removal q ha hb hq hn =>
      rw [hx] at ha
      cases ha
  | replacement ha hb hk =>
      rw [hx] at ha
      cases ha

/-- Only the creation of what a relation names must come before the creation of the relation. -/
theorem create_of_edge (hno : ReplacesNoRelation detectRenames source target)
    (h : Edge detectRenames source target x y) (hy : y.action = .create)
    (hrelation : y.operation.kind.isRelation = true) :
    x.action = .create ∧ target.DependsOn y.object x.object := by
  obtain ⟨hxs, hys, -, hreq⟩ := h
  have hxfits := fits_of_mem_steps hxs
  have hymem := (fits_of_mem_steps hys).new (hy ▸ Action.noConfusion)
  cases hreq with
  | creation q ha hb hq hn =>
      refine ⟨ha, hymem, hxfits.new (ha ▸ Action.noConfusion), hxfits.kind_eq ▸ hn.1, ?_⟩
      rwa [hxfits.name_eq, hn.2]
  | release old q ha hb hold hq hn hr =>
      rw [hy] at hb
      cases hb
  | removal q ha hb hq hn => exact absurd hy hb
  | replacement ha hb hk =>
      have hkind : x.operation.kind = y.operation.kind := congrArg ObjectKey.kind hk
      refine absurd ?_ (not_replaced hno hxs ha (hkind ▸ hrelation))
      rw [hk, ← (fits_of_mem_steps hys).key_eq]
      exact List.mem_map_of_mem hymem

theorem exists_source_of_ne_create (hx : x ∈ steps detectRenames source target)
    (hxa : x.action ≠ .create) : ∃ o, source.get? x.operation.key = some o := by
  have hfits := fits_of_mem_steps hx
  cases ha : x.action with
  | drop => exact ⟨x.object, hfits.key_eq ▸ Model.get?_key (hfits.old ha)⟩
  | alter =>
      obtain ⟨old, hold⟩ := Option.isSome_iff_exists.1 (hfits.altered ha)
      obtain ⟨-, hmem, hkey⟩ := hfits.previous old hold
      exact ⟨old, hkey ▸ Model.get?_key hmem⟩
  | create => exact absurd ha hxa

/-- Between two steps that create nothing, the one that must come first is about an object that
names the other in the source. -/
theorem dependsOn_of_edge (h : Edge detectRenames source target x y) (hx : x.action ≠ .create)
    (hy : y.action ≠ .create) {a b : Object} (ha : source.get? x.operation.key = some a)
    (hb : source.get? y.operation.key = some b) : source.DependsOn a b := by
  obtain ⟨hxs, -, -, hreq⟩ := h
  have hxfits := fits_of_mem_steps hxs
  obtain ⟨hamem, -⟩ := Model.get?_eq_some_iff.1 ha
  obtain ⟨hbmem, hbkey⟩ := Model.get?_eq_some_iff.1 hb
  have hkind : b.kind = y.operation.kind := congrArg ObjectKey.kind hbkey
  have hname : b.name = y.operation.name := congrArg ObjectKey.name hbkey
  cases hreq with
  | creation q hxa => exact absurd hxa hx
  | release old q hxa hya hold hq hn hr =>
      obtain ⟨-, holdmem, holdkey⟩ := hxfits.previous old hold
      have hobject : old = a := Model.eq_of_get? ha holdmem holdkey
      exact ⟨hamem, hbmem, hkind ▸ hn.1, hname ▸ hn.2 ▸ hobject ▸ hq⟩
  | removal q hxa hya hq hn =>
      have hobject : x.object = a := Model.eq_of_get? ha (hxfits.old hxa) hxfits.key_eq
      exact ⟨hamem, hbmem, hkind ▸ hn.1, hname ▸ hn.2 ▸ hobject ▸ hq⟩
  | replacement hxa hya => exact absurd hya hy

/-- Before the creation of a relation there are only creations, each of what the next names. -/
theorem transGen_target (hno : ReplacesNoRelation detectRenames source target)
    (h : TransGen (Edge detectRenames source target) x z) (hz : z.action = .create)
    (hrelation : z.operation.kind.isRelation = true) :
    x.action = .create ∧ TransGen target.DependsOn z.object x.object := by
  induction h using TransGen.head_induction_on with
  | single hxz =>
      obtain ⟨hx, hdep⟩ := create_of_edge hno hxz hz hrelation
      exact ⟨hx, .single hdep⟩
  | head hxy hyz ih =>
      obtain ⟨hy, hpath⟩ := ih
      obtain ⟨w, hyw, -⟩ := TransGen.head'_iff.1 hyz
      obtain ⟨hx, hdep⟩ := create_of_edge hno hxy hy (isRelation_of_edge hyw hy)
      exact ⟨hx, hpath.tail hdep⟩

/-- Between two steps that create nothing there are only such steps, each about an object that
names the next in the source. -/
theorem transGen_source (hno : ReplacesNoRelation detectRenames source target)
    (h : TransGen (Edge detectRenames source target) x z) (hx : x.action ≠ .create)
    (hz : z.action ≠ .create) {a b : Object} (ha : source.get? x.operation.key = some a)
    (hb : source.get? z.operation.key = some b) : TransGen source.DependsOn a b := by
  induction h using TransGen.head_induction_on generalizing a with
  | single hxz => exact .single (dependsOn_of_edge hxz hx hz ha hb)
  | @head x y hxy hyz ih =>
      obtain ⟨w, hyw, -⟩ := TransGen.head'_iff.1 hyz
      have hy : y.action ≠ .create := fun hy =>
        hx (create_of_edge hno hxy hy (isRelation_of_edge hyw hy)).1
      obtain ⟨c, hc⟩ := exists_source_of_ne_create hxy.2.1 hy
      exact .head (dependsOn_of_edge hxy hx hy ha hc) (ih hy hc)

theorem not_transGen_edge (hno : ReplacesNoRelation detectRenames source target)
    (hs : source.Acyclic) (ht : target.Acyclic) (z : Step) :
    ¬ TransGen (Edge detectRenames source target) z z := by
  intro h
  obtain ⟨w, hzw, -⟩ := TransGen.head'_iff.1 h
  by_cases hz : z.action = .create
  · exact ht z.object (transGen_target hno h hz (isRelation_of_edge hzw hz)).2
  · obtain ⟨a, ha⟩ := exists_source_of_ne_create hzw.1 hz
    exact hs a (transGen_source hno h hz hz ha ha)

end Plan

end SchemaDrift
