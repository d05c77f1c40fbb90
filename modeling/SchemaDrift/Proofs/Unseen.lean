import SchemaDrift.Compare
import SchemaDrift.Proofs.PrimaryKeys
import SchemaDrift.Proofs.Restriction

namespace SchemaDrift

namespace Model

def OfKinds (kinds : List Kind) (m : Model) : Prop := ∀ o ∈ m.objects, o.kind ∈ kinds

variable {kinds : List Kind} {m : Model}

theorem OfKinds.insert (h : m.OfKinds kinds) {o : Object} (ho : o.kind ∈ kinds) :
    (m.insert o).OfKinds kinds := by
  intro p hp
  rw [objects_insert] at hp
  rcases mem_place hp with rfl | hp
  · exact ho
  · exact h p hp

theorem OfKinds.warn (h : m.OfKinds kinds) (source message : String) :
    (m.warn source message).OfKinds kinds := h

theorem OfKinds.filter (h : m.OfKinds kinds) (compared : List Kind) :
    (m.filter compared).OfKinds kinds := by
  intro o ho
  rw [objects_filter] at ho
  exact h o (List.mem_of_mem_filter ho)

/-- Nothing is under a key of a kind that the model does not have. -/
theorem OfKinds.get?_eq_none (h : m.OfKinds kinds) {k : ObjectKey} (hk : k.kind ∉ kinds) :
    m.get? k = none := by
  refine Option.eq_none_iff_forall_ne_some.2 (fun o ho => hk ?_)
  obtain ⟨hmem, rfl⟩ := get?_eq_some_iff.1 ho
  exact h o hmem

end Model

namespace Catalog

variable {d : Dialect} {rows : Catalog}

theorem ofKinds_addIndex {names : List QualifiedName} {m n : Model} {r : IndexRow}
    (h : addIndex d names m r = .ok n) (hm : m.OfKinds kinds) : n.OfKinds kinds := by
  obtain ⟨o, -, h⟩ := Outcome.bind_eq_ok.1 h
  split at h
  · cases h
    split
    · exact hm.insert (List.mem_cons_of_mem _ List.mem_cons_self)
    · exact hm
  · cases h
    exact hm.warn _ _

/-- A catalog tells of tables and indexes, and of nothing else. -/
theorem ofKinds_model {m : Model} (h : rows.model d = .ok m) : m.OfKinds kinds := by
  obtain ⟨⟨es, unread⟩, -, h⟩ := Outcome.bind_eq_ok.1 h
  have hempty : Model.empty.OfKinds kinds := by
    intro o ho
    cases ho
  have hwarned := List.foldlRecOn unread (fun m s => m.warn liveSource s) hempty
    (fun m hm s _ => hm.warn liveSource s)
  have hfilled := List.foldlRecOn es
    (fun m e => m.insert (.table e.table.enforcePrimaryKey)) hwarned
    (fun m hm e _ => hm.insert (o := .table _) List.mem_cons_self)
  exact Outcome.foldlM_keeps (fun m r _ n hstep hm => ofKinds_addIndex hstep hm) h hfilled

theorem mem_omittedKinds_iff {k : Kind} : k ∈ omittedKinds ↔ k ∉ kinds ∧ k ≠ .raw := by
  rw [omittedKinds, List.mem_filter, and_iff_right k.mem_all]
  simp

theorem mem_omittedAmong_iff {compared : List Kind} {k : Kind} :
    k ∈ omittedAmong compared ↔ (k ∉ kinds ∧ k ≠ .raw) ∧ k.isCompared compared = true := by
  rw [omittedAmong, List.mem_filter, mem_omittedKinds_iff]
  rfl

end Catalog

def Operation.creating (k : ObjectKey) : Operation := ⟨.create, k.kind, k.name, []⟩

namespace Plan

variable {detectRenames : Bool} {source target : Model} {kinds : List Kind} {k : Kind}

theorem operationsOn_of_ofKinds (h : source.OfKinds kinds) {key : ObjectKey}
    (hkey : key.kind ∉ kinds) : operationsOn detectRenames source target key =
      if (target.get? key).isSome then [.creating key] else [] := by
  rw [operationsOn, h.get?_eq_none hkey]
  cases target.get? key <;> rfl

/-- About a kind that the source does not have, a plan creates what the target has of it, each
object once, and does nothing else. -/
theorem perm_operations_of_ofKinds (h : source.OfKinds kinds) (hk : k ∉ kinds) :
    ((between detectRenames source target).operations.filter (fun o => o.kind = k)).Perm
      ((target.objects.filter (fun o => o.kind = k)).map (fun o => .creating o.key)) := by
  have hnodup : ((target.objects.filter (fun o => o.kind = k)).map
      (fun o => Operation.creating o.key)).Nodup := by
    have hkeys : ((target.objects.filter (fun o => o.kind = k)).map Object.key).Nodup :=
      target.keys_nodup.sublist (List.filter_sublist.map Object.key)
    have hinj : Function.Injective Operation.creating :=
      Function.LeftInverse.injective (g := Operation.key) (fun _ => rfl)
    simpa only [List.map_map, Function.comp_def] using hkeys.map hinj
  refine (List.perm_ext_iff_of_nodup ((nodup_operations ..).filter _) hnodup).2 (fun op => ?_)
  rw [List.mem_filter, decide_eq_true_iff, mem_operations_iff, List.mem_map]
  constructor
  · rintro ⟨hop, rfl⟩
    rw [operationsOn_of_ofKinds h hk] at hop
    split at hop
    · next hsome =>
        obtain ⟨o, ho⟩ := Option.isSome_iff_exists.1 hsome
        obtain ⟨hmem, hkey⟩ := Model.get?_eq_some_iff.1 ho
        refine ⟨o, List.mem_filter.2 ⟨hmem, decide_eq_true ?_⟩, ?_⟩
        · exact congrArg ObjectKey.kind hkey
        · rw [hkey, ← List.mem_singleton.1 hop]
    · cases hop
  · rintro ⟨o, ho, rfl⟩
    obtain ⟨hmem, hkind⟩ := List.mem_filter.1 ho
    obtain rfl := of_decide_eq_true hkind
    have hget : target.get? o.key = some o := Model.get?_eq_some_iff.2 ⟨hmem, rfl⟩
    refine ⟨?_, rfl⟩
    rw [show (Operation.creating o.key).key = o.key from rfl, operationsOn_of_ofKinds h hk, hget]
    exact List.mem_singleton_self _

def rawCreates (p : Plan) : ℕ :=
  p.operations.countP (fun o => o.kind = .raw && o.action = .create)

theorem rawCreates_ne_zero {p : Plan} {op : Operation} (h : op ∈ p.operations)
    (hraw : op.kind = .raw) (hcreate : op.action = .create) : p.rawCreates ≠ 0 := by
  refine (List.countP_pos_iff.2 ⟨op, h, ?_⟩).ne'
  rw [hraw, hcreate]
  rfl

end Plan

theorem ok_of_orFault {α : Type} {x : Except Fault α} {a : α} (h : orFault x = .ok a) :
    x = .ok a := by
  cases x with
  | error e => cases h
  | ok b => exact congrArg Except.ok (Except.ok.inj h)

namespace Report

open Catalog (liveSource)

/-- The ways in which a warning of the live source can account for the creation of an object: it
names the kind among those that were not read or, for statements kept as text, tells how many of
them the plan creates. -/
inductive Accounts (p : Plan) : Kind → Warning → Prop
  | named {k : Kind} {ks : List Kind} (hk : k ∈ ks) (hraw : k ≠ .raw) : Accounts p k ⟨liveSource,
      "not introspected, target objects of these kinds appear as creates: " ++
        String.intercalate ", " (ks.map Kind.displayName)⟩
  | counted : Accounts p .raw ⟨liveSource, s!"{p.rawCreates} raw SQL statement(s) in the target " ++
      "cannot be introspected and appear as creates"⟩

theorem mem_omissionWarnings {k : Kind} {ks : List Kind} (h : k ∈ ks) :
    ⟨liveSource, "not introspected, target objects of these kinds appear as creates: " ++
      String.intercalate ", " (ks.map Kind.displayName)⟩ ∈ omissionWarnings ks := by
  rw [omissionWarnings, if_neg (by simpa using List.ne_nil_of_mem h)]
  exact List.mem_singleton_self _

theorem mem_rawWarnings {n : ℕ} (h : n ≠ 0) :
    ⟨liveSource, s!"{n} raw SQL statement(s) in the target " ++
      "cannot be introspected and appear as creates"⟩ ∈ rawWarnings n := by
  rw [rawWarnings, if_neg h]
  exact List.mem_singleton_self _

/-- The statements kept as text are counted before the kinds are left out, and there are as many as
are left. -/
theorem rawCount_eq (kinds : List Kind) (m : Model) :
    rawCount kinds m = (m.filter kinds).objects.countP (fun o => o.kind = .raw) := by
  rw [rawCount, ← Kind.isCompared, Model.objects_filter, List.countP_filter]
  by_cases h : Kind.raw.isCompared kinds = true
  · rw [if_pos h]
    refine List.countP_congr (fun o _ => ?_)
    by_cases ho : o.kind = .raw <;> simp [ho, h]
  · rw [if_neg h, eq_comm, List.countP_eq_zero]
    intro o _ ho
    obtain ⟨hraw, hcompared⟩ := Bool.and_eq_true_iff.1 ho
    exact h (of_decide_eq_true hraw ▸ hcompared)

section Live

variable {d : Dialect} {s : Settings} {live : Model} {target : Subject} {k : Kind}

/-- About a kind that no catalog tells of, the plan creates what is left of the target. -/
theorem perm_operations_ofLive (h : live.OfKinds Catalog.kinds) (hk : k ∉ Catalog.kinds) :
    ((ofLive d s live target).plan.operations.filter (fun o => o.kind = k)).Perm
      (((target.model.filter s.objectTypes).objects.filter (fun o => o.kind = k)).map
        (fun o => .creating o.key)) :=
  Plan.perm_operations_of_ofKinds (h.filter s.objectTypes) hk

/-- The count of the warning is that of the creations in the plan. -/
theorem rawCreates_ofLive (h : live.OfKinds Catalog.kinds) :
    (ofLive d s live target).plan.rawCreates = rawCount s.objectTypes target.model := by
  have hcount : ((ofLive d s live target).plan.operations.filter (fun o => o.kind = .raw)).countP
      (fun o => o.action = .create) = _ :=
    (perm_operations_ofLive h (by decide)).countP_eq _
  have hcreates : ((fun o : Operation => decide (o.action = .create)) ∘
      fun o : Object => Operation.creating o.key) = fun _ => true := rfl
  rw [List.countP_filter, List.countP_map, hcreates, List.countP_true,
    ← List.countP_eq_length_filter, ← rawCount_eq] at hcount
  rw [← hcount, Plan.rawCreates]
  exact List.countP_congr (fun o _ => by rw [Bool.and_comm])

theorem mem_omittedKinds_ofLive_iff : k ∈ (ofLive d s live target).omittedKinds ↔
    k.isCompared s.objectTypes = true ∧ k ∉ Catalog.kinds ∧
      (k = .raw → rawCount s.objectTypes target.model ≠ 0) := by
  have homitted : (ofLive d s live target).omittedKinds = Catalog.omittedAmong s.objectTypes ++
      if rawCount s.objectTypes target.model = 0 then [] else [.raw] := rfl
  rw [homitted, List.mem_append, Catalog.mem_omittedAmong_iff]
  by_cases hraw : k = .raw
  · subst hraw
    have hunread : Kind.raw ∉ Catalog.kinds := by decide
    by_cases hcount : rawCount s.objectTypes target.model = 0
    · simp [hcount]
    · have hcompared : Kind.raw.isCompared s.objectTypes = true := by
        by_contra hnot
        exact hcount (if_neg hnot)
      simp [hcount, hcompared, hunread]
  · have hnone : k ∉ (if rawCount s.objectTypes target.model = 0 then [] else [.raw]) := by
      split <;> simp [hraw]
    simp [hraw, hnone, and_comm]

theorem isCompared_of_mem_operations {op : Operation}
    (h : op ∈ (ofLive d s live target).plan.operations) :
    op.kind.isCompared s.objectTypes = true := by
  have hop : op ∈ (Plan.between s.detectRenames (live.filter s.objectTypes)
    (target.model.filter s.objectTypes)).operations := h
  exact (List.mem_filter.1 ((Plan.perm_operations_filter ..).mem_iff.1 hop)).2

/-- Every omitted kind is warned about. -/
theorem exists_accounts (h : live.OfKinds Catalog.kinds)
    (hk : k ∈ (ofLive d s live target).omittedKinds) :
    ∃ w ∈ (ofLive d s live target).warnings,
      w.source = liveSource ∧ Accounts (ofLive d s live target).plan k w := by
  obtain ⟨hcompared, hunread, hcount⟩ := mem_omittedKinds_ofLive_iff.1 hk
  by_cases hraw : k = .raw
  · subst hraw
    refine ⟨_, List.mem_append_right _ (List.mem_append_right _ (mem_rawWarnings (hcount rfl))),
      rfl, ?_⟩
    rw [← rawCreates_ofLive h]
    exact .counted
  · have hmem := Catalog.mem_omittedAmong_iff.2 ⟨⟨hunread, hraw⟩, hcompared⟩
    exact ⟨_, List.mem_append_right _ (List.mem_append_left _ (mem_omissionWarnings hmem)), rfl,
      .named hmem hraw⟩

end Live

variable {fs : FileSystem} {s : Settings} {rows : Catalog} {target : List String} {r : Report}

theorem exists_of_ofCatalog (h : ofCatalog fs s rows target = .ok r) :
    ∃ d live after, rows.model d = .ok live ∧ r = ofLive d s live after := by
  obtain ⟨d, -, h⟩ := Outcome.bind_eq_ok.1 h
  obtain ⟨scripts, -, h⟩ := Outcome.bind_eq_ok.1 h
  obtain ⟨live, hlive, h⟩ := Outcome.bind_eq_ok.1 h
  obtain ⟨after, -, h⟩ := Outcome.bind_eq_ok.1 h
  exact ⟨d, live, after, ok_of_orFault hlive, (Except.ok.inj h).symm⟩

/-- A live comparison accounts for all that a catalog cannot tell of. What a plan does about an
object that is neither a table nor an index is to create it, the kind is listed as omitted, and a
warning accounts for it. Only kinds that are compared are listed, and none that was read. -/
theorem unseen_reported (h : ofCatalog fs s rows target = .ok r) :
    (∀ o ∈ r.plan.operations, o.kind ≠ .table → o.kind ≠ .index →
      o.action = .create ∧ o.kind ∈ r.omittedKinds ∧
        ∃ w ∈ r.warnings, w.source = liveSource ∧ Accounts r.plan o.kind w) ∧
    (s.objectTypes ≠ [] → ∀ k ∈ r.omittedKinds, k ∈ s.objectTypes) ∧
    ∀ k ∈ r.omittedKinds, k ≠ .table ∧ k ≠ .index ∧ (k = .raw → r.plan.rawCreates ≠ 0) := by
  obtain ⟨d, live, after, hlive, rfl⟩ := exists_of_ofCatalog h
  have hkinds := Catalog.ofKinds_model hlive
  refine ⟨fun o ho htable hindex => ?_, fun hne k hk => ?_, fun k hk => ?_⟩
  · have hunread : o.kind ∉ Catalog.kinds := by simp [Catalog.kinds, htable, hindex]
    have hcreate : o.action = .create := by
      have hmem : o ∈ (ofLive d s live after).plan.operations.filter (fun p => p.kind = o.kind) :=
        List.mem_filter.2 ⟨ho, decide_eq_true rfl⟩
      obtain ⟨p, -, hp⟩ := List.mem_map.1 ((perm_operations_ofLive hkinds hunread).mem_iff.1 hmem)
      rw [← hp]
      rfl
    have homitted : o.kind ∈ (ofLive d s live after).omittedKinds := by
      refine mem_omittedKinds_ofLive_iff.2
        ⟨isCompared_of_mem_operations ho, hunread, fun hraw => ?_⟩
      rw [← rawCreates_ofLive hkinds]
      exact Plan.rawCreates_ne_zero ho hraw hcreate
    exact ⟨hcreate, homitted, exists_accounts hkinds homitted⟩
  · have hcompared := (mem_omittedKinds_ofLive_iff.1 hk).1
    rw [Kind.isCompared, List.isEmpty_eq_false_iff.2 hne, Bool.false_or] at hcompared
    exact List.contains_iff_mem.1 hcompared
  · obtain ⟨-, hunread, hcount⟩ := mem_omittedKinds_ofLive_iff.1 hk
    rw [← rawCreates_ofLive hkinds] at hcount
    simp only [Catalog.kinds, List.mem_cons, List.not_mem_nil, or_false, not_or] at hunread
    exact ⟨hunread.1, hunread.2, hcount⟩

def shop : FileSystem :=
  (FileSystem.empty []).addFile "shop.sql"
    ("CREATE TABLE t (id int PRIMARY KEY, note text);\nCREATE SEQUENCE q;\n" ++
      "CREATE VIEW v AS SELECT id FROM t;\nCREATE EXTENSION pgcrypto;").toUTF8 0o600

def askingForViews : Settings :=
  { dialectName := some "postgres", objectTypes := [.table, .view, .raw] }

theorem unseen_reported_shop : ∃ r,
    ofCatalog shop askingForViews keyedRows ["shop.sql"] = .ok r ∧
    r.plan.operations.map (fun o => (o.action, o.kind)) =
      [(.create, .raw), (.create, .view), (.create, .raw)] ∧
    r.omittedKinds = [.view, .raw] ∧ r.plan.rawCreates = 2 ∧
    (∀ o ∈ r.plan.operations, o.kind ≠ .table → o.kind ≠ .index →
      ∃ w ∈ r.warnings, w.source = liveSource ∧ Accounts r.plan o.kind w) ∧
    ∀ k ∈ r.omittedKinds, k ∈ askingForViews.objectTypes := by
  have hread : (ofCatalog shop askingForViews keyedRows ["shop.sql"]).map (fun r =>
      (r.plan.operations.map (fun o => (o.action, o.kind)), r.omittedKinds, r.plan.rawCreates)) =
      .ok ([(.create, .raw), (.create, .view), (.create, .raw)], [.view, .raw], 2) := by
    decide +kernel
  obtain ⟨r, hr, hparts⟩ := Outcome.exists_of_map hread
  obtain ⟨hoperations, hparts⟩ := Prod.mk.inj hparts
  obtain ⟨homitted, hcreates⟩ := Prod.mk.inj hparts
  obtain ⟨haccounts, hlisted, -⟩ := unseen_reported hr
  refine ⟨r, hr, hoperations, homitted, hcreates, fun o ho htable hindex => ?_, hlisted ?_⟩
  · exact (haccounts o ho htable hindex).2.2
  · exact List.cons_ne_nil _ _

end Report

end SchemaDrift
