import SchemaDrift.Proofs.Hazards

namespace SchemaDrift

open Relation

def Model.NamesRelationsOnce (m : Model) : Prop :=
  ∀ a ∈ m.objects, ∀ b ∈ m.objects, a.kind.isRelation = true → b.kind.isRelation = true →
    a.name = b.name → a.kind = b.kind

instance (m : Model) : Decidable m.NamesRelationsOnce :=
  inferInstanceAs (Decidable (∀ a ∈ m.objects, ∀ b ∈ m.objects, a.kind.isRelation = true →
    b.kind.isRelation = true → a.name = b.name → a.kind = b.kind))

namespace Plan

/-- No relation is created while there is a relation of that name. -/
def HoldsNamesOnce (detectRenames : Bool) (source target : Model) : Prop :=
  ∀ before op after, (between detectRenames source target).operations = before ++ op :: after →
    op.action = .create → op.kind.isRelation = true →
    ∀ k o, inForce source target before k = some o → k.kind.isRelation = true → k.name ≠ op.name

structure Namesakes (detectRenames : Bool) (source target : Model) (d c : Step) : Prop where
  mem_drop : d ∈ steps detectRenames source target
  mem_create : c ∈ steps detectRenames source target
  drop : d.action = .drop
  create : c.action = .create
  relation_drop : d.operation.kind.isRelation = true
  relation_create : c.operation.kind.isRelation = true
  name_eq : d.operation.name = c.operation.name

def GoesBefore (detectRenames : Bool) (source target : Model) (x y : Step) : Prop :=
  [x, y].Sublist (Step.ordered (steps detectRenames source target))

def BehindCycle (detectRenames : Bool) (source target : Model) (y : Step) : Prop :=
  ∃ z, TransGen (Edge detectRenames source target) z z ∧
    ReflTransGen (Edge detectRenames source target) z y

/-- A step to which there leads no cycle and no alteration that waits for a creation. -/
def Unhindered (detectRenames : Bool) (source target : Model) (y : Step) : Prop :=
  ¬ BehindCycle detectRenames source target y ∧
  ∀ a, a.action = .alter →
    (∃ w, w.action = .create ∧ Edge detectRenames source target w a) →
    ¬ TransGen (Edge detectRenames source target) a y

variable {detectRenames : Bool} {source target : Model} {c d x y : Step} {k : ObjectKey}

theorem nodup_ordered : (Step.ordered (steps detectRenames source target)).Nodup :=
  (Step.perm_ordered _).nodup_iff.2 (nodup_steps detectRenames source target)

theorem GoesBefore.trans {z : Step} (h : GoesBefore detectRenames source target x y)
    (h' : GoesBefore detectRenames source target y z) :
    GoesBefore detectRenames source target x z :=
  Lists.pair_sublist_trans nodup_ordered h h'

theorem GoesBefore.not_swap (h : GoesBefore detectRenames source target x y) :
    ¬ GoesBefore detectRenames source target y x :=
  Lists.not_pair_sublist_swap nodup_ordered h

theorem goesBefore_or (hx : x ∈ steps detectRenames source target)
    (hy : y ∈ steps detectRenames source target) (hne : x ≠ y) :
    GoesBefore detectRenames source target x y ∨ GoesBefore detectRenames source target y x :=
  Lists.pair_sublist_or ((Step.perm_ordered _).mem_iff.2 hx) ((Step.perm_ordered _).mem_iff.2 hy)
    hne

theorem mem_before_iff {before after : List Step}
    (hl : Step.ordered (steps detectRenames source target) = before ++ y :: after) :
    x ∈ before ↔ GoesBefore detectRenames source target x y := by
  have hafter {z : Step} (hz : z ∈ after) : GoesBefore detectRenames source target y z :=
    Lists.pair_sublist_iff.2 ⟨before, after, hl, hz⟩
  rw [GoesBefore, hl]
  constructor
  · intro hx
    exact (List.singleton_sublist.2 hx).append (List.singleton_sublist.2 List.mem_cons_self)
  · intro hxy
    have hxmem := hxy.subset List.mem_cons_self
    rw [← hl] at hxy
    have hxy : GoesBefore detectRenames source target x y := hxy
    rcases List.mem_append.1 hxmem with hx | hx
    · exact hx
    · rcases List.mem_cons.1 hx with rfl | hx
      · exact absurd hxy hxy.not_swap
      · exact absurd hxy (hafter hx).not_swap

/-- What leads to a step goes before it, unless a cycle leads there too. -/
theorem goesBefore_of_path (h : TransGen (Edge detectRenames source target) x y)
    (hno : ¬ BehindCycle detectRenames source target y) :
    GoesBefore detectRenames source target x y := by
  have hstep {x y : Step} (hxy : Edge detectRenames source target x y)
      (hno : ¬ BehindCycle detectRenames source target y) :
      GoesBefore detectRenames source target x y :=
    (cycle_breaking detectRenames source target).2 x y hxy (fun z hz hzy => hno ⟨z, hz, hzy⟩)
  induction h with
  | single hxy => exact hstep hxy hno
  | tail _ hyz ih =>
      refine (ih ?_).trans (hstep hyz hno)
      rintro ⟨w, hw, hwy⟩
      exact hno ⟨w, hw, hwy.tail hyz⟩

/-- Under one key, there is nothing before another step but a drop before a creation. -/
theorem GoesBefore.drop_create_of_key_eq (h : GoesBefore detectRenames source target x y)
    (hk : x.operation.key = y.operation.key) : x.action = .drop ∧ y.action = .create := by
  have hpair : [x.operation, y.operation].Sublist
      (operationsOn detectRenames source target y.operation.key) := by
    rw [← filter_operations]
    simpa [between, hk] using (h.map Step.operation).filter (fun o => o.key = y.operation.key)
  rcases operationsOn_cases detectRenames source target y.operation.key with
    hops | ⟨o, hops⟩ | ⟨a, b, hops, ha, hb, -⟩
  · rw [hops] at hpair
    cases hpair
  · rw [hops] at hpair
    exact absurd hpair.length_le (by simp)
  · rw [hops] at hpair
    have heq := hpair.eq_of_length rfl
    simp only [List.cons.injEq, and_true] at heq
    obtain ⟨rfl, rfl⟩ := heq
    exact ⟨ha, hb⟩

/-- Only an alteration or another creation waits for a creation. -/
theorem ne_drop_of_edge (h : Edge detectRenames source target x y) (hx : x.action = .create) :
    y.action ≠ .drop := by
  obtain ⟨hxs, -, -, hreq⟩ := h
  cases hreq with
  | creation q ha hb => exact hb
  | release old q ha hb hold =>
      have hxa := ((fits_of_mem_steps hxs).previous old hold).1
      rw [hx] at hxa
      cases hxa
  | removal q ha =>
      rw [hx] at ha
      cases ha
  | replacement ha =>
      rw [hx] at ha
      cases ha

/-- A creation leads to a drop only by way of an alteration that waits for a creation. -/
theorem exists_alter_of_path (h : TransGen (Edge detectRenames source target) x d)
    (hx : x.action = .create) (hd : d.action = .drop) :
    ∃ a, a.action = .alter ∧ (∃ w, w.action = .create ∧ Edge detectRenames source target w a) ∧
      TransGen (Edge detectRenames source target) a d := by
  induction h using TransGen.head_induction_on with
  | single hxd => exact absurd hd (ne_drop_of_edge hxd hx)
  | @head x y hxy hyd ih =>
      cases hy : y.action with
      | drop => exact absurd hy (ne_drop_of_edge hxy hx)
      | alter => exact ⟨y, hy, ⟨x, hx, hxy⟩, hyd⟩
      | create => exact ih hy

namespace Namesakes

theorem ne (h : Namesakes detectRenames source target d c) : c ≠ d := by
  rintro rfl
  have hdrop := h.drop
  rw [h.create] at hdrop
  cases hdrop

theorem goesBefore_of_key_eq (h : Namesakes detectRenames source target d c)
    (hk : d.operation.key = c.operation.key) : GoesBefore detectRenames source target d c := by
  refine (goesBefore_or h.mem_create h.mem_drop h.ne).resolve_left (fun hcd => ?_)
  have hdrop := (hcd.drop_create_of_key_eq hk.symm).1
  rw [h.create] at hdrop
  cases hdrop

/-- A creation that goes before a drop is free, and so is nothing but creations of lower rank: what
the drop waits for is among them, or comes from a cycle. -/
theorem exists_create_of_goesBefore (h : Namesakes detectRenames source target d c)
    (hcd : GoesBefore detectRenames source target c d)
    (hno : ¬ BehindCycle detectRenames source target d) :
    ∃ w, w.action = .create ∧ TransGen (Edge detectRenames source target) w d ∧
      ¬ GoesBefore detectRenames source target w c := by
  obtain ⟨before, after, hl, hd⟩ := Lists.pair_sublist_iff.1 hcd
  have hgreedy := Step.isGreedy_ordered (nodup_steps detectRenames source target)
  rw [hl] at hgreedy
  have hchosen := hgreedy.of_append.1
  have hdmem : d ∈ c :: after := List.mem_cons_of_mem c hd
  have hlater {w : Step} (hw : c.priority ≤ w.priority) : w.action = .create := by
    rw [Step.priority, Step.priority, h.create, Prod.Lex.toLex_le_toLex] at hw
    cases ha : w.action <;> simp_all [Action.rank]
  rcases Greedy.exists_free_or_cycle hdmem with ⟨w, hw, hfree, hwd⟩ | ⟨z, hz, hzd⟩
  · have hwcreate := hlater (hchosen.first w hw (.inl hfree))
    have hwd := ReflTransGen.mono (fun _ _ hij => hij.2.2) w d hwd
    refine ⟨w, hwcreate, ?_, fun hwc : GoesBefore _ _ _ w c => ?_⟩
    · refine (reflTransGen_iff_eq_or_transGen.1 hwd).resolve_left ?_
      rintro rfl
      rw [h.drop] at hwcreate
      cases hwcreate
    · have hn : (Step.ordered (steps detectRenames source target)).Nodup := nodup_ordered
      rw [hl] at hn
      exact (List.nodup_append.1 hn).2.2 w ((mem_before_iff hl).2 hwc) w hw rfl
  · exact absurd ⟨z, Greedy.transGen_of_among hz,
      ReflTransGen.mono (fun _ _ hij => hij.2.2) z d hzd⟩ hno

/-- A drop to which no cycle leads goes before a creation just where all the creations that lead to
it do. -/
theorem goesBefore_iff (h : Namesakes detectRenames source target d c)
    (hno : ¬ BehindCycle detectRenames source target d) :
    GoesBefore detectRenames source target d c ↔
      ∀ w, w.action = .create → TransGen (Edge detectRenames source target) w d →
        GoesBefore detectRenames source target w c := by
  constructor
  · intro hdc w _ hwd
    exact (goesBefore_of_path hwd hno).trans hdc
  · intro hall
    refine (goesBefore_or h.mem_create h.mem_drop h.ne).resolve_left (fun hcd => ?_)
    obtain ⟨w, hw, hwd, hnot⟩ := h.exists_create_of_goesBefore hcd hno
    exact hnot (hall w hw hwd)

theorem goesBefore_of_unhindered (h : Namesakes detectRenames source target d c)
    (hd : Unhindered detectRenames source target d) :
    GoesBefore detectRenames source target d c := by
  refine (h.goesBefore_iff hd.1).2 (fun w hw hwd => ?_)
  obtain ⟨a, ha, hwait, had⟩ := exists_alter_of_path hwd hw h.drop
  exact absurd had (hd.2 a ha hwait)

end Namesakes

theorem inForce_of_untouched {done : List Operation} (h : ∀ p ∈ done, p.key ≠ k) :
    inForce source target done k = source.get? k := by
  induction done using List.reverseRecOn with
  | nil => rfl
  | append_singleton done op ih =>
      rw [inForce_concat, enact, Function.update_of_ne (h op (by simp)).symm]
      exact ih (fun p hp => h p (List.mem_append_left _ hp))

theorem holdsNamesOnce_of_goesBefore (htarget : target.NamesRelationsOnce)
    (h : ∀ d c, Namesakes detectRenames source target d c →
      GoesBefore detectRenames source target d c) :
    HoldsNamesOnce detectRenames source target := by
  intro before op after hops ha hrelation k o ho hk hname
  obtain ⟨first, rest, hl, rfl, hrest⟩ := List.map_eq_append_iff.1 hops
  obtain ⟨c, later, rfl, rfl, -⟩ := List.map_eq_cons_iff.1 hrest
  have hc : c ∈ steps detectRenames source target := (mem_of_ordered_eq hl).1 (by simp)
  have hcfits := fits_of_mem_steps hc
  have hca : c.action = .create := ha
  have hcdrop : c.action ≠ .drop := hca ▸ Action.noConfusion
  have hcmem : c.object ∈ target.objects := hcfits.new hcdrop
  have hcops := operation_mem_operationsOn hc
  -- In the target, only what is created has the name.
  have hcreated {b : Object} (hb : b ∈ target.objects) (hbk : b.key = k) :
      c.operation.key = k := by
    have hbkind : b.kind = k.kind := congrArg ObjectKey.kind hbk
    have hbname : b.name = c.object.name :=
      (congrArg ObjectKey.name hbk).trans (hname.trans hcfits.name_eq.symm)
    have hkinds : b.kind = c.object.kind :=
      htarget b hb c.object hcmem (hbkind ▸ hk) (hcfits.kind_eq ▸ hrelation) hbname
    rw [← hbk, ← hcfits.key_eq, Object.key, Object.key, hkinds, hbname]
  rcases inForce_cases ho with ⟨hsource, hnone⟩ | ⟨hnew, p, hp, hpk, hpa⟩
  · rcases operationsOn_of_source detectRenames target hsource with
      ⟨p, hp, hpa⟩ | ⟨p, hp, hpa⟩ | ⟨new, hnew, -, halone⟩
    · -- The object is dropped, and that comes first.
      obtain ⟨d, hd, rfl, hdk⟩ := exists_step_of_mem_operationsOn hp
      have hdkind : d.operation.kind = k.kind := congrArg ObjectKey.kind hdk
      have hdname : d.operation.name = k.name := congrArg ObjectKey.name hdk
      have hdc := h d c ⟨hd, hc, hpa, ha, hdkind ▸ hk, hrelation, hdname.trans hname⟩
      exact hnone _ (List.mem_map_of_mem ((mem_before_iff hl).2 hdc)) hdk
    · obtain ⟨t, ht, rfl, htk⟩ := exists_step_of_mem_operationsOn (hp ▸ List.mem_singleton_self p)
      have hta : t.action = .alter := hpa
      have htfits := fits_of_mem_steps ht
      have hck := hcreated (htfits.new (hta ▸ Action.noConfusion)) (htfits.key_eq.trans htk)
      rw [hck, hp, List.mem_singleton] at hcops
      rw [hcops, hpa] at ha
      cases ha
    · obtain ⟨hnewmem, hnewkey⟩ := Model.get?_eq_some_iff.1 hnew
      rw [hcreated hnewmem hnewkey, halone] at hcops
      cases hcops
  · -- The object has been brought in, and then it is the one that is created.
    obtain ⟨hnewmem, hnewkey⟩ := Model.get?_eq_some_iff.1 hnew
    obtain ⟨t, ht, rfl⟩ := List.mem_map.1 hp
    have htc := (mem_before_iff hl).1 ht
    exact hpa (htc.drop_create_of_key_eq (hpk.trans (hcreated hnewmem hnewkey).symm)).1

theorem goesBefore_of_holdsNamesOnce (h : HoldsNamesOnce detectRenames source target)
    (hdc : Namesakes detectRenames source target d c) :
    GoesBefore detectRenames source target d c := by
  refine (goesBefore_or hdc.mem_create hdc.mem_drop hdc.ne).resolve_left (fun hcd => ?_)
  obtain ⟨before, after, hl, hd⟩ := Lists.pair_sublist_iff.1 hcd
  have hfits := fits_of_mem_steps hdc.mem_drop
  have hforce : inForce source target (before.map Step.operation) d.operation.key =
      some d.object := by
    rw [inForce_of_untouched, ← hfits.key_eq]
    · exact Model.get?_key (hfits.old hdc.drop)
    · intro p hp hpk
      obtain ⟨t, ht, rfl⟩ := List.mem_map.1 hp
      have htd := ((mem_before_iff hl).1 ht).trans hcd
      have hcreate := (htd.drop_create_of_key_eq hpk).2
      rw [hdc.drop] at hcreate
      cases hcreate
  refine h (before.map Step.operation) c.operation (after.map Step.operation) ?_ hdc.create
    hdc.relation_create _ _ hforce hdc.relation_drop hdc.name_eq
  rw [between, hl, List.map_append, List.map_cons]

/-- No relation is created while there is another of its name, unless the drop of the other, which
is of another kind, waits for a creation or behind a cycle. Without cycles, this is exact. -/
theorem relation_names_held_once (detectRenames : Bool) {source target : Model}
    (htarget : target.NamesRelationsOnce) :
    (HoldsNamesOnce detectRenames source target ↔
      ∀ d c, Namesakes detectRenames source target d c →
        GoesBefore detectRenames source target d c) ∧
    (∀ d c, Namesakes detectRenames source target d c → d.operation.key = c.operation.key →
      GoesBefore detectRenames source target d c) ∧
    (∀ d c, Namesakes detectRenames source target d c →
      ¬ BehindCycle detectRenames source target d →
      (GoesBefore detectRenames source target d c ↔
        ∀ w, w.action = .create → TransGen (Edge detectRenames source target) w d →
          GoesBefore detectRenames source target w c)) ∧
    ((∀ d c, Namesakes detectRenames source target d c → d.operation.key ≠ c.operation.key →
        Unhindered detectRenames source target d) →
      HoldsNamesOnce detectRenames source target) ∧
    (source.Acyclic → target.Acyclic → ReplacesNoRelation detectRenames source target →
      (HoldsNamesOnce detectRenames source target ↔
        ∀ d c, Namesakes detectRenames source target d c →
          ∀ w, w.action = .create → TransGen (Edge detectRenames source target) w d →
            GoesBefore detectRenames source target w c)) := by
  have hiff : HoldsNamesOnce detectRenames source target ↔
      ∀ d c, Namesakes detectRenames source target d c →
        GoesBefore detectRenames source target d c :=
    ⟨fun h _ _ hdc => goesBefore_of_holdsNamesOnce h hdc, holdsNamesOnce_of_goesBefore htarget⟩
  refine ⟨hiff, fun d c h hk => h.goesBefore_of_key_eq hk, fun d c h hno => h.goesBefore_iff hno,
    fun h => hiff.2 (fun d c hdc => ?_), fun hs ht hno => hiff.trans ?_⟩
  · by_cases hk : d.operation.key = c.operation.key
    · exact hdc.goesBefore_of_key_eq hk
    · exact hdc.goesBefore_of_unhindered (h d c hdc hk)
  · refine forall_congr' (fun d => forall₂_congr (fun c hdc => hdc.goesBefore_iff ?_))
    rintro ⟨z, hz, -⟩
    exact not_transGen_edge hno hs ht z hz

def turnedTable : Model × Model :=
  (((Model.empty.insert (.table (.new (.unqualified "b")))).insert
      (.table (.new (.unqualified "t")))).insert (indexOn "i" "t"),
    ((Model.empty.insert (.table (.new (.unqualified "b")))).insert
      (viewOf "t" "select a from b" ["b"])).insert (indexOn "i" "b"))

theorem relation_names_held_once_turnedTable :
    turnedTable.2.NamesRelationsOnce ∧
    (∃ d c, Namesakes true turnedTable.1 turnedTable.2 d c ∧
      d.operation.key ≠ c.operation.key) ∧
    (∀ d c, Namesakes true turnedTable.1 turnedTable.2 d c →
      Unhindered true turnedTable.1 turnedTable.2 d ∧
      GoesBefore true turnedTable.1 turnedTable.2 d c) ∧
    HoldsNamesOnce true turnedTable.1 turnedTable.2 := by
  have hsteps : steps true turnedTable.1 turnedTable.2 =
      [.of .create (viewOf "t" "select a from b" ["b"]) 1 [],
        { Step.of .alter (indexOn "i" "b") 2 ["table changed from t to b"] with
          previous := some (indexOn "i" "t") },
        .of .drop (.table (.new (.unqualified "t"))) 1 []] := rfl
  have hs : turnedTable.1.Acyclic := Model.acyclic_of_idxOf_lt (by decide +kernel)
  have ht : turnedTable.2.Acyclic := Model.acyclic_of_idxOf_lt (by decide +kernel)
  have hno : ReplacesNoRelation true turnedTable.1 turnedTable.2 := by decide +kernel
  have htarget : turnedTable.2.NamesRelationsOnce := by decide +kernel
  obtain ⟨hiff, -, -, hheld, -⟩ :=
    @relation_names_held_once true turnedTable.1 turnedTable.2 htarget
  have hnamesakes : Namesakes true turnedTable.1 turnedTable.2
      (.of .drop (.table (.new (.unqualified "t"))) 1 [])
      (.of .create (viewOf "t" "select a from b" ["b"]) 1 []) :=
    ⟨hsteps ▸ by simp, hsteps ▸ by simp, rfl, rfl, rfl, rfl, rfl⟩
  have hfree : ∀ w ∈ steps true turnedTable.1 turnedTable.2,
      ∀ a ∈ steps true turnedTable.1 turnedTable.2, w.action = .create → a.action = .alter →
        Step.mustPrecede (steps true turnedTable.1 turnedTable.2) w a = false := by
    decide +kernel
  have hall : ∀ d, Unhindered true turnedTable.1 turnedTable.2 d := by
    intro d
    refine ⟨fun ⟨z, hz, _⟩ => not_transGen_edge hno hs ht z hz, ?_⟩
    rintro a ha ⟨w, hw, hwmem, hamem, -, hreq⟩
    rw [← Step.mustPrecede_iff, hfree w hwmem a hamem hw ha] at hreq
    cases hreq
  have hheld := hheld (fun d c _ _ => hall d)
  exact ⟨htarget, ⟨_, _, hnamesakes, by decide⟩,
    fun d c hdc => ⟨hall d, hiff.1 hheld d c hdc⟩, hheld⟩

def releasedName : Model × Model :=
  ((Model.empty.insert (.table (.new (.unqualified "t")))).insert (tableNaming "u" "t"),
    ((Model.empty.insert (viewOf "t" "select 1 as a" [])).insert
      (.table (.new (.unqualified "w")))).insert (tableNaming "u" "w"))

/-- The drop waits for the alteration and this for the creation of the new table, and meanwhile the
view is created. -/
theorem not_holdsNamesOnce_releasedName :
    releasedName.1.NamesRelationsOnce ∧ releasedName.2.NamesRelationsOnce ∧
    releasedName.1.Acyclic ∧ releasedName.2.Acyclic ∧
    (between true releasedName.1 releasedName.2).lines =
      ["Create View: t", "Create Table: w", "Alter Table: u", "Drop Table: t"] ∧
    ¬ HoldsNamesOnce true releasedName.1 releasedName.2 := by
  refine ⟨by decide +kernel, by decide +kernel, Model.acyclic_of_idxOf_lt (by decide +kernel),
    Model.acyclic_of_idxOf_lt (by decide +kernel), by decide +kernel, fun h => ?_⟩
  have hfirst : (between true releasedName.1 releasedName.2).operations =
      [] ++ ⟨.create, .view, .unqualified "t", []⟩ ::
        (between true releasedName.1 releasedName.2).operations.tail := by decide +kernel
  exact h _ _ _ hfirst rfl rfl ⟨.table, .unqualified "t"⟩ (.table (.new (.unqualified "t")))
    (by decide +kernel) rfl rfl

end Plan

end SchemaDrift
