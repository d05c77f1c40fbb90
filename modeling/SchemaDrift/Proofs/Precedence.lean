import SchemaDrift.Proofs.Run

namespace SchemaDrift

namespace Step

def Names (s : Step) (q : QualifiedName) : Prop :=
  s.operation.kind.isRelation = true ∧ s.operation.name = q

def Replaced (steps : List Step) (s : Step) : Prop :=
  ∃ t ∈ steps, t.action = .create ∧ t.operation.key = s.operation.key

/-- Why one step must come before another: it creates a relation that the new definition names;
it gives up, with the old definition, a relation that is dropped for good; it drops what names a
relation that is dropped or altered; or it makes room for a new definition of its object. -/
inductive Requires (steps : List Step) (a b : Step) : Prop
  | creation (q : QualifiedName) (ha : a.action = .create) (hb : b.action ≠ .drop)
      (hq : q ∈ b.object.dependencies) (hn : a.Names q)
  | release (old : Object) (q : QualifiedName) (ha : a.action ≠ .drop) (hb : b.action = .drop)
      (hold : a.previous = some old) (hq : q ∈ old.dependencies) (hn : b.Names q)
      (hr : ¬ Replaced steps b)
  | removal (q : QualifiedName) (ha : a.action = .drop) (hb : b.action ≠ .create)
      (hq : q ∈ a.object.dependencies) (hn : b.Names q)
  | replacement (ha : a.action = .drop) (hb : b.action = .create)
      (hk : a.operation.key = b.operation.key)

theorem isUsedBy_iff (s : Step) (o : Object) :
    s.isUsedBy o = true ↔ ∃ q ∈ o.dependencies, s.Names q := by
  simp [isUsedBy, isRelationNamed, Names]

theorem isReplaced_iff (steps : List Step) (s : Step) :
    s.isReplaced steps = true ↔ Replaced steps s := by
  simp [isReplaced, Replaced]

theorem createsForOther_iff (a b : Step) : createsForOther a b = true ↔
    a.action = .create ∧ b.action ≠ .drop ∧ ∃ q ∈ b.object.dependencies, a.Names q := by
  simp [createsForOther, isUsedBy_iff, and_assoc]

theorem releases_iff (steps : List Step) (a b : Step) : releases steps a b = true ↔
    a.action ≠ .drop ∧ b.action = .drop ∧
      (∃ old, a.previous = some old ∧ ∃ q ∈ old.dependencies, b.Names q) ∧
      ¬ Replaced steps b := by
  have hold : (a.previous.map b.isUsedBy).getD false = true ↔
      ∃ old, a.previous = some old ∧ ∃ q ∈ old.dependencies, b.Names q := by
    cases h : a.previous with
    | none => simp
    | some old => simp [isUsedBy_iff]
  have hr : (!b.isReplaced steps) = true ↔ ¬ Replaced steps b := by
    rw [Bool.not_eq_true', ← Bool.not_eq_true, isReplaced_iff]
  simp [releases, hold, ← hr, and_assoc]

theorem dropsDependent_iff (a b : Step) : dropsDependent a b = true ↔
    a.action = .drop ∧ b.action ≠ .create ∧ ∃ q ∈ a.object.dependencies, b.Names q := by
  simp [dropsDependent, isUsedBy_iff, and_assoc]

theorem mustPrecede_iff (steps : List Step) (a b : Step) :
    mustPrecede steps a b = true ↔ Requires steps a b := by
  simp only [mustPrecede, Bool.or_eq_true, createsForOther_iff, releases_iff, dropsDependent_iff]
  constructor
  · rintro (((⟨ha, hb, q, hq, hn⟩ | ⟨ha, hb, ⟨old, hold, q, hq, hn⟩, hr⟩) | ⟨ha, hb, q, hq, hn⟩) | h)
    · exact .creation q ha hb hq hn
    · exact .release old q ha hb hold hq hn hr
    · exact .removal q ha hb hq hn
    · simp only [makesRoom, Bool.and_eq_true, decide_eq_true_eq] at h
      exact .replacement h.1.1 h.1.2 h.2
  · intro h
    cases h with
    | creation q ha hb hq hn => exact .inl (.inl (.inl ⟨ha, hb, q, hq, hn⟩))
    | release old q ha hb hold hq hn hr =>
        exact .inl (.inl (.inr ⟨ha, hb, ⟨old, hold, q, hq, hn⟩, hr⟩))
    | removal q ha hb hq hn => exact .inl (.inr ⟨ha, hb, q, hq, hn⟩)
    | replacement ha hb hk => exact .inr (by simp [makesRoom, ha, hb, hk])

end Step

namespace Schedule

def Precedes (steps : List Step) (i j : ℕ) : Prop :=
  i ≠ j ∧ ∃ a b, steps[i]? = some a ∧ steps[j]? = some b ∧ Step.Requires steps a b

theorem mem_edges_iff {steps : List Step} {i j : ℕ} :
    (i, j) ∈ edges steps ↔ Precedes steps i j := by
  simp only [edges, List.mem_flatMap, List.mem_map, List.mem_filter, Bool.and_eq_true, bne_iff_ne,
    Step.mustPrecede_iff, Prod.exists, Prod.mk.injEq, List.mem_zipIdx_iff_getElem?, Precedes]
  constructor
  · rintro ⟨a, i', ha, b, j', ⟨hb, hne, hr⟩, rfl, rfl⟩
    exact ⟨hne, a, b, ha, hb, hr⟩
  · rintro ⟨hne, a, b, ha, hb, hr⟩
    exact ⟨a, i, ha, b, j, ⟨hb, hne, hr⟩, rfl, rfl⟩

instance (steps : List Step) : DecidableRel (Precedes steps) := fun _ _ =>
  decidable_of_iff _ mem_edges_iff

theorem Precedes.lt {steps : List Step} {i j : ℕ} (h : Precedes steps i j) :
    i < steps.length ∧ j < steps.length := by
  obtain ⟨-, a, b, ha, hb, -⟩ := h
  exact ⟨(List.getElem?_eq_some_iff.1 ha).1, (List.getElem?_eq_some_iff.1 hb).1⟩

def priority (steps : List Step) (i : ℕ) : ℕ ×ₗ ℕ ×ₗ ℕ :=
  match steps[i]? with
  | some s => toLex (s.action.rank, toLex (s.position, i))
  | none => toLex (0, toLex (0, i))

theorem length_ranks (steps : List Step) : (ranks steps).length = steps.length := by
  simp [ranks]

theorem map_index_ranks (steps : List Step) :
    (ranks steps).map Rank.index = List.range (ranks steps).length := by
  have h : (Rank.index ∘ fun s : Step × ℕ => Rank.mk s.1.action.rank s.1.position s.2) =
      Prod.snd := rfl
  rw [length_ranks, ranks, List.map_map, h, List.zipIdx_map_snd, List.range_eq_range']

theorem priority_of_mem_ranks {steps : List Step} {r : Rank} (h : r ∈ ranks steps) :
    priority steps r.index = r.key := by
  simp only [ranks, List.mem_map, Prod.exists, List.mem_zipIdx_iff_getElem?] at h
  obtain ⟨s, i, hs, rfl⟩ := h
  simp [priority, hs, Rank.key]

theorem order_eq_schedule_of_perm {steps : List Step} {es : List (ℕ × ℕ)}
    (h : es.Perm (edges steps)) :
    order es (ranks steps) =
      Greedy.schedule (Precedes steps) (priority steps) (List.range steps.length) := by
  have hiff (i j : ℕ) : (i, j) ∈ es ↔ Precedes steps i j := h.mem_iff.trans mem_edges_iff
  have hlt : ∀ e ∈ es, e.1 < (ranks steps).length := by
    intro e he
    rw [length_ranks]
    exact ((hiff e.1 e.2).1 he).lt.1
  rw [order_eq_schedule (map_index_ranks steps) hlt (fun r hr => priority_of_mem_ranks hr),
    length_ranks]
  exact Greedy.schedule_congr hiff _

theorem perm_order (steps : List Step) :
    (order (edges steps) (ranks steps)).Perm (List.range steps.length) := by
  rw [order_eq_schedule_of_perm (.refl _)]
  exact Greedy.perm_schedule _

theorem isGreedy_order (steps : List Step) :
    Greedy.IsGreedy (Precedes steps) (priority steps) (order (edges steps) (ranks steps)) := by
  rw [order_eq_schedule_of_perm (.refl _)]
  exact Greedy.isGreedy_schedule _

theorem sublist_order_of_precedes {steps : List Step}
    (hacyclic : ∀ i, ¬ Relation.TransGen (Precedes steps) i i) {i j : ℕ}
    (h : Precedes steps i j) : [i, j].Sublist (order (edges steps) (ranks steps)) := by
  have hmem {k : ℕ} (hk : k < steps.length) : k ∈ order (edges steps) (ranks steps) :=
    (perm_order steps).mem_iff.2 (List.mem_range.2 hk)
  exact (isGreedy_order steps).sublist (hmem h.lt.1) (hmem h.lt.2) h
    (fun k hk => absurd hk (hacyclic k))

end Schedule

namespace Step

theorem filterMap_range_getElem? {α : Type} (l : List α) :
    (List.range l.length).filterMap (l[·]?) = l := by
  induction l with
  | nil => rfl
  | cons a l ih =>
      rw [List.length_cons, List.range_succ_eq_map, List.filterMap_cons, List.filterMap_map]
      simpa [Function.comp_def] using ih

theorem perm_ordered (steps : List Step) : (ordered steps).Perm steps := by
  have h := (Schedule.perm_order steps).filterMap (steps[·]?)
  rwa [filterMap_range_getElem?] at h

/-- Creations give way to drops, so that no cycle ever puts the creation of a replaced object
before its drop. -/
theorem pairwise_ordered (steps : List Step) : (ordered steps).Pairwise (fun a b =>
    ¬ (a.action = .create ∧ b.action = .drop ∧ a.operation.key = b.operation.key)) := by
  rw [ordered, List.pairwise_filterMap]
  refine (Schedule.isGreedy_order steps).pairwise.imp (fun {i j} h a ha b hb => ?_)
  rintro ⟨hca, hdb, hk⟩
  have hne : j ≠ i := by
    rintro rfl
    rw [Option.some.inj (ha.symm.trans hb), hdb] at hca
    cases hca
  -- The creation would have to come no later in priority than the drop.
  have hle := h ⟨hne, b, a, hb, ha, .replacement hdb hca hk.symm⟩
  simp [Schedule.priority, ha, hb, hca, hdb, Action.rank, Prod.Lex.toLex_le_toLex] at hle

end Step

namespace Schedule

/-- Counters, queue and the breaking of cycles come to the greedy schedule, however the edges are
enumerated. Every step is taken once, and where no cycle stands against it every edge is kept. -/
theorem order_is_greedy (steps : List Step) :
    (∀ es : List (ℕ × ℕ), es.Perm (edges steps) → order es (ranks steps) =
      Greedy.schedule (Precedes steps) (priority steps) (List.range steps.length)) ∧
    (order (edges steps) (ranks steps)).Perm (List.range steps.length) ∧
    (Step.ordered steps).Perm steps ∧
    ((∀ i, ¬ Relation.TransGen (Precedes steps) i i) → ∀ i j, Precedes steps i j →
      [i, j].Sublist (order (edges steps) (ranks steps))) :=
  ⟨fun _ h => order_eq_schedule_of_perm h, perm_order steps, Step.perm_ordered steps,
    fun hacyclic _ _ h => sublist_order_of_precedes hacyclic h⟩

def indexesBeforeTable : List Step :=
  let t : QualifiedName := .unqualified "t"
  [.of .create (.index (.new (.unqualified "i") t)) 0 [],
    .of .create (.index (.new (.unqualified "j") t)) 1 [], .of .create (.table (.new t)) 2 []]

theorem acyclic_indexesBeforeTable (i : ℕ) :
    ¬ Relation.TransGen (Precedes indexesBeforeTable) i i := by
  have hlt {i j : ℕ} (h : Precedes indexesBeforeTable i j) : j < i := by
    have hall : ∀ i < 3, ∀ j < 3, Precedes indexesBeforeTable i j → j < i := by decide
    exact hall i h.lt.1 j h.lt.2 h
  have hpath {i j : ℕ} (h : Relation.TransGen (Precedes indexesBeforeTable) i j) : j < i := by
    induction h with
    | single h => exact hlt h
    | tail _ h ih => exact (hlt h).trans ih
  exact fun h => (hpath h).false

theorem order_is_greedy_indexesBeforeTable :
    let s := indexesBeforeTable
    ((edges s).reverse.Perm (edges s) ∧ order (edges s).reverse (ranks s) =
      Greedy.schedule (Precedes s) (priority s) (List.range 3)) ∧
    (order (edges s) (ranks s)).Perm (List.range 3) ∧ (Step.ordered s).Perm s ∧
    (∀ i, ¬ Relation.TransGen (Precedes s) i i) ∧ Precedes s 2 0 ∧
    [2, 0].Sublist (order (edges s) (ranks s)) := by
  obtain ⟨hany, hperm, hordered, hacyclic⟩ := order_is_greedy indexesBeforeTable
  have hreverse := (edges indexesBeforeTable).reverse_perm
  have hedge : Precedes indexesBeforeTable 2 0 := by decide
  exact ⟨⟨hreverse, hany _ hreverse⟩, hperm, hordered, acyclic_indexesBeforeTable, hedge,
    hacyclic acyclic_indexesBeforeTable 2 0 hedge⟩

end Schedule

end SchemaDrift
