import SchemaDrift.Plan.Operation

/-!
The order of a plan. Some steps must come before others; among the steps that wait for none, the
first in rank goes next. Where every step waits for another, the first in rank goes all the same.
-/

namespace SchemaDrift

/-- An operation and what its place in a plan depends on: the object that is dropped or else the
new one, where that was discovered, and the old object of an alteration. -/
structure Step where
  operation : Operation
  object : Object
  position : Nat
  previous : Option Object
deriving Inhabited

namespace Step

def of (action : Action) (o : Object) (position : Nat) (details : List String) : Step :=
  ⟨⟨action, o.kind, o.name, details⟩, o, position, none⟩

def action (s : Step) : Action := s.operation.action

def isRelationNamed (s : Step) (name : QualifiedName) : Bool :=
  s.operation.kind.isRelation && s.operation.name = name

/-- Whether a step is about a relation that the object depends on. -/
def isUsedBy (s : Step) (o : Object) : Bool := o.dependencies.any s.isRelationNamed

/-- Whether a creation under the same key follows a drop. -/
def isReplaced (steps : List Step) (s : Step) : Bool :=
  steps.any (fun t => t.action = .create && t.operation.key = s.operation.key)

/-- Relations are created before what names them is created or altered. -/
def createsForOther (a b : Step) : Bool :=
  a.action = .create && b.action ≠ .drop && a.isUsedBy b.object

/-- An alteration gives up what the old definition named before that is dropped for good. -/
def releases (steps : List Step) (a b : Step) : Bool :=
  a.action ≠ .drop && b.action = .drop && (a.previous.map b.isUsedBy).getD false &&
    !b.isReplaced steps

/-- What names a relation is dropped before the relation is dropped or altered. -/
def dropsDependent (a b : Step) : Bool :=
  a.action = .drop && b.action ≠ .create && b.isUsedBy a.object

def makesRoom (a b : Step) : Bool :=
  a.action = .drop && b.action = .create && a.operation.key = b.operation.key

/-- Whether the first of two different steps must come before the second. -/
def mustPrecede (steps : List Step) (a b : Step) : Bool :=
  createsForOther a b || releases steps a b || dropsDependent a b || makesRoom a b

end Step

namespace Schedule

/-- The pairs of places in a list of which the first must come before the second. -/
def edges (steps : List Step) : List (Nat × Nat) :=
  steps.zipIdx.flatMap (fun a =>
    (steps.zipIdx.filter (fun b => a.2 != b.2 && Step.mustPrecede steps a.1 b.1)).map
      (fun b => (a.2, b.2)))

/-- What decides between two steps that may both come next. -/
structure Rank where
  action : Nat
  position : Nat
  index : Nat
deriving DecidableEq, Repr, Inhabited

def Rank.before (a b : Rank) : Bool :=
  a.action < b.action || (a.action == b.action &&
    (a.position < b.position || (a.position == b.position && a.index < b.index)))

def ranks (steps : List Step) : List Rank :=
  steps.zipIdx.map (fun s => ⟨s.1.action.rank, s.1.position, s.2⟩)

def enqueue (r : Rank) : List Rank → List Rank
  | [] => [r]
  | q :: qs => if r.before q then r :: q :: qs else q :: enqueue r qs

def least : Rank → List Rank → Rank
  | r, [] => r
  | r, q :: qs => if q.before r then least q qs else least r qs

theorem least_mem (r : Rank) (qs : List Rank) : least r qs ∈ r :: qs := by
  induction qs generalizing r with
  | nil => simp [least]
  | cons q qs ih =>
      simp only [least]
      split
      · exact List.mem_cons_of_mem _ (ih q)
      · rcases List.mem_cons.1 (ih r) with h | h
        · rw [h]
          exact List.mem_cons_self
        · exact List.mem_cons_of_mem _ (List.mem_cons_of_mem _ h)

/-- Steps not yet taken, those of them that wait for none, and for every index the number of
steps that it still waits for. -/
structure State where
  waiting : List Rank
  ready : List Rank
  blockers : List Nat

/-- One step fewer to wait for. A step that now waits for none is ready, unless it is taken. -/
def State.unblock (s : State) (i : Nat) : State :=
  let left := s.blockers.getD i 0 - 1
  let blockers := s.blockers.set i left
  match s.waiting.find? (fun r => r.index == i) with
  | some r => if left = 0 then { s with ready := enqueue r s.ready, blockers := blockers }
      else { s with blockers := blockers }
  | none => { s with blockers := blockers }

def State.take (edges : List (Nat × Nat)) (s : State) (r : Rank) : State :=
  let rest : State := { s with waiting := s.waiting.erase r, ready := s.ready.erase r }
  ((edges.filter (fun e => e.1 == r.index)).map Prod.snd).foldl State.unblock rest

def State.next (s : State) : Option Rank :=
  match s.ready with
  | r :: _ => some r
  | [] => match s.waiting with
    | [] => none
    | r :: rs => some (least r rs)

theorem State.waiting_unblock (s : State) (i : Nat) : (s.unblock i).waiting = s.waiting := by
  simp only [State.unblock]
  split
  · split <;> rfl
  · rfl

theorem State.waiting_take (edges : List (Nat × Nat)) (s : State) (r : Rank) :
    (s.take edges r).waiting = s.waiting.erase r := by
  have fold : ∀ (is : List Nat) (t : State), (is.foldl State.unblock t).waiting = t.waiting := by
    intro is
    induction is with
    | nil => intro t; rfl
    | cons i is ih => intro t; rw [List.foldl_cons, ih, State.waiting_unblock]
  simp only [State.take, fold]

/-- Takes step after step. A step is taken once only. -/
def State.run (edges : List (Nat × Nat)) (s : State) : List Rank :=
  match s.next with
  | none => []
  | some r =>
      if _h : r ∈ s.waiting then r :: (s.take edges r).run edges else []
termination_by s.waiting.length
decreasing_by
  rw [State.waiting_take, List.length_erase_of_mem _h]
  exact Nat.sub_lt (List.length_pos_of_mem _h) Nat.one_pos

def start (edges : List (Nat × Nat)) (ranks : List Rank) : State :=
  let blockers := ranks.map (fun r => edges.countP (fun e => e.2 == r.index))
  ⟨ranks, (ranks.filter (fun r => blockers.getD r.index 0 == 0)).foldl (fun q r => enqueue r q) [],
    blockers⟩

def order (edges : List (Nat × Nat)) (ranks : List Rank) : List Nat :=
  ((start edges ranks).run edges).map (·.index)

end Schedule

def Step.ordered (steps : List Step) : List Step :=
  (Schedule.order (Schedule.edges steps) (Schedule.ranks steps)).filterMap (steps[·]?)

end SchemaDrift
