import SchemaDrift.Schema.Store

/-!
The schema model: objects in the order of their discovery, one under each key, and the warnings
that came up while they were collected.
-/

namespace SchemaDrift

/-- A store whose index is right. -/
structure Model where
  objects : List Object
  positions : List (ObjectKey × Nat)
  warnings : List Warning
  indexed : (Store.mk objects positions warnings).Indexed

namespace Model

def toStore (m : Model) : Store := ⟨m.objects, m.positions, m.warnings⟩

def ofStore (s : Store) (h : s.Indexed) : Model := ⟨s.objects, s.positions, s.warnings, h⟩

def empty : Model := ofStore .empty .empty

instance : Inhabited Model := ⟨empty⟩

theorem keys_nodup (m : Model) : (m.objects.map Object.key).Nodup := m.indexed.nodup_keys

def keys (m : Model) : List ObjectKey := m.objects.map Object.key

def get? (m : Model) (k : ObjectKey) : Option Object := m.toStore.get? k

def position? (m : Model) (k : ObjectKey) : Option Nat := m.toStore.position? k

def contains (m : Model) (k : ObjectKey) : Bool := (m.position? k).isSome

def size (m : Model) : Nat := m.objects.length

def isEmpty (m : Model) : Bool := m.objects.isEmpty

/-- An object already under the key is replaced where it stands. -/
def insert (m : Model) (o : Object) : Model :=
  ofStore (m.toStore.insert o).2 (m.indexed.insert o)

/-- The object that gives way when an object is inserted. -/
def displaced? (m : Model) (o : Object) : Option Object := (m.toStore.insert o).1

/-- Changes the object under a key where it stands. -/
def modify (m : Model) (k : ObjectKey) (f : Object → Object) (hf : ∀ o, (f o).key = o.key) :
    Model :=
  ofStore (m.toStore.modify k f) (m.indexed.modify k hf)

def warn (m : Model) (source message : String) : Model :=
  ofStore (m.toStore.warn source message) m.indexed

/-- The objects of the given kinds. No kinds stand for all of them. -/
def filter (m : Model) (kinds : List Kind) : Model :=
  ofStore (m.toStore.filter kinds) (m.indexed.filter kinds)

/-- How many objects of each kind there are, without the kinds that have none. -/
def counts (m : Model) : List (Kind × Nat) :=
  (Kind.all.map (fun k => (k, (m.objects.filter (fun o => o.kind = k)).length))).filter
    (fun p => 0 < p.2)

/-- The same objects in the same order. Warnings do not count. -/
def sameAs (a b : Model) : Bool := a.objects.map Object.unspelled = b.objects.map Object.unspelled

/-- The object under the key of `o` gives way to `o`, which else goes to the end. -/
def place (o : Object) : List Object → List Object
  | [] => [o]
  | p :: ps => if p.key = o.key then o :: ps else p :: place o ps

theorem keys_place (o : Object) (os : List Object) :
    (place o os).map Object.key =
      if o.key ∈ os.map Object.key then os.map Object.key else os.map Object.key ++ [o.key] := by
  induction os with
  | nil => simp [place]
  | cons p ps ih =>
      by_cases h : p.key = o.key
      · simp [place, h]
      · have h' : ¬ o.key = p.key := fun e => h e.symm
        simp only [place, h, if_false, List.map_cons, ih, List.mem_cons, h', false_or]
        split <;> simp

theorem place_of_forall_ne {o : Object} {os : List Object} (h : ∀ p ∈ os, p.key ≠ o.key) :
    place o os = os ++ [o] := by
  induction os with
  | nil => rfl
  | cons p ps ih =>
      rw [place, if_neg (h p List.mem_cons_self), ih (fun q hq => h q (List.mem_cons_of_mem p hq))]
      rfl

theorem place_of_getElem? {o p : Object} {os : List Object} {i : Nat} (hp : os[i]? = some p)
    (hk : p.key = o.key) (hn : (os.map Object.key).Nodup) : place o os = os.set i o := by
  induction os generalizing i with
  | nil => cases hp
  | cons q qs ih =>
      obtain ⟨hq, hqs⟩ := List.nodup_cons.1 hn
      cases i with
      | zero =>
          have hqp : q = p := Option.some.inj hp
          rw [place, if_pos (hqp ▸ hk)]
          rfl
      | succ i =>
          have hne : q.key ≠ o.key := fun he =>
            hq (he ▸ hk ▸ List.mem_map_of_mem (List.mem_of_getElem? hp))
          rw [place, if_neg hne, ih hp hqs]
          rfl

theorem objects_insert (m : Model) (o : Object) : (m.insert o).objects = place o m.objects := by
  cases h : m.position? o.key with
  | none =>
      rw [place_of_forall_ne (fun p hp => m.indexed.ne_of_position? h hp)]
      exact congrArg (fun r => r.2.objects) (Store.insert_of_none h)
  | some i =>
      obtain ⟨p, hp, hk⟩ := m.indexed.exists_of_position? h
      rw [place_of_getElem? hp hk m.keys_nodup]
      exact congrArg (fun r => r.2.objects) (Store.insert_of_some h)

theorem objects_modify {m : Model} {k : ObjectKey} {o : Object} (h : m.get? k = some o)
    (f : Object → Object) (hf : ∀ o, (f o).key = o.key) :
    (m.modify k f hf).objects = place (f o) m.objects := by
  obtain ⟨i, hi, ho⟩ := Option.bind_eq_some_iff.1 h
  have ho : m.objects[i]? = some o := ho
  have hmodify : (m.modify k f hf).objects = m.objects.modify i f :=
    congrArg Store.objects (Store.modify_of_some hi f)
  rw [hmodify, List.modify_eq_set, ho, place_of_getElem? ho (hf o).symm m.keys_nodup]
  rfl

end Model

end SchemaDrift
