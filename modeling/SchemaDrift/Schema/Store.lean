import SchemaDrift.Schema.Object

/-!
Objects in the order of their discovery, beside an index of the positions of their keys. The index
is kept by hand: an operation that forgets it, or changes the key of an object in place, would leave
it wrong. Inserting, changing in place and filtering leave it right.
-/

namespace SchemaDrift

structure Warning where
  source : String
  message : String
deriving DecidableEq, Repr, Inhabited

def Warning.text (w : Warning) : String := w.source ++ ": " ++ w.message

structure Store where
  objects : List Object
  positions : List (ObjectKey × Nat)
  warnings : List Warning

namespace Store

def empty : Store := ⟨[], [], []⟩

def position? (s : Store) (k : ObjectKey) : Option Nat := s.positions.lookup k

def get? (s : Store) (k : ObjectKey) : Option Object := (s.position? k).bind (s.objects[·]?)

/-- Puts an object where the one under its key stands, which is given back, or else at the end. -/
def insert (s : Store) (o : Object) : Option Object × Store :=
  match s.position? o.key with
  | some i => (s.objects[i]?, { s with objects := s.objects.set i o })
  | none => (none, { s with
      objects := s.objects ++ [o]
      positions := (o.key, s.objects.length) :: s.positions })

/-- Changes the object under a key where it stands. The index is left alone. -/
def modify (s : Store) (k : ObjectKey) (f : Object → Object) : Store :=
  match s.position? k with
  | some i => { s with objects := s.objects.modify i f }
  | none => s

def warn (s : Store) (source message : String) : Store :=
  { s with warnings := s.warnings ++ [⟨source, message⟩] }

def insertAll (s : Store) (os : List Object) : Store := os.foldl (fun t o => (t.insert o).2) s

/-- A store anew with the objects of the given kinds. No kinds stand for all of them. -/
def filter (s : Store) (kinds : List Kind) : Store :=
  if kinds.isEmpty then s
  else { empty.insertAll (s.objects.filter (fun o => kinds.contains o.kind)) with
    warnings := s.warnings }

/-- Whether the index tells of every key where the object under it stands, and of no other key. -/
def Indexed (s : Store) : Prop :=
  ∀ k i, s.position? k = some i ↔ (s.objects[i]?).map Object.key = some k

variable {s : Store} {o : Object} {k : ObjectKey} {i : Nat}

theorem insert_of_some (h : s.position? o.key = some i) :
    s.insert o = (s.objects[i]?, { s with objects := s.objects.set i o }) := by
  rw [insert, h]

theorem insert_of_none (h : s.position? o.key = none) :
    s.insert o = (none, { s with
      objects := s.objects ++ [o], positions := (o.key, s.objects.length) :: s.positions }) := by
  rw [insert, h]

theorem modify_of_some (h : s.position? k = some i) (f : Object → Object) :
    s.modify k f = { s with objects := s.objects.modify i f } := by
  rw [modify, h]

theorem modify_of_none (h : s.position? k = none) (f : Object → Object) : s.modify k f = s := by
  rw [modify, h]

theorem map_key_modify (s : Store) (k : ObjectKey) {f : Object → Object}
    (hf : ∀ o, (f o).key = o.key) :
    (s.modify k f).objects.map Object.key = s.objects.map Object.key := by
  cases h : s.position? k with
  | none => rw [modify_of_none h]
  | some j =>
      rw [modify_of_some h]
      refine List.ext_getElem? (fun i => ?_)
      rw [List.getElem?_map, List.getElem?_map, List.getElem?_modify]
      cases s.objects[i]? with
      | none => rfl
      | some p => by_cases hij : j = i <;> simp [hij, hf]

theorem position?_modify (s : Store) (k : ObjectKey) (f : Object → Object) (l : ObjectKey) :
    (s.modify k f).position? l = s.position? l := by
  rw [modify]
  split <;> rfl

theorem warnings_modify (s : Store) (k : ObjectKey) (f : Object → Object) :
    (s.modify k f).warnings = s.warnings := by
  rw [modify]
  split <;> rfl

theorem warnings_insert (s : Store) (o : Object) : (s.insert o).2.warnings = s.warnings := by
  rw [insert]
  split <;> rfl

theorem position?_insert_of_some (h : s.position? o.key = some i) (k : ObjectKey) :
    (s.insert o).2.position? k = s.position? k := by
  rw [insert_of_some h]
  rfl

theorem position?_insert_of_none (h : s.position? o.key = none) (k : ObjectKey) :
    (s.insert o).2.position? k = if k = o.key then some s.objects.length else s.position? k := by
  rw [insert_of_none h, position?, List.lookup_cons]
  by_cases hk : k = o.key
  · simp [hk]
  · rw [if_neg hk, beq_eq_false_iff_ne.2 hk]
    rfl

namespace Indexed

theorem empty : Store.empty.Indexed := by
  intro k i
  simp [Store.empty, position?]

theorem exists_of_position? (h : s.Indexed) (hk : s.position? k = some i) :
    ∃ o, s.objects[i]? = some o ∧ o.key = k :=
  Option.map_eq_some_iff.1 ((h k i).1 hk)

theorem ne_of_position? (h : s.Indexed) (hk : s.position? k = none) (ho : o ∈ s.objects) :
    o.key ≠ k := by
  rintro rfl
  obtain ⟨i, hi⟩ := List.mem_iff_getElem?.1 ho
  have hpos := (h o.key i).2 (congrArg (Option.map Object.key) hi)
  rw [hk] at hpos
  cases hpos

theorem get?_eq_some_iff (h : s.Indexed) : s.get? k = some o ↔ o ∈ s.objects ∧ o.key = k := by
  rw [get?, Option.bind_eq_some_iff]
  constructor
  · rintro ⟨i, hi, ho⟩
    obtain ⟨p, hp, hkey⟩ := h.exists_of_position? hi
    cases ho.symm.trans hp
    exact ⟨List.mem_of_getElem? ho, hkey⟩
  · rintro ⟨ho, rfl⟩
    obtain ⟨i, hi⟩ := List.mem_iff_getElem?.1 ho
    exact ⟨i, (h o.key i).2 (congrArg (Option.map Object.key) hi), hi⟩

theorem nodup_keys (h : s.Indexed) : (s.objects.map Object.key).Nodup := by
  refine List.pairwise_iff_getElem.2 (fun i j hi hj hij heq => ?_)
  have hpos {n : Nat} (hn : n < (s.objects.map Object.key).length) :
      s.position? (s.objects.map Object.key)[n] = some n := by
    rw [h, ← List.getElem?_map, List.getElem?_eq_getElem hn]
  have hsame := (hpos hi).symm.trans ((congrArg s.position? heq).trans (hpos hj))
  exact Nat.ne_of_lt hij (Option.some.inj hsame)

theorem insert (h : s.Indexed) (o : Object) : (s.insert o).2.Indexed := by
  intro k i
  cases hpos : s.position? o.key with
  | some j =>
      -- What is replaced has the same key, so that the old index still holds.
      obtain ⟨p, hp, hkey⟩ := h.exists_of_position? hpos
      rw [position?_insert_of_some hpos, insert_of_some hpos, h, List.getElem?_set]
      by_cases hij : j = i
      · subst hij
        rw [if_pos rfl, if_pos (List.getElem?_eq_some_iff.1 hp).1, hp, Option.map_some, hkey]
        rfl
      · rw [if_neg hij]
  | none =>
      have hfresh : s.position? k ≠ some s.objects.length := fun hk => by
        obtain ⟨p, hp, -⟩ := h.exists_of_position? hk
        exact Nat.lt_irrefl _ (List.getElem?_eq_some_iff.1 hp).1
      rw [position?_insert_of_none hpos, insert_of_none hpos]
      by_cases hlast : i = s.objects.length
      · subst hlast
        by_cases hk : k = o.key
        · simp [hk]
        · simpa [hk, Ne.symm hk] using hfresh
      · have hold : (s.objects ++ [o])[i]? = s.objects[i]? := by
          rcases Nat.lt_or_gt_of_ne hlast with hlt | hgt
          · exact List.getElem?_append_left hlt
          · rw [List.getElem?_eq_none (by rw [List.length_append]; exact hgt),
              List.getElem?_eq_none (Nat.le_of_lt hgt)]
        rw [hold, ← h]
        by_cases hk : k = o.key
        · simp [hk, hpos, Ne.symm hlast]
        · simp [hk]

/-- A change in place that keeps the key of the object leaves the index right. -/
theorem modify (h : s.Indexed) (k : ObjectKey) {f : Object → Object}
    (hf : ∀ o, (f o).key = o.key) : (s.modify k f).Indexed := by
  intro l i
  rw [position?_modify, ← List.getElem?_map, map_key_modify s k hf, List.getElem?_map]
  exact h l i

theorem insertAll (h : s.Indexed) (os : List Object) : (s.insertAll os).Indexed := by
  induction os generalizing s with
  | nil => exact h
  | cons o os ih => exact ih (h.insert o)

theorem filter (h : s.Indexed) (kinds : List Kind) : (s.filter kinds).Indexed := by
  rw [Store.filter]
  split
  · exact h
  · exact empty.insertAll _

end Indexed

theorem get?_of_position? (h : s.position? k = some i) : s.get? k = s.objects[i]? := by
  rw [get?, h, Option.bind_some]

theorem fst_insert (s : Store) (o : Object) : (s.insert o).1 = s.get? o.key := by
  cases h : s.position? o.key with
  | none => rw [insert_of_none h, get?, h, Option.bind_none]
  | some i => rw [insert_of_some h, get?_of_position? h]

theorem Indexed.ne_of_key_ne (h : s.Indexed) {k l : ObjectKey} {i j : Nat}
    (hi : s.position? k = some i) (hj : s.position? l = some j) (hne : k ≠ l) : i ≠ j := by
  rintro rfl
  exact hne (Option.some.inj (((h k i).1 hi).symm.trans ((h l i).1 hj)))

theorem get?_insert (h : s.Indexed) (o : Object) (k : ObjectKey) :
    (s.insert o).2.get? k = if k = o.key then some o else s.get? k := by
  cases hpos : s.position? o.key with
  | some i =>
      obtain ⟨p, hp, -⟩ := h.exists_of_position? hpos
      have hlt : i < s.objects.length := (List.getElem?_eq_some_iff.1 hp).1
      rw [get?, position?_insert_of_some hpos, insert_of_some hpos]
      split
      · next hk => rw [hk, hpos, Option.bind_some, List.getElem?_set_self hlt]
      · next hk =>
          cases hj : s.position? k with
          | none => rw [get?, hj, Option.bind_none, Option.bind_none]
          | some j =>
              have hne : i ≠ j := h.ne_of_key_ne hpos hj (Ne.symm hk)
              rw [get?_of_position? hj, Option.bind_some, List.getElem?_set_ne hne]
  | none =>
      rw [get?, position?_insert_of_none hpos, insert_of_none hpos]
      split
      · next hk => rw [Option.bind_some, List.getElem?_concat_length]
      · next hk =>
          cases hj : s.position? k with
          | none => rw [get?, hj, Option.bind_none, Option.bind_none]
          | some j =>
              obtain ⟨p, hp, -⟩ := h.exists_of_position? hj
              have hlt : j < s.objects.length := (List.getElem?_eq_some_iff.1 hp).1
              rw [get?_of_position? hj, Option.bind_some, List.getElem?_append_left hlt]

theorem get?_modify (h : s.Indexed) (k : ObjectKey) (f : Object → Object) (l : ObjectKey) :
    (s.modify k f).get? l = if l = k then (s.get? k).map f else s.get? l := by
  cases hpos : s.position? k with
  | none =>
      rw [modify_of_none hpos]
      split
      · next hl => rw [hl, get?, hpos, Option.bind_none, Option.map_none]
      · rfl
  | some i =>
      rw [get?, position?_modify, modify_of_some hpos]
      split
      · next hl =>
          rw [hl, hpos, Option.bind_some, List.getElem?_modify_eq, get?_of_position? hpos]
          rfl
      · next hl =>
          cases hj : s.position? l with
          | none => rw [get?, hj, Option.bind_none, Option.bind_none]
          | some j =>
              have hne : i ≠ j := h.ne_of_key_ne hpos hj (Ne.symm hl)
              rw [get?_of_position? hj, Option.bind_some, List.getElem?_modify_ne _ _ hne]

/-- Objects whose keys are all new go to the end, in their order. -/
theorem objects_insertAll (h : s.Indexed) {os : List Object}
    (hnew : ((s.objects ++ os).map Object.key).Nodup) :
    (s.insertAll os).objects = s.objects ++ os := by
  induction os generalizing s with
  | nil => exact (List.append_nil _).symm
  | cons o os ih =>
      have hnone : s.position? o.key = none := by
        refine Option.eq_none_iff_forall_ne_some.2 (fun i hi => ?_)
        obtain ⟨p, hp, hkey⟩ := h.exists_of_position? hi
        rw [List.map_append, List.nodup_append] at hnew
        exact hnew.2.2 p.key (List.mem_map_of_mem (List.mem_of_getElem? hp)) o.key (by simp) hkey
      have hobjects : (s.insert o).2.objects = s.objects ++ [o] := by rw [insert_of_none hnone]
      have happend : s.objects ++ o :: os = (s.insert o).2.objects ++ os := by simp [hobjects]
      rw [happend] at hnew ⊢
      exact ih (h.insert o) hnew

theorem objects_filter_cons (h : s.Indexed) (k : Kind) (ks : List Kind) :
    (s.filter (k :: ks)).objects = s.objects.filter (fun o => (k :: ks).contains o.kind) := by
  have hkept : ((s.objects.filter (fun o => (k :: ks).contains o.kind)).map Object.key).Nodup :=
    h.nodup_keys.sublist (List.filter_sublist.map _)
  exact (objects_insertAll .empty hkept).trans (List.nil_append _)

theorem warnings_filter (s : Store) (kinds : List Kind) :
    (s.filter kinds).warnings = s.warnings := by
  rw [filter]
  split <;> rfl

end Store

end SchemaDrift
