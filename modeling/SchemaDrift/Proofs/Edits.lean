import SchemaDrift.Catalog
import SchemaDrift.Proofs.Outcomes
import SchemaDrift.Proofs.Restriction
import SchemaDrift.Script

namespace SchemaDrift

inductive Edit
  | insert (o : Object)
  | change (table : QualifiedName) (changes : List TableChange)
  | warn (source message : String)
  | filter (kinds : List Kind)

/-- What stands under a key after an edit, given what stood there before. -/
def Edit.left (k : ObjectKey) (old : Option Object) : Edit → Option Object
  | insert o => if k = o.key then some o else old
  | change table changes => if k = ⟨.table, table⟩ then old.map (Object.changed changes) else old
  | warn _ _ => old
  | filter kinds => if k.kind.isCompared kinds then old else none

namespace Store

variable {s : Store}

def edit (s : Store) : Edit → Store
  | .insert o => (s.insert o).2
  | .change table changes => s.modify ⟨.table, table⟩ (Object.changed changes)
  | .warn source message => s.warn source message
  | .filter kinds => s.filter kinds

def ofEdits (es : List Edit) : Store := es.foldl edit empty

theorem Indexed.edit (h : s.Indexed) (e : Edit) : (s.edit e).Indexed := by
  cases e with
  | insert o => exact h.insert o
  | change table changes => exact h.modify _ (Object.key_changed changes)
  | warn source message => exact h
  | filter kinds => exact h.filter kinds

theorem get?_edit (h : s.Indexed) (e : Edit) (k : ObjectKey) :
    (s.edit e).get? k = e.left k (s.get? k) := by
  cases e with
  | insert o => exact get?_insert h o k
  | change table changes =>
      rw [Store.edit, get?_modify h, Edit.left]
      split
      · next hk => rw [hk]
      · rfl
  | warn source message => rfl
  | filter kinds => exact (Model.ofStore s h).get?_filter kinds k

theorem indexed_ofEdits (es : List Edit) : (ofEdits es).Indexed := by
  have hrun (es : List Edit) {s : Store} (h : s.Indexed) : (es.foldl Store.edit s).Indexed := by
    induction es generalizing s with
    | nil => exact h
    | cons e es ih => exact ih (h.edit e)
  exact hrun es .empty

theorem get?_ofEdits (es : List Edit) (k : ObjectKey) :
    (ofEdits es).get? k = es.foldl (Edit.left k) none := by
  have hrun (es : List Edit) {s : Store} (h : s.Indexed) :
      (es.foldl Store.edit s).get? k = es.foldl (Edit.left k) (s.get? k) := by
    induction es generalizing s with
    | nil => rfl
    | cons e es ih => rw [List.foldl_cons, ih (h.edit e), get?_edit h, List.foldl_cons]
  exact hrun es .empty

/-- What inserting an object into a store gives back, and what it makes of the store: the object
under the key gives way, and all else stays; or there is none, and the object goes to the end. -/
inductive Inserts (s : Store) (o : Object) : Option Object × Store → Prop
  | replaces {old : Object} {t : Store} (i : ℕ) (found : s.position? o.key = some i)
      (stood : s.objects[i]? = some old) (key : old.key = o.key)
      (index : ∀ k, t.position? k = s.position? k)
      (length : t.objects.length = s.objects.length) (stands : t.objects[i]? = some o)
      (others : ∀ j, j ≠ i → t.objects[j]? = s.objects[j]?) : Inserts s o (some old, t)
  | appends {t : Store} (absent : s.position? o.key = none)
      (index : ∀ k, t.position? k = if k = o.key then some s.objects.length else s.position? k)
      (objects : t.objects = s.objects ++ [o]) : Inserts s o (none, t)

theorem Indexed.inserts (h : s.Indexed) (o : Object) : Inserts s o (s.insert o) := by
  cases hpos : s.position? o.key with
  | none =>
      have hindex := position?_insert_of_none hpos
      rw [insert_of_none hpos] at hindex ⊢
      exact .appends hpos hindex rfl
  | some i =>
      obtain ⟨old, hold, hkey⟩ := h.exists_of_position? hpos
      have hlt : i < s.objects.length := (List.getElem?_eq_some_iff.1 hold).1
      have hindex := position?_insert_of_some hpos
      rw [insert_of_some hpos] at hindex ⊢
      rw [hold]
      exact .replaces i hpos hold hkey hindex List.length_set (List.getElem?_set_self hlt)
        (fun j hj => List.getElem?_set_ne (Ne.symm hj))

def Reachable (s : Store) : Prop := ∃ es, ofEdits es = s

theorem Reachable.edit (h : s.Reachable) (e : Edit) : (s.edit e).Reachable := by
  obtain ⟨es, rfl⟩ := h
  exact ⟨es ++ [e], by rw [ofEdits, List.foldl_concat, ofEdits]⟩

end Store

namespace Model

variable {m : Model}

theorem reachable_empty : empty.toStore.Reachable := ⟨[], rfl⟩

theorem reachable_insert (h : m.toStore.Reachable) (o : Object) :
    (m.insert o).toStore.Reachable :=
  h.edit (.insert o)

theorem reachable_warn (h : m.toStore.Reachable) (source message : String) :
    (m.warn source message).toStore.Reachable :=
  h.edit (.warn source message)

theorem reachable_define (h : m.toStore.Reachable) (location : String) (o : Object) :
    (m.define location o).toStore.Reachable := by
  unfold define
  split
  · exact reachable_warn (reachable_insert h o) location _
  · exact reachable_insert h o

theorem reachable_addFinding (h : m.toStore.Reachable) (f : Finding) :
    (m.addFinding f).toStore.Reachable := by
  cases f with
  | defined location found =>
      cases found with
      | object o => exact reachable_define h location o
      | change => exact h
  | unfinished location u raw =>
      exact reachable_define (reachable_warn h location u.message) location (.raw raw)

theorem reachable_addChange (h : m.toStore.Reachable) (f : Finding) :
    (m.addChange f).toStore.Reachable := by
  cases f with
  | unfinished => exact h
  | defined location found =>
      cases found with
      | object => exact h
      | change name changes raw =>
          unfold addChange
          dsimp only
          split
          · exact h.edit (.change name changes)
          · exact reachable_define h location (.raw raw)

theorem reachable_foldl {α : Type} {step : Model → α → Model}
    (hstep : ∀ {m : Model}, m.toStore.Reachable → ∀ a, (step m a).toStore.Reachable) (l : List α)
    (h : m.toStore.Reachable) : (l.foldl step m).toStore.Reachable := by
  induction l generalizing m with
  | nil => exact h
  | cons a l ih => exact ih (hstep h a)

theorem reachable_ofFindings (found : List Finding) : (ofFindings found).toStore.Reachable :=
  reachable_foldl reachable_addChange found
    (reachable_foldl reachable_addFinding found reachable_empty)

end Model

namespace Catalog

variable {d : Dialect} {m : Model}

theorem reachable_addIndex {names : List QualifiedName} {n : Model} {r : IndexRow}
    (h : addIndex d names m r = .ok n) (hm : m.toStore.Reachable) : n.toStore.Reachable := by
  obtain ⟨o, -, h⟩ := Outcome.bind_eq_ok.1 h
  split at h
  · cases h
    split
    · exact Model.reachable_insert hm _
    · exact hm
  · cases h
    exact Model.reachable_warn hm _ _

theorem reachable_model {c : Catalog} (h : c.model d = .ok m) : m.toStore.Reachable := by
  obtain ⟨⟨es, unread⟩, -, h⟩ := Outcome.bind_eq_ok.1 h
  refine Outcome.foldlM_keeps (P := fun m : Model => m.toStore.Reachable)
    (fun m r _ n hstep hm => reachable_addIndex hstep hm) h ?_
  refine Model.reachable_foldl (fun hm e => Model.reachable_insert hm _) es ?_
  exact Model.reachable_foldl (fun hm s => Model.reachable_warn hm _ _) unread
    Model.reachable_empty

end Catalog

namespace Store

/-- Whatever edits lead to a store, its index and its objects are inverse to each other, so that no
two objects share a key; under each key there is what the edits left there; and an object that is
inserted takes the place of the one under its key, or goes to the end. The models of scripts and of
catalogs are such stores, and so are the filtered ones. -/
theorem index_of_edits :
    (∀ es : List Edit, (∀ k i, (ofEdits es).position? k = some i ↔
        ((ofEdits es).objects[i]?).map Object.key = some k) ∧
      ((ofEdits es).objects.map Object.key).Nodup ∧
      (∀ k, (ofEdits es).get? k = es.foldl (Edit.left k) none) ∧
      ∀ o, Inserts (ofEdits es) o ((ofEdits es).insert o)) ∧
    (∀ found, (Model.ofFindings found).toStore.Reachable) ∧
    (∀ d c m, Catalog.model d c = .ok m → m.toStore.Reachable) ∧
    ∀ m kinds, m.toStore.Reachable → (Model.filter m kinds).toStore.Reachable := by
  refine ⟨fun es => ?_, Model.reachable_ofFindings, fun _ _ _ => Catalog.reachable_model,
    fun m kinds h => h.edit (.filter kinds)⟩
  have hindexed := indexed_ofEdits es
  exact ⟨hindexed, hindexed.nodup_keys, get?_ofEdits es, hindexed.inserts⟩

def noteBody : Column := ⟨"body", ⟨.text, [], "text"⟩, true, none, .plain, 1, []⟩

def noteEdits : List Edit :=
  [.insert (.synonym ⟨.unqualified "n", .unqualified "notes"⟩),
    .insert (.table (.new (.unqualified "notes"))),
    .insert (.view ⟨.unqualified "v", "select 1", false, [], []⟩),
    .change (.unqualified "notes") [.addColumn noteBody],
    .insert (.view ⟨.unqualified "v", "select 2", false, [], []⟩),
    .filter [.table, .view]]

def noteCatalog : Catalog := ⟨[⟨"public", "notes", none, none, []⟩], [], [], []⟩

def noteCatalogModel : Model := Model.empty.insert (.table (.new (.unqualified "notes")))

theorem index_of_edits_notes :
    (ofEdits noteEdits).position? ⟨.view, .unqualified "v"⟩ = some 1 ∧
    (ofEdits noteEdits).get? ⟨.table, .unqualified "notes"⟩ =
      some (.table { Table.new (.unqualified "notes") with columns := [noteBody] }) ∧
    Catalog.model .postgres noteCatalog = .ok noteCatalogModel ∧
    noteCatalogModel.toStore.Reachable ∧
    (noteCatalogModel.filter [.view]).toStore.Reachable := by
  obtain ⟨hedits, -, hcatalog, hfilter⟩ := index_of_edits
  obtain ⟨hposition, -, hget, -⟩ := hedits noteEdits
  have hmodel : Catalog.model .postgres noteCatalog = .ok noteCatalogModel := rfl
  have hreachable := hcatalog .postgres noteCatalog noteCatalogModel hmodel
  refine ⟨(hposition _ _).2 (by decide +kernel), (hget _).trans (by decide +kernel), hmodel,
    hreachable, hfilter noteCatalogModel [.view] hreachable⟩

end Store

end SchemaDrift
