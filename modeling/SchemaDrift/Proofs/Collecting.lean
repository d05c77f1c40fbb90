import Mathlib.Data.List.Forall2
import SchemaDrift.Proofs.Lookup
import SchemaDrift.Proofs.Tables
import SchemaDrift.Script

namespace SchemaDrift

variable {d : Dialect}

@[simp]
theorem Object.key_settled (o : Object) : (o.settled d).key = o.key := by
  cases o <;> rfl

theorem Object.key_eq_of_settled {a b : Object} (h : a.settled d = b.settled d) :
    a.key = b.key := by
  rw [← key_settled (d := d) a, h, key_settled]

namespace Table

theorem map_settled_column? (t : Table) (name : String) :
    (t.column? name).map (Column.settled d) = (t.settled d).column? name := by
  simp only [column?, settled, List.find?_map]
  rfl

theorem map_settled_replaceFirst (c : Column) (cs : List Column) :
    (addColumn.replaceFirst c cs).map (Column.settled d) =
      addColumn.replaceFirst (c.settled d) (cs.map (Column.settled d)) := by
  induction cs with
  | nil => rfl
  | cons b cs ih =>
      simp only [addColumn.replaceFirst, List.map_cons, ← ih]
      exact apply_ite (List.map (Column.settled d)) _ _ _

theorem settled_addColumn (t : Table) (c : Column) :
    (t.addColumn c).settled d = (t.settled d).addColumn (c.settled d) := by
  have hfound := t.map_settled_column? (d := d) c.name
  unfold addColumn
  rw [show (c.settled d).name = c.name from rfl, ← hfound]
  cases t.column? c.name with
  | some old => simp [settled, map_settled_replaceFirst, Column.settled, Column.unspelled]
  | none => simp [settled, Column.settled, Column.unspelled]

theorem settled_addConstraint (t : Table) (c : Constraint) :
    (t.addConstraint c).settled d = (t.settled d).addConstraint c :=
  apply_ite (settled d) _ _ _

theorem settled_foldl_apply (t : Table) (changes : List TableChange) :
    (changes.foldl apply t).settled d =
      (changes.map (TableChange.settled d)).foldl apply (t.settled d) := by
  induction changes generalizing t with
  | nil => rfl
  | cons change changes ih =>
      rw [List.foldl_cons, ih, List.map_cons, List.foldl_cons]
      congr 1
      cases change with
      | addColumn c => exact t.settled_addColumn c
      | addConstraint c => exact t.settled_addConstraint c

theorem settled_applyAll {s t : Table} (h : s.settled d = t.settled d)
    {changes changes' : List TableChange}
    (hchanges : changes.map (TableChange.settled d) = changes'.map (TableChange.settled d)) :
    (s.applyAll changes).settled d = (t.applyAll changes').settled d := by
  refine Grammar.settled_enforcePrimaryKey ?_
  rw [settled_foldl_apply, settled_foldl_apply, h, hchanges]

end Table

inductive Finding.Agree (d : Dialect) : Finding → Finding → Prop
  | defined {place place' : String} {a b : Definition} (h : a.settled d = b.settled d) :
      Agree d (.defined place a) (.defined place' b)
  | unfinished {place place' : String} {u v : Unfinished} (raw : RawStatement) :
      Agree d (.unfinished place u raw) (.unfinished place' v raw)

namespace Model

variable {m n : Model}

def Agree (d : Dialect) (m n : Model) : Prop :=
  m.objects.map (Object.settled d) = n.objects.map (Object.settled d)

theorem map_settled_place (o : Object) (os : List Object) :
    (place o os).map (Object.settled d) = place (o.settled d) (os.map (Object.settled d)) := by
  induction os with
  | nil => rfl
  | cons p os ih =>
      simp only [place, List.map_cons, Object.key_settled, ← ih]
      exact apply_ite (List.map (Object.settled d)) _ _ _

theorem Agree.place (h : Agree d m n) {a b : Object} (hab : a.settled d = b.settled d) :
    (place a m.objects).map (Object.settled d) = (place b n.objects).map (Object.settled d) := by
  rw [map_settled_place, map_settled_place, hab, show _ = _ from h]

theorem Agree.define (h : Agree d m n) {a b : Object} (hab : a.settled d = b.settled d)
    (place place' : String) : Agree d (m.define place a) (n.define place' b) := by
  unfold Agree
  rw [objects_define, objects_define]
  exact h.place hab

theorem Agree.get? (h : Agree d m n) (k : ObjectKey) :
    (m.get? k).map (Object.settled d) = (n.get? k).map (Object.settled d) :=
  map_get?_congr Object.key_settled h k

theorem Agree.addFinding (h : Agree d m n) {f g : Finding} (hfg : f.Agree d g) :
    Agree d (m.addFinding f) (n.addFinding g) := by
  cases hfg with
  | @defined place place' a b hab =>
      cases a with
      | object o =>
          cases b with
          | object o' => exact h.define (Definition.object.inj hab) _ _
          | change => cases hab
      | change =>
          cases b with
          | object => cases hab
          | change => exact h
  | @unfinished place place' u v raw =>
      have hwarned : Agree d (m.warn place u.message) (n.warn place' v.message) := h
      exact hwarned.define rfl _ _

/-- Both find the table that is to be changed, or neither does. -/
theorem Agree.change (h : Agree d m n) {changes changes' : List TableChange}
    (hchanges : changes.map (TableChange.settled d) = changes'.map (TableChange.settled d))
    (place place' : String) (name : QualifiedName) (raw : RawStatement) :
    Agree d (m.addChange (.defined place (.change name changes raw)))
      (n.addChange (.defined place' (.change name changes' raw))) := by
  have hget := h.get? ⟨.table, name⟩
  cases hm : m.get? ⟨.table, name⟩ with
  | none =>
      rw [hm, Option.map_none, eq_comm, Option.map_eq_none_iff] at hget
      simp only [Model.addChange, hm, hget]
      exact h.define rfl _ _
  | some o =>
      rw [hm, Option.map_some, eq_comm, Option.map_eq_some_iff] at hget
      obtain ⟨o', hn, ho⟩ := hget
      cases o with
      | table t =>
          cases o' with
          | table t' =>
              unfold Agree
              rw [objects_addChange_of_table hm, objects_addChange_of_table hn]
              refine h.place (congrArg Object.table ?_)
              exact Table.settled_applyAll (Object.table.inj ho).symm hchanges
          | _ => cases ho
      | _ =>
          cases o' with
          | table => cases ho
          | _ =>
              simp only [Model.addChange, hm, hn]
              exact h.define rfl _ _

theorem Agree.addChange (h : Agree d m n) {f g : Finding} (hfg : f.Agree d g) :
    Agree d (m.addChange f) (n.addChange g) := by
  cases hfg with
  | @defined place place' a b hab =>
      cases a with
      | object =>
          cases b with
          | object => exact h
          | change => cases hab
      | change name changes raw =>
          cases b with
          | object => cases hab
          | change name' changes' raw' =>
              obtain ⟨rfl, hchanges, rfl⟩ := Definition.change.inj hab
              exact h.change hchanges _ _ _ _
  | unfinished => exact h

theorem Agree.foldl {step : Model → Finding → Model}
    (hstep : ∀ {m n : Model}, Agree d m n → ∀ {f g : Finding}, f.Agree d g →
      Agree d (step m f) (step n g))
    {fs gs : List Finding} (hfg : List.Forall₂ (Finding.Agree d) fs gs) (h : Agree d m n) :
    Agree d (fs.foldl step m) (gs.foldl step n) := by
  induction hfg generalizing m n with
  | nil => exact h
  | cons hf _ ih => exact ih (hstep h hf)

theorem agree_ofFindings {fs gs : List Finding} (h : List.Forall₂ (Finding.Agree d) fs gs) :
    Agree d (ofFindings fs) (ofFindings gs) :=
  Agree.foldl Agree.addChange h (Agree.foldl Agree.addFinding h rfl)

end Model

end SchemaDrift
