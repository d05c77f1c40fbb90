import SchemaDrift.Grammar.Definition
import SchemaDrift.Schema.Model
import SchemaDrift.Statement.Split

/-!
Collecting scripts into one schema model. Changes to tables wait until every table is known, so
that the order of files never matters to them.
-/

namespace SchemaDrift

structure Script where
  label : String
  sql : String
deriving DecidableEq, Repr, Inhabited

inductive Finding
  | defined (location : String) (d : Definition)
  | unfinished (location : String) (u : Unfinished) (raw : RawStatement)

namespace Finding

def location (label : String) (line : Nat) : String := s!"{label}:{line}"

def ofItem (d : Dialect) (label : String) : Statement.Item → Except Fault (Option Finding)
  | .ok s => do
      return (← Definition.ofStatement? d s.text).map (defined (location label s.line))
  | .error u => do
      return some (unfinished (location label u.line) u (← Grammar.rawStatement d u.snippet.toList))

def ofItems (d : Dialect) (label : String) : List Statement.Item → Except Fault (List Finding)
  | [] => .ok []
  | item :: items => do
      let found ← ofItem d label item
      return found.toList ++ (← ofItems d label items)

def ofScripts (d : Dialect) : List Script → Except Fault (List Finding)
  | [] => .ok []
  | s :: ss => do return (← ofItems d s.label (Statement.split d s.sql)) ++ (← ofScripts d ss)

end Finding

namespace Table

/-- A column that is there already keeps its place. -/
def addColumn (t : Table) (c : Column) : Table :=
  match t.column? c.name with
  | some old =>
      { t with columns := replaceFirst { c with ordinal := old.ordinal } t.columns }
  | none => { t with columns := t.columns ++ [{ c with ordinal := t.columns.length + 1 }] }
where
  replaceFirst (c : Column) : List Column → List Column
    | [] => []
    | b :: bs => if b.name == c.name then c :: bs else b :: replaceFirst c bs

/-- A constraint that is there already is not added again. -/
def addConstraint (t : Table) (c : Constraint) : Table :=
  if t.constraints.any (·.equivalent c) then t
  else { t with constraints := t.constraints ++ [c] }

def apply (t : Table) : TableChange → Table
  | .addColumn c => t.addColumn c
  | .addConstraint c => t.addConstraint c

def applyAll (t : Table) (changes : List TableChange) : Table :=
  (changes.foldl apply t).enforcePrimaryKey

theorem name_apply (t : Table) (change : TableChange) : (t.apply change).name = t.name := by
  cases change with
  | addColumn c =>
      simp only [apply, addColumn]
      split <;> rfl
  | addConstraint c =>
      simp only [apply, addConstraint]
      split <;> rfl

theorem name_applyAll (t : Table) (changes : List TableChange) :
    (t.applyAll changes).name = t.name := by
  rw [applyAll, enforcePrimaryKey]
  dsimp only
  induction changes generalizing t with
  | nil => rfl
  | cons change changes ih => rw [List.foldl_cons, ih, name_apply]

end Table

namespace Object

/-- Folds changes into a table. Another object is left as it is. -/
def changed (changes : List TableChange) : Object → Object
  | table t => table (t.applyAll changes)
  | o => o

theorem key_changed (changes : List TableChange) (o : Object) :
    (o.changed changes).key = o.key := by
  cases o with
  | table t => exact congrArg (ObjectKey.mk .table) (t.name_applyAll changes)
  | _ => rfl

end Object

namespace Model

def duplicateMessage (k : ObjectKey) : String :=
  "duplicate definition of " ++ k.text ++ " replaces the earlier one"

/-- Adds an object. That it replaces another is worth a warning. -/
def define (m : Model) (location : String) (o : Object) : Model :=
  let next := m.insert o
  if (m.displaced? o).isSome then next.warn location (duplicateMessage o.key) else next

theorem objects_define (m : Model) (location : String) (o : Object) :
    (m.define location o).objects = place o m.objects := by
  unfold define
  split <;> exact m.objects_insert o

/-- Adds what a statement comes to, changes to tables apart. -/
def addFinding (m : Model) : Finding → Model
  | .defined location (.object o) => m.define location o
  | .defined _ (.change ..) => m
  | .unfinished location u raw => (m.warn location u.message).define location (.raw raw)

/-- Folds a change into its table. A change to a table that is not known is kept as text. -/
def addChange (m : Model) : Finding → Model
  | .defined location (.change name changes raw) =>
      match m.get? ⟨.table, name⟩ with
      | some (.table _) => m.modify ⟨.table, name⟩ (Object.changed changes)
          (Object.key_changed changes)
      | _ => m.define location (.raw raw)
  | _ => m

theorem addChange_of_unknown {m : Model} {name : QualifiedName}
    (h : ∀ t, m.get? ⟨.table, name⟩ ≠ some (.table t)) (location : String)
    (changes : List TableChange) (raw : RawStatement) :
    m.addChange (.defined location (.change name changes raw)) =
      m.define location (.raw raw) := by
  unfold addChange
  dsimp only
  split
  · next t ht => exact absurd ht (h t)
  · rfl

theorem objects_addChange_of_table {m : Model} {name : QualifiedName} {t : Table}
    (h : m.get? ⟨.table, name⟩ = some (.table t)) (location : String)
    (changes : List TableChange) (raw : RawStatement) :
    (m.addChange (.defined location (.change name changes raw))).objects =
      place (.table (t.applyAll changes)) m.objects := by
  simp only [addChange, h]
  exact objects_modify h (Object.changed changes) (Object.key_changed changes)

def ofFindings (found : List Finding) : Model :=
  found.foldl addChange (found.foldl addFinding empty)

def ofScripts (d : Dialect) (scripts : List Script) : Except Fault Model := do
  return ofFindings (← Finding.ofScripts d scripts)

end Model

end SchemaDrift
