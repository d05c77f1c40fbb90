import Mathlib.Data.Option.Basic
import SchemaDrift.Grammar.Definition
import SchemaDrift.Proofs.Pairing
import SchemaDrift.Proofs.Together

namespace SchemaDrift

open Reader Grammar

def Constraint.Renamed (E : Option String → Option String → Prop) (k k' : Constraint) : Prop :=
  E k.name k'.name ∧ k.SameBody k'

def Column.marked (c : Column) (ordinal : Nat) (nullable : Bool) : Column :=
  { c with ordinal := ordinal, nullable := nullable }

def Column.Beside (N : Bool → Bool → Prop) (o o' : Nat) (c c' : Column) : Prop :=
  ∃ (v : Column) (b b' : Bool), N b b' ∧ c = v.marked o b ∧ c' = v.marked o' b'

namespace Column.Beside

variable {N : Bool → Bool → Prop} {o o' : Nat} {c c' : Column}

theorem update (h : c.Beside N o o' c') {f : Column → Column}
    (hf : ∀ v o b, f (v.marked o b) = (f v).marked o b) : (f c).Beside N o o' (f c') := by
  obtain ⟨v, b, b', hN, rfl, rfl⟩ := h
  exact ⟨f v, b, b', hN, hf v o b, hf v o' b'⟩

theorem setNullable (h : c.Beside N o o' c') {b : Bool} (hN : N b b) :
    Column.Beside N o o' { c with nullable := b } { c' with nullable := b } := by
  obtain ⟨v, _, _, -, rfl, rfl⟩ := h
  exact ⟨v, b, b, hN, rfl, rfl⟩

theorem name_eq (h : c.Beside N o o' c') : c'.name = c.name := by
  obtain ⟨v, _, _, -, rfl, rfl⟩ := h
  rfl

theorem settle (hN : ∀ b, N b b) (h : c.Beside N o o' c') (d : Dialect) :
    (settle d c).Beside N o o' (Grammar.settle d c') := by
  obtain ⟨v, b, b', hb, rfl, rfl⟩ := h
  unfold Grammar.settle
  change Column.Beside N o o' (if d = .postgres ∧ v.generation = .identity then _ else _)
    (if d = .postgres ∧ v.generation = .identity then _ else _)
  split
  · exact ⟨v, false, false, hN false, rfl, rfl⟩
  · exact ⟨v, b, b', hb, rfl, rfl⟩

end Column.Beside

namespace Grammar

/-- Two columns being read, out of which `ks` and `ks'` are taken and then the same constraints, by
names as `E` has them. -/
structure ColumnDraft.Beside (N : Bool → Bool → Prop) (E : Option String → Option String → Prop)
    (o o' : Nat) (ks ks' : List Constraint) (r s : ColumnDraft) : Prop where
  column : r.column.Beside N o o' s.column
  lifted : ∃ js js', List.Forall₂ (Constraint.Renamed E) js js' ∧ r.lifted = ks ++ js ∧
    s.lifted = ks' ++ js'
  pending : E r.pending s.pending

variable {N : Bool → Bool → Prop} {E : Option String → Option String → Prop} {o o' : Nat}
  {ks ks' : List Constraint}

namespace ColumnDraft.Beside

variable {r s : ColumnDraft} (h : r.Beside N E o o' ks ks' s)

include h

theorem lift (hE : ∀ n, E n n) (rule : Rule) (columns : List String) :
    (r.lift rule columns).Beside N E o o' ks ks' (s.lift rule columns) := by
  obtain ⟨js, js', hjs, hr, hs⟩ := h.lifted
  refine ⟨h.column, ⟨js ++ [⟨r.pending, rule, columns, []⟩],
    js' ++ [⟨s.pending, rule, columns, []⟩], ?_, ?_, ?_⟩, hE none⟩
  · exact List.rel_append hjs (.cons ⟨h.pending, rfl, rfl, rfl⟩ .nil)
  · rw [ColumnDraft.lift, hr, List.append_assoc]
  · rw [ColumnDraft.lift, hs, List.append_assoc]

theorem liftOwn (hE : ∀ n, E n n) (rule : Rule) :
    (r.liftOwn rule).Beside N E o o' ks ks' (s.liftOwn rule) := by
  unfold ColumnDraft.liftOwn
  rw [h.column.name_eq]
  exact h.lift hE rule _

theorem update {f : Column → Column} (hf : ∀ v o b, f (v.marked o b) = (f v).marked o b) :
    Beside N E o o' ks ks' { r with column := f r.column } { s with column := f s.column } :=
  ⟨h.column.update hf, h.lifted, h.pending⟩

theorem setNullable {b : Bool} (hN : N b b) :
    Beside N E o o' ks ks' { r with column := { r.column with nullable := b } }
      { s with column := { s.column with nullable := b } } :=
  ⟨h.column.setNullable hN, h.lifted, h.pending⟩

theorem withAttribute (clause : String) :
    (r.withAttribute clause).Beside N E o o' ks ks' (s.withAttribute clause) :=
  h.update (f := fun c => { c with attributes := c.attributes ++ [clause] }) fun _ _ _ => rfl

theorem withGeneration (g : Generation) :
    (r.withGeneration g).Beside N E o o' ks ks' (s.withGeneration g) :=
  h.update (f := fun c => { c with generation := g }) fun _ _ _ => rfl

end ColumnDraft.Beside

def Clauses.PassMarks (clauses : Clauses) : Prop :=
  ∀ {N : Bool → Bool → Prop} {o o' : Nat} {c c' : Column}, c.Beside N o o' c' →
    Together (Option.Rel (Column.Beside N o o')) (clauses.columnClause c) (clauses.columnClause c')

theorem Sqlite.passMarks : Sqlite.clauses.PassMarks := by
  intro N o o' c c' h
  refine .after fun _ => .ite (.after fun action => ?_) (.pure .none)
  cases action with
  | none => exact .pure (.some h)
  | some action =>
      exact .after fun _ => .pure (.some (h.update
        (f := fun c => { c with attributes := c.attributes ++ ["ON CONFLICT " ++ action] })
        fun _ _ _ => rfl))

theorem Db2.passMarks : Db2.clauses.PassMarks := by
  intro N o o' c c' h
  refine .after fun _ => .ite (.after fun s => .ite (.pure (.some ?_)) ?_) ?_
  · exact h.update (f := fun c => { c with default := some "WITH DEFAULT" }) fun _ _ _ => rfl
  · exact .after fun d => .pure (.some (h.update
      (f := fun c => { c with default := (DefaultValue.ofText d s).text? }) fun _ _ _ => rfl))
  refine .after fun _ => .ite (.pure (.some ?_)) ?_
  · exact h.update (f := fun c => { c with attributes := c.attributes ++ ["IMPLICITLY HIDDEN"] })
      fun _ _ _ => rfl
  refine .after fun _ => .ite (.after fun size => .pure (.some ?_)) (.pure .none)
  exact h.update
    (f := fun c =>
      { c with attributes := c.attributes ++ ["INLINE LENGTH " ++ String.ofList size] })
    fun _ _ _ => rfl

theorem Clauses.passMarks_ofDialect (d : Dialect) : (Clauses.ofDialect d).PassMarks := by
  cases d with
  | postgres | mySql => exact fun _ => .pure .none
  | sqlite => exact Sqlite.passMarks
  | db2 => exact Db2.passMarks

section

variable {r s : ColumnDraft} (h : r.Beside N E o o' ks ks' s)

include h

theorem together_generated :
    Together (ColumnDraft.Beside N E o o' ks ks') (generated r) (generated s) := by
  refine .after fun _ => .joined ?_
  refine .after fun _ => .ite (.after fun _ => .pure (h.withGeneration _)) ?_
  refine .after fun _ => .ite (.pure (h.withGeneration _)) ?_
  refine .after fun _ => .ite (.pure (h.withGeneration _)) ?_
  refine .after fun _ => .ite (.pure (h.withGeneration _)) ?_
  refine .after fun _ => .ite (.pure (h.withGeneration _)) ?_
  refine .after fun _ => .ite ?_ ?_
  · exact .after fun _ => .after fun _ => .after fun _ => .pure (h.withGeneration _)
  exact .after fun _ => .ite (.pure (h.withAttribute _)) (.pure (h.withAttribute _))

theorem together_defaultClause :
    Together (ColumnDraft.Beside N E o o' ks ks') (defaultClause r) (defaultClause s) := by
  refine .after fun d => .after fun text => .pure ⟨?_, h.lifted, h.pending⟩
  dsimp only
  split
  · exact h.column.update (f := fun c =>
      { c with default := (DefaultValue.ofText d text).text?, generation := .identity })
      fun _ _ _ => rfl
  · exact h.column.update
      (f := fun c => { c with default := (DefaultValue.ofText d text).text? }) fun _ _ _ => rfl

theorem together_clauseAfter (hN : ∀ b, N b b) (hE : ∀ n, E n n) (word : String) :
    Together (ColumnDraft.Beside N E o o' ks ks') (clauseAfter r word) (clauseAfter s word) := by
  fun_cases clauseAfter r word
  all_goals simp only [clauseAfter]
  case case1 => exact .pure (h.setNullable (hN true))
  case case2 => exact together_defaultClause h
  case case3 => exact .after fun name => .pure ⟨h.column, h.lifted, hE name⟩
  case case4 => exact .after fun _ => .pure (h.liftOwn hE _)
  case case5 => exact .after fun _ => .after fun _ => .pure (h.lift hE _ _)
  case case6 => exact together_generated h
  case case7 => exact .after fun _ => .after fun _ => .after fun _ => .pure (h.withGeneration _)
  case case8 | case9 | case10 => exact .after fun _ => .pure (h.withGeneration _)
  case case11 => exact .after fun _ => .after fun _ => .pure (h.withAttribute _)
  case case12 => exact .after fun _ => .pure (h.withAttribute _)
  case case13 | case14 =>
      exact .after fun _ => .after fun _ => .after fun _ => .pure (h.withAttribute _)
  case case15 =>
      refine .after fun args => ?_
      cases args with
      | none => exact .pure (h.withAttribute _)
      | some args => exact .after fun _ => .pure (h.withAttribute _)

theorem together_columnStep {clauses : Clauses} (hclauses : clauses.PassMarks)
    (hN : ∀ b, N b b) (hE : ∀ n, E n n) :
    Together (ColumnDraft.Beside N E o o' ks ks') (columnStep clauses r)
      (columnStep clauses s) := by
  refine (hclauses h.column).bind fun c c' hc => ?_
  cases hc with
  | some hc => exact .pure ⟨hc, h.lifted, h.pending⟩
  | none =>
      refine .after fun word => ?_
      dsimp only
      split
      · exact .after fun _ => .pure h
      · exact .after fun _ => .pure (h.liftOwn hE _)
      · next word _ =>
          refine .after fun _ => .ite (.pure (h.setNullable (hN false))) ?_
          refine .after fun _ => .ite (.after fun _ => .pure ?_) ?_
          · exact (h.setNullable (hN false)).liftOwn hE _
          refine .after fun _ => .ite ?_ (.after fun _ => together_clauseAfter h hN hE word)
          exact .after fun _ => .after fun _ => .pure (h.withAttribute _)

end

end Grammar

end SchemaDrift
