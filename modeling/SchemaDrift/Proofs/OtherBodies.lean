import Mathlib.Data.Option.Basic
import SchemaDrift.Grammar.Definition
import SchemaDrift.Proofs.Together

namespace SchemaDrift

open Reader Grammar

def Table.withBody (t : Table) (columns : List Column) (constraints : List Constraint) : Table :=
  { t with columns := columns, constraints := constraints }

def Table.Bodies (cs cs' : List Column) (ks ks' : List Constraint) (t u : Table) : Prop :=
  ∃ v : Table, t = v.withBody cs ks ∧ u = v.withBody cs' ks'

/-- Two tables whose bodies, begun with `cs` and `ks` and with `cs'` and `ks'`, go on alike. -/
def Table.Beside (cs cs' : List Column) (ks ks' : List Constraint) (t u : Table) : Prop :=
  ∃ columns constraints,
    t.Bodies (cs ++ columns) (cs' ++ columns) (ks ++ constraints) (ks' ++ constraints) u

namespace Grammar

variable {cs cs' : List Column} {ks ks' : List Constraint}

structure Clauses.PassBodies (clauses : Clauses) : Prop where
  tableElement {cs cs' : List Column} {ks ks' : List Constraint} {t u : Table} :
    Table.Bodies cs cs' ks ks' t u → Together (Option.Rel (Table.Bodies cs cs' ks ks'))
      (clauses.tableElement t) (clauses.tableElement u)
  tableClause {cs cs' : List Column} {ks ks' : List Constraint} {t u : Table} :
    Table.Bodies cs cs' ks ks' t u → Together (Option.Rel (Table.Bodies cs cs' ks ks'))
      (clauses.tableClause t) (clauses.tableClause u)

theorem together_some (v : Table) : Together (Option.Rel (Table.Bodies cs cs' ks ks'))
    (pure (some (v.withBody cs ks))) (pure (some (v.withBody cs' ks'))) :=
  .pure (.some ⟨v, rfl, rfl⟩)

theorem Postgres.passBodies : Postgres.clauses.PassBodies where
  tableElement := fun _ => .pure .none
  tableClause := by
    rintro cs cs' ks ks' _ _ ⟨t, rfl, rfl⟩
    refine .after fun _ => .ite (.after fun _ => together_some { t with storage := _ }) ?_
    refine .after fun _ => .ite (.after fun _ => together_some { t with options := _ }) ?_
    refine .after fun _ => .ite (.after fun _ => together_some { t with storage := _ }) ?_
    refine .after fun _ => .ite (.after fun _ => .after fun _ => .after fun _ =>
      together_some { t with options := _ }) ?_
    refine .after fun _ => .ite (together_some t) ?_
    refine .after fun _ => .ite (together_some t) ?_
    refine .after fun _ => .ite (.after fun _ => .after fun _ =>
      together_some { t with options := _ }) ?_
    refine .after fun _ => .ite (.after fun method => ?_) (.pure .none)
    dsimp only
    split
    · exact together_some t
    · exact together_some { t with options := _ }

namespace MySql

theorem together_assignedOption (t : Table) (key : String) :
    Together (Option.Rel (Table.Bodies cs cs' ks ks')) (assignedOption (t.withBody cs ks) key)
      (assignedOption (t.withBody cs' ks') key) := by
  refine .after fun v => ?_
  cases v with
  | none => exact together_some t
  | some v => exact together_some { t with options := _ }

theorem passBodies : clauses.PassBodies where
  tableElement := by
    rintro cs cs' ks ks' _ _ ⟨t, rfl, rfl⟩
    refine .after fun kind => ?_
    cases kind with
    | none => exact .pure .none
    | some kind =>
        refine .joined (.after fun _ => .after fun _ => .iteAfter fun name => ?_)
        refine .after fun _ => .joined (.after fun columns => ?_)
        cases columns with
        | nil => exact .pure .none
        | cons first others => exact .after fun i => together_some { t with indexes := _ }
  tableClause := by
    rintro cs cs' ks ks' _ _ ⟨t, rfl, rfl⟩
    refine .after fun _ => .joined ?_
    refine .after fun _ => .ite (.after fun _ => together_some { t with storage := _ }) ?_
    refine .after fun _ => .ite (.after fun _ => together_some t) ?_
    refine .after fun _ => .ite (together_assignedOption t _) ?_
    refine .after fun _ => .ite (together_assignedOption t _) ?_
    refine .after fun _ => .ite (together_assignedOption t _) ?_
    refine .after fun _ => .ite (together_assignedOption t _) ?_
    refine .after fun _ => .ite (.after fun _ => together_some { t with storage := _ }) ?_
    exact .after fun _ => .ite (together_some { t with versioning := _ }) (.pure .none)

end MySql

theorem Sqlite.passBodies : Sqlite.clauses.PassBodies where
  tableElement := fun _ => .pure .none
  tableClause := by
    rintro cs cs' ks ks' _ _ ⟨t, rfl, rfl⟩
    refine .after fun _ => .ite (together_some { t with options := _ }) ?_
    exact .after fun _ => .ite (together_some { t with options := _ }) (.pure .none)

theorem Db2.passBodies : Db2.clauses.PassBodies where
  tableElement := fun _ => .pure .none
  tableClause := by
    rintro cs cs' ks ks' _ _ ⟨t, rfl, rfl⟩
    refine .after fun s => ?_
    cases s with
    | some s => exact together_some { t with storage := s }
    | none =>
        refine .after fun _ => .ite (.after fun _ => together_some { t with storage := _ }) ?_
        refine .after fun _ => .ite (.after fun _ => together_some { t with storage := _ }) ?_
        refine .after fun _ => .ite (.after fun _ => together_some { t with storage := _ }) ?_
        refine .after fun _ => .ite (.after fun _ => together_some { t with storage := _ }) ?_
        exact .after fun _ => .ite (.after fun _ => together_some { t with options := _ })
          (.pure .none)

theorem Clauses.passBodies_ofDialect (d : Dialect) : (Clauses.ofDialect d).PassBodies := by
  cases d with
  | postgres => exact Postgres.passBodies
  | mySql => exact MySql.passBodies
  | sqlite => exact Sqlite.passBodies
  | db2 => exact Db2.passBodies

section

variable {clauses : Clauses} (hclauses : clauses.PassBodies)

include hclauses

theorem together_tableStep {t u : Table} (h : t.Bodies cs cs' ks ks' u) :
    Together (Table.Bodies cs cs' ks ks') (tableStep clauses t) (tableStep clauses u) := by
  refine .after fun _ => .ite (.pure h) ?_
  refine (hclauses.tableClause h).bind fun v w hvw => ?_
  cases hvw with
  | some hvw => exact .pure hvw
  | none =>
      obtain ⟨v, rfl, rfl⟩ := h
      exact .after fun options => .pure ⟨{ v with options := options }, rfl, rfl⟩

theorem together_tableElement (hlength : cs.length = cs'.length) {t u : Table}
    (h : t.Beside cs cs' ks ks' u) :
    Together (Table.Beside cs cs' ks ks') (tableElement clauses t) (tableElement clauses u) := by
  obtain ⟨columns, constraints, h⟩ := h
  have hbeside {v w : Table} (h : v.Bodies (cs ++ columns) (cs' ++ columns)
      (ks ++ constraints) (ks' ++ constraints) w) : v.Beside cs cs' ks ks' w :=
    ⟨columns, constraints, h⟩
  refine .after fun _ => .ite (.pure (hbeside h)) (.after fun _ => .ite .fail ?_)
  refine (hclauses.tableElement h).bind fun v w hvw => ?_
  cases hvw with
  | some hvw => exact .pure (hbeside hvw)
  | none =>
      obtain ⟨v, rfl, rfl⟩ := h
      refine .after fun _ => .ite (.after fun period' => .pure ?_) ?_
      · unfold period
        split
        · exact hbeside ⟨{ v with versioning := _ }, rfl, rfl⟩
        · exact hbeside ⟨v, rfl, rfl⟩
      refine .after fun _ => .ite (.after fun _ => .ite ?_ ?_) ?_
      · exact .after fun _ => .after fun _ =>
          .pure (hbeside ⟨{ v with options := _ }, rfl, rfl⟩)
      · refine .after fun k => .pure ⟨columns, constraints ++ [k], v, ?_, ?_⟩
        · rw [← List.append_assoc]
          rfl
        · rw [← List.append_assoc]
          rfl
      · have hordinal : (v.withBody (cs ++ columns) (ks ++ constraints)).columns.length =
            (v.withBody (cs' ++ columns) (ks' ++ constraints)).columns.length := by
          change (cs ++ columns).length = (cs' ++ columns).length
          rw [List.length_append, List.length_append, hlength]
        rw [hordinal]
        refine .after fun r => .pure ⟨columns ++ [r.1], constraints ++ r.2, v, ?_, ?_⟩
        · rw [← List.append_assoc, ← List.append_assoc]
          rfl
        · rw [← List.append_assoc, ← List.append_assoc]
          rfl

theorem together_tableElements (hlength : cs.length = cs'.length) (parts : List (List Token))
    {t u : Table} (h : t.Beside cs cs' ks ks' u) :
    Together (Table.Beside cs cs' ks ks') (tableElements clauses t parts)
      (tableElements clauses u parts) := by
  induction parts generalizing t u with
  | nil => exact .pure h
  | cons part parts ih =>
      exact ((together_tableElement hclauses hlength h).within part).bind fun _ _ h => ih h

end

end Grammar

end SchemaDrift
