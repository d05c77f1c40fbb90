import SchemaDrift.Grammar.Definition
import SchemaDrift.Proofs.Outcomes
import SchemaDrift.Proofs.Taking

namespace SchemaDrift

open Reader

structure Table.SameBody (t u : Table) : Prop where
  name : u.name = t.name
  columns : u.columns = t.columns
  constraints : u.constraints = t.constraints

namespace Table.SameBody

theorem rfl {t : Table} : t.SameBody t := ⟨Eq.refl _, Eq.refl _, Eq.refl _⟩

theorem trans {t u v : Table} (h : t.SameBody u) (h' : u.SameBody v) : t.SameBody v :=
  ⟨h'.name.trans h.name, h'.columns.trans h.columns, h'.constraints.trans h.constraints⟩

end Table.SameBody

namespace Grammar

structure Clauses.KeepBodies (clauses : Clauses) : Prop where
  createOption : Leaves clauses.createOption
  createForm : Yields (fun o => ∀ t, o ≠ .table t) clauses.createForm
  tableElement (t : Table) : Yields (fun u => ∀ v ∈ u, t.SameBody v) (clauses.tableElement t)
  tableClause (t : Table) : Yields (fun u => ∀ v ∈ u, t.SameBody v) (clauses.tableClause t)

section

variable {t u : Table}

theorem yields_none : Yields (fun u => ∀ v ∈ u, t.SameBody v) (pure none) :=
  .pure fun _ hv => by cases hv

theorem yields_some (h : t.SameBody u) :
    Yields (fun u => ∀ v ∈ u, t.SameBody v) (pure (some u)) :=
  .pure fun _ hv => Option.some.inj hv ▸ h

end

theorem Postgres.keepBodies : Postgres.clauses.KeepBodies where
  createOption := .pure false
  createForm := .fail
  tableElement := fun _ => yields_none
  tableClause := fun t => by
    refine .after fun _ => .ite (.after fun _ => yields_some ⟨rfl, rfl, rfl⟩) ?_
    refine .after fun _ => .ite (.after fun _ => yields_some ⟨rfl, rfl, rfl⟩) ?_
    refine .after fun _ => .ite (.after fun _ => yields_some ⟨rfl, rfl, rfl⟩) ?_
    refine .after fun _ => .ite (.after fun _ => .after fun _ => .after fun _ =>
      yields_some ⟨rfl, rfl, rfl⟩) ?_
    refine .after fun _ => .ite (yields_some .rfl) ?_
    refine .after fun _ => .ite (yields_some .rfl) ?_
    refine .after fun _ => .ite (.after fun _ => .after fun _ =>
      yields_some ⟨rfl, rfl, rfl⟩) ?_
    refine .after fun _ => .ite (.after fun method => .pure fun u hu => ?_) yields_none
    dsimp only at hu
    split at hu
    · exact Option.some.inj hu ▸ .rfl
    · exact Option.some.inj hu ▸ ⟨rfl, rfl, rfl⟩

namespace MySql

theorem leaves_hosts : Leaves (hosts ()) := by
  refine .iterate (fun _ => (Leaves.symbol "@").bind fun _ => .ite ?_ (.pure none)) ()
  exact Leaves.value.optional.bind fun _ => .pure (some ())

theorem leaves_createOption : Leaves createOption := by
  refine (Leaves.keywords _).bind fun _ => .ite ?_ ?_
  · refine (Leaves.symbol "=").bind fun _ => Leaves.value.optional.bind fun _ => ?_
    exact Leaves.skipGroup.bind fun _ => leaves_hosts.bind fun _ => .pure true
  refine (Leaves.keywords _).bind fun _ => .ite ?_ ?_
  · exact (Leaves.symbol "=").bind fun _ => Leaves.skip.bind fun _ => .pure true
  exact (Leaves.keywords _).bind fun _ => .ite (Leaves.skip.bind fun _ => .pure true) (.pure false)

theorem yields_assignedOption (t : Table) (key : String) :
    Yields (fun u => ∀ v ∈ u, t.SameBody v) (assignedOption t key) := by
  refine .after fun v => ?_
  cases v with
  | none => exact yields_some .rfl
  | some v => exact yields_some ⟨rfl, rfl, rfl⟩

theorem keepBodies : clauses.KeepBodies where
  createOption := leaves_createOption
  createForm := .fail
  tableElement := fun t => by
    refine .after fun kind => ?_
    cases kind with
    | none => exact yields_none
    | some kind =>
        refine .joined (.after fun _ => .after fun _ => .iteAfter fun name => ?_)
        refine .after fun _ => .joined (.after fun columns => ?_)
        cases columns with
        | nil => exact yields_none
        | cons first others => exact .after fun i => yields_some ⟨rfl, rfl, rfl⟩
  tableClause := fun t => by
    refine .after fun _ => .joined ?_
    refine .after fun _ => .ite (.after fun _ => yields_some ⟨rfl, rfl, rfl⟩) ?_
    refine .after fun _ => .ite (.after fun _ => yields_some .rfl) ?_
    refine .after fun _ => .ite (yields_assignedOption t _) ?_
    refine .after fun _ => .ite (yields_assignedOption t _) ?_
    refine .after fun _ => .ite (yields_assignedOption t _) ?_
    refine .after fun _ => .ite (yields_assignedOption t _) ?_
    refine .after fun _ => .ite (.after fun _ => yields_some ⟨rfl, rfl, rfl⟩) ?_
    exact .after fun _ => .ite (yields_some ⟨rfl, rfl, rfl⟩) yields_none

end MySql

theorem Sqlite.yields_createForm :
    Yields (fun o => o.kind = .virtualTable) Sqlite.clauses.createForm := by
  refine .after fun _ => .after fun _ => .ite ?_ .fail
  refine .after fun _ => .after fun _ => .after fun _ => .ite ?_ .fail
  exact .after fun _ => .after fun _ => .pure rfl

theorem Db2.yields_createForm :
    Yields (fun o => o.kind = .auxiliaryTable) Db2.clauses.createForm := by
  refine .after fun word => ?_
  cases word with
  | none => exact .fail
  | some word =>
      refine .after fun _ => .ite .failed (.after fun name => .after fun _ => ?_)
      refine .iteAfter fun place => .after fun _ => .ite .failed (.after fun base => ?_)
      refine .after fun _ => .ite .failed (.after fun column => .after fun _ => ?_)
      exact .ite (.after fun part => .pure rfl) (.pure rfl)

theorem Clauses.yields_createForm (d : Dialect) :
    Yields (fun o => o.kind = .virtualTable ∨ o.kind = .auxiliaryTable)
      (Clauses.ofDialect d).createForm := by
  cases d with
  | postgres | mySql => exact .fail
  | sqlite => exact fun d ts rest o h => .inl (Sqlite.yields_createForm d ts rest o h)
  | db2 => exact fun d ts rest o h => .inr (Db2.yields_createForm d ts rest o h)

theorem Sqlite.keepBodies : Sqlite.clauses.KeepBodies where
  createOption := .pure false
  createForm := by
    rintro d ts rest _ h t rfl
    cases Sqlite.yields_createForm _ _ _ _ h
  tableElement := fun _ => yields_none
  tableClause := fun t => by
    refine .after fun _ => .ite (yields_some ⟨rfl, rfl, rfl⟩) ?_
    exact .after fun _ => .ite (yields_some ⟨rfl, rfl, rfl⟩) yields_none

theorem Db2.keepBodies : Db2.clauses.KeepBodies where
  createOption := .pure false
  createForm := by
    rintro d ts rest _ h t rfl
    cases Db2.yields_createForm _ _ _ _ h
  tableElement := fun _ => yields_none
  tableClause := fun t => by
    refine .after fun s => ?_
    cases s with
    | some s => exact yields_some ⟨rfl, rfl, rfl⟩
    | none =>
        refine .after fun _ => .ite (.after fun _ => yields_some ⟨rfl, rfl, rfl⟩) ?_
        refine .after fun _ => .ite (.after fun _ => yields_some ⟨rfl, rfl, rfl⟩) ?_
        refine .after fun _ => .ite (.after fun _ => yields_some ⟨rfl, rfl, rfl⟩) ?_
        refine .after fun _ => .ite (.after fun _ => yields_some ⟨rfl, rfl, rfl⟩) ?_
        exact .after fun _ => .ite (.after fun _ => yields_some ⟨rfl, rfl, rfl⟩) yields_none

theorem Clauses.keepBodies_ofDialect (d : Dialect) : (Clauses.ofDialect d).KeepBodies := by
  cases d with
  | postgres => exact Postgres.keepBodies
  | mySql => exact MySql.keepBodies
  | sqlite => exact Sqlite.keepBodies
  | db2 => exact Db2.keepBodies

section

variable {clauses : Clauses} (hclauses : clauses.KeepBodies)

include hclauses

theorem yields_tableElement (t : Table) :
    Yields (fun u => u.name = t.name) (tableElement clauses t) := by
  refine .after fun _ => .ite (.pure rfl) (.after fun _ => .ite .fail ?_)
  refine (hclauses.tableElement t).bind fun u hu => ?_
  cases u with
  | some u => exact .pure (hu u rfl).name
  | none =>
      refine .after fun _ => .ite (.after fun columns => .pure ?_) ?_
      · unfold period
        split <;> rfl
      refine .after fun _ => .ite (.after fun _ => .ite ?_ ?_) ?_
      · exact .after fun _ => .after fun _ => .pure rfl
      · exact .after fun _ => .pure rfl
      · exact .after fun c => .pure rfl

theorem yields_tableElements (t : Table) (parts : List (List Token)) :
    Yields (fun u => u.name = t.name) (tableElements clauses t parts) := by
  induction parts generalizing t with
  | nil => exact .pure rfl
  | cons part parts ih =>
      intro d ts rest u h
      obtain ⟨t', mid, hpart, h⟩ := bind_eq_some.1 h
      obtain ⟨⟨_, hpart⟩, -⟩ := within_eq_some.1 hpart
      exact (ih t' _ _ _ _ h).trans (yields_tableElement hclauses t _ _ _ _ hpart)

theorem yields_tableStep {t u : Table} (h : t.SameBody u) :
    Yields t.SameBody (tableStep clauses u) := by
  refine .after fun _ => .ite (.pure h) ?_
  refine (hclauses.tableClause u).bind fun v hv => ?_
  cases v with
  | some v => exact .pure (h.trans (hv v rfl))
  | none => exact .after fun _ => .pure ⟨h.name, h.columns, h.constraints⟩

end

end Grammar

open Grammar

def Token.Encloses (ts body : List Token) : Prop :=
  ∃ opening rest, opening :: rest <:+ ts ∧ opening.isSymbol "(" = true ∧
    body = (Token.groupFrom 1 rest).1

def Table.WrittenIn (d : Dialect) (ts : List Token) (t : Table) : Prop :=
  ∃ body us rest, Token.Encloses ts body ∧
    tableElements (Clauses.ofDialect d) (.new t.name) (Token.splitCommas body) d us =
      .ok (some t, rest)

theorem Grammar.exists_writtenIn {d : Dialect} {ts rest : List Token} {t : Table}
    (h : table (Clauses.ofDialect d) d ts = .ok (some t, rest)) :
    ∃ written : Table, written.WrittenIn d ts ∧ written.enforcePrimaryKey.SameBody t := by
  have hclauses := Clauses.keepBodies_ofDialect d
  obtain ⟨_, ts₁, hif, h⟩ := bind_eq_some.1 h
  obtain ⟨name, ts₂, hname, h⟩ := bind_eq_some.1 h
  obtain ⟨body, ts₃, hbody, h⟩ := bind_eq_some.1 h
  obtain ⟨written, ts₄, hwritten, h⟩ := bind_eq_some.1 h
  have hsuffix : ts₂ <:+ ts :=
    (Leaves.qualifiedName _ _ _ _ hname).trans (Leaves.keywords _ _ _ _ _ hif)
  have hencloses : Token.Encloses ts body := by
    cases ts₂ with
    | nil => cases hbody
    | cons opening us =>
        unfold Reader.group at hbody
        simp only at hbody
        split at hbody
        · next hopening =>
            cases hbody
            exact ⟨opening, us, hsuffix, hopening, rfl⟩
        · cases hbody
  have hnamed : written.name = name := yields_tableElements hclauses _ _ _ _ _ _ hwritten
  refine ⟨written, ⟨body, ts₃, ts₄, hencloses, hnamed ▸ hwritten⟩, ?_⟩
  exact Yields.untilEnd (fun u hu => yields_tableStep hclauses hu) .rfl _ _ _ _ h

theorem Grammar.exists_table_of_create {d : Dialect} {ts rest : List Token} {t : Table}
    (h : create (Clauses.ofDialect d) d ts = .ok (some (.table t), rest)) :
    ∃ us rest, us <:+ ts ∧ table (Clauses.ofDialect d) d us = .ok (some t, rest) := by
  have hclauses := Clauses.keepBodies_ofDialect d
  obtain ⟨_, ts₁, hreplace, h⟩ := bind_eq_some.1 h
  obtain ⟨_, ts₂, hoptions, h⟩ := bind_eq_some.1 h
  obtain ⟨form, ts₃, hform, h⟩ := bind_eq_some.1 h
  cases form with
  | some o =>
      obtain ⟨rfl, -⟩ := pure_eq_some.1 h
      exact absurd rfl (hclauses.createForm _ _ _ _ (attempt_eq_some.1 hform) t)
  | none =>
      obtain ⟨o, ts₄, ho, h⟩ := bind_eq_some.1 h
      obtain ⟨kind, ts₅, hkind, h⟩ := bind_eq_some.1 h
      have hother {α : Type} {p : Reader α} {f : α → Object}
          (h : (p >>= fun a => pure (f a)) d ts₅ = .ok (some (.table t), rest))
          (hf : ∀ a, f a ≠ .table t) : False := by
        obtain ⟨a, _, -, h⟩ := bind_eq_some.1 h
        exact hf a (pure_eq_some.1 h).1
      have hsuffix : ts₅ <:+ ts := by
        have h₄ : ts₄ <:+ ts₃ := by
          refine Leaves.iterate (fun o => ?_) _ _ _ _ _ ho
          refine (Leaves.peek upperWord?).bind fun word => ?_
          split
          case h_5 => exact .ite (Leaves.skip.bind fun _ => .pure _) (.pure none)
          case h_6 => exact .pure none
          all_goals exact Leaves.skip.bind fun _ => .pure _
        have h₂ : ts₂ <:+ ts₁ := by
          refine Leaves.iterate (fun _ => ?_) _ _ _ _ _ hoptions
          exact hclauses.createOption.bind fun _ => .pure _
        rw [eq_of_attempt_eq_none hform] at h₄
        exact (Leaves.oneOf _ _ _ _ _ hkind).trans
          (h₄.trans (h₂.trans (Leaves.keywords _ _ _ _ _ hreplace)))
      split at h
      · obtain ⟨t', ts₆, htable, h⟩ := bind_eq_some.1 h
        obtain ⟨ht, -⟩ := pure_eq_some.1 h
        exact ⟨ts₅, ts₆, hsuffix, Object.table.inj ht ▸ htable⟩
      case h_8 => cases h
      all_goals exact (hother h (fun _ => nofun)).elim

theorem Table.WrittenIn.of_suffix {d : Dialect} {us ts : List Token} {t : Table}
    (h : t.WrittenIn d us) (hsuffix : us <:+ ts) : t.WrittenIn d ts := by
  obtain ⟨body, vs, rest, ⟨opening, inner, hinner, hencloses⟩, hread⟩ := h
  exact ⟨body, vs, rest, ⟨opening, inner, hinner.trans hsuffix, hencloses⟩, hread⟩

/-- An object that is not kept as text is what `create` makes of the statement. -/
theorem Definition.exists_create {d : Dialect} {s : String} {o : Object}
    (h : Definition.ofStatement? d s = .ok (some (.object o))) (ho : ∀ raw, o ≠ .raw raw) :
    ∃ rest, (skip >>= fun _ => create (Clauses.ofDialect d)) d (Token.lex d s.toList) =
      .ok (some o, rest) := by
  have hraw {r : Except Fault RawStatement} : (do return some (.object (.raw (← r)))) ≠
      (.ok (some (.object o)) : Except Fault (Option Definition)) := by
    intro h
    obtain ⟨raw, -, h⟩ := Outcome.bind_eq_ok.1 h
    cases h
    exact ho raw rfl
  unfold Definition.ofStatement? Definition.ofChars? at h
  simp only at h
  split at h
  · obtain ⟨found, hrun, h⟩ := Outcome.bind_eq_ok.1 h
    cases found with
    | none => exact absurd h hraw
    | some o =>
        cases h
        obtain ⟨⟨found, rest⟩, hread, rfl⟩ := Outcome.exists_of_map hrun
        exact ⟨rest, hread⟩
  · obtain ⟨raw, -, h⟩ := Outcome.bind_eq_ok.1 h
    obtain ⟨found, -, h⟩ := Outcome.bind_eq_ok.1 h
    cases found with
    | none =>
        cases h
        exact absurd rfl (ho raw)
    | some found => cases h
  · exact absurd h hraw
  · exact absurd h hraw
  · cases h

/-- A table that a statement defines is made of the elements written there. -/
theorem Definition.exists_writtenIn {d : Dialect} {s : String} {t : Table}
    (h : Definition.ofStatement? d s = .ok (some (.object (.table t)))) :
    ∃ written : Table, written.WrittenIn d (Token.lex d s.toList) ∧
      written.enforcePrimaryKey.SameBody t := by
  obtain ⟨rest, hread⟩ := Definition.exists_create h fun raw h => by cases h
  obtain ⟨_, ts, hskip, hread⟩ := bind_eq_some.1 hread
  obtain ⟨us, rest, hsuffix, htable⟩ := exists_table_of_create hread
  obtain ⟨written, hwritten, hbody⟩ := Grammar.exists_writtenIn htable
  have hts := Leaves.skip _ _ _ _ hskip
  exact ⟨written, hwritten.of_suffix (hsuffix.trans hts), hbody⟩

end SchemaDrift
