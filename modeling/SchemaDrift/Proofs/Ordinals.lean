import SchemaDrift.Proofs.Agreement
import SchemaDrift.Proofs.PrimaryKeys
import SchemaDrift.Proofs.Restriction

namespace SchemaDrift

open Reader

structure Column.SamePlace (b c : Column) : Prop where
  name : c.name = b.name
  ordinal : c.ordinal = b.ordinal

theorem Column.SamePlace.refl (c : Column) : c.SamePlace c := ⟨rfl, rfl⟩

theorem Column.SamePlace.trans {b c e : Column} (h : b.SamePlace c) (h' : c.SamePlace e) :
    b.SamePlace e :=
  ⟨h'.name.trans h.name, h'.ordinal.trans h.ordinal⟩

namespace Grammar

def Clauses.KeepPlaces (clauses : Clauses) : Prop :=
  ∀ b c : Column, b.SamePlace c → Yields (fun found => ∀ e ∈ found, b.SamePlace e)
    (clauses.columnClause c)

section

variable {b c : Column}

theorem yields_noColumn : Yields (fun found => ∀ e ∈ found, b.SamePlace e) (pure none) :=
  .pure fun _ he => nomatch he

theorem yields_someColumn (h : b.SamePlace c) :
    Yields (fun found => ∀ e ∈ found, b.SamePlace e) (pure (some c)) :=
  .pure fun _ he => Option.some.inj he ▸ h

end

theorem Sqlite.keepPlaces : Sqlite.clauses.KeepPlaces := by
  intro b c h
  refine .after fun _ => .ite (.after fun action => ?_) yields_noColumn
  cases action with
  | none => exact yields_someColumn h
  | some action => exact .after fun _ => yields_someColumn ⟨h.name, h.ordinal⟩

theorem Db2.keepPlaces : Db2.clauses.KeepPlaces := by
  intro b c h
  refine .after fun _ => .ite (.after fun s => .ite ?_ (.after fun d => ?_)) ?_
  · exact yields_someColumn ⟨h.name, h.ordinal⟩
  · exact yields_someColumn ⟨h.name, h.ordinal⟩
  refine .after fun _ => .ite (yields_someColumn ⟨h.name, h.ordinal⟩) ?_
  refine .after fun _ => .ite (.after fun size => ?_) yields_noColumn
  exact yields_someColumn ⟨h.name, h.ordinal⟩

theorem Clauses.keepPlaces_ofDialect (d : Dialect) : (Clauses.ofDialect d).KeepPlaces := by
  cases d with
  | postgres | mySql => exact fun _ _ _ => yields_noColumn
  | sqlite => exact Sqlite.keepPlaces
  | db2 => exact Db2.keepPlaces

structure ColumnDraft.Redescribes (r s : ColumnDraft) : Prop where
  column : r.column.SamePlace s.column
  lifted : s.lifted = r.lifted
  pending : s.pending = r.pending

section

variable {r : ColumnDraft}

theorem ColumnDraft.redescribes_withAttribute (clause : String) :
    r.Redescribes (r.withAttribute clause) :=
  ⟨⟨rfl, rfl⟩, rfl, rfl⟩

theorem ColumnDraft.redescribes_withGeneration (g : Generation) :
    r.Redescribes (r.withGeneration g) :=
  ⟨⟨rfl, rfl⟩, rfl, rfl⟩

open ColumnDraft

theorem yields_generated : Yields r.Redescribes (generated r) := by
  have hgenerated (g : Generation) := redescribes_withGeneration (r := r) g
  have hattribute (clause : String) := redescribes_withAttribute (r := r) clause
  refine .after fun _ => .joined ?_
  refine .after fun _ => .ite (.after fun _ => .pure (hgenerated _)) ?_
  refine .after fun _ => .ite (.pure (hgenerated _)) ?_
  refine .after fun _ => .ite (.pure (hgenerated _)) ?_
  refine .after fun _ => .ite (.pure (hgenerated _)) ?_
  refine .after fun _ => .ite (.pure (hgenerated _)) ?_
  refine .after fun _ => .ite ?_ ?_
  · exact .after fun _ => .after fun _ => .after fun _ => .pure (hgenerated _)
  exact .after fun _ => .ite (.pure (hattribute _)) (.pure (hattribute _))

theorem yields_defaultClause : Yields r.Redescribes (defaultClause r) := by
  refine .after fun _ => .after fun _ => .pure ?_
  dsimp only
  split
  · exact ⟨⟨rfl, rfl⟩, rfl, rfl⟩
  · exact ⟨⟨rfl, rfl⟩, rfl, rfl⟩

/-- Most words only describe the column. -/
theorem yields_clauseAfter_of_not_mem {word : String}
    (h : word ∉ ["CONSTRAINT", "UNIQUE", "CHECK"]) :
    Yields r.Redescribes (clauseAfter r word) := by
  have hgenerated (g : Generation) := redescribes_withGeneration (r := r) g
  have hattribute (clause : String) := redescribes_withAttribute (r := r) clause
  fun_cases clauseAfter r word
  case case1 => exact .pure ⟨⟨rfl, rfl⟩, rfl, rfl⟩
  case case2 => exact yields_defaultClause
  case case3 | case4 | case5 => exact absurd (by decide) h
  case case6 => exact yields_generated
  case case7 => exact .after fun _ => .after fun _ => .after fun _ => .pure (hgenerated _)
  case case8 | case9 | case10 => exact .after fun _ => .pure (hgenerated _)
  case case11 => exact .after fun _ => .after fun _ => .pure (hattribute _)
  case case12 => exact .after fun _ => .pure (hattribute _)
  case case13 | case14 => exact .after fun _ => .after fun _ => .after fun _ => .pure (hattribute _)
  case case15 =>
      refine .after fun args => ?_
      cases args with
      | none => exact .pure (hattribute _)
      | some args => exact .after fun _ => .pure (hattribute _)

theorem yields_clauseAfter (word : String) :
    Yields (fun s => r.column.SamePlace s.column) (clauseAfter r word) := by
  by_cases hword : word ∈ ["CONSTRAINT", "UNIQUE", "CHECK"]
  · simp only [List.mem_cons, List.not_mem_nil, or_false] at hword
    rcases hword with rfl | rfl | rfl
    · exact .after fun _ => .pure (.refl r.column)
    · exact .after fun _ => .pure (.refl r.column)
    · exact .after fun _ => .after fun _ => .pure (.refl r.column)
  · exact fun _ _ _ _ h => (yields_clauseAfter_of_not_mem hword _ _ _ _ h).column

end

theorem yields_columnStep {clauses : Clauses} (hclauses : clauses.KeepPlaces) {b : Column}
    {r : ColumnDraft} (h : b.SamePlace r.column) :
    Yields (fun s => b.SamePlace s.column) (columnStep clauses r) := by
  refine (hclauses b r.column h).bind fun found hfound => ?_
  cases found with
  | some c => exact .pure (hfound c rfl)
  | none =>
      refine .after fun word => ?_
      dsimp only
      split
      · exact .after fun _ => .pure h
      · exact .after fun _ => .pure h
      · next word _ =>
          refine .after fun _ => .ite (.pure ⟨h.name, h.ordinal⟩) ?_
          refine .after fun _ => .ite (.after fun _ => .pure ⟨h.name, h.ordinal⟩) ?_
          refine .after fun _ => .ite ?_ (.after fun _ => ?_)
          · exact .after fun _ => .after fun _ => .pure ⟨h.name, h.ordinal⟩
          · exact fun _ _ _ _ hs => h.trans (yields_clauseAfter word _ _ _ _ hs)

/-- A column is of the place that it is read for. -/
theorem yields_column {clauses : Clauses} (hclauses : clauses.KeepPlaces) (ordinal : Nat) :
    Yields (fun p => p.1.ordinal = ordinal) (column clauses ordinal) := by
  refine .after fun name => .after fun t => ?_
  generalize hblank : (⟨name, t.dataType, true, none, if t.serial then .identity else .plain,
    ordinal, []⟩ : Column) = blank
  refine (Yields.untilEnd (P := fun r => blank.SamePlace r.column)
    (fun r hr => yields_columnStep hclauses hr) (.refl blank)).bind fun r hr => .after fun d => ?_
  refine .pure ?_
  have hordinal : r.column.ordinal = ordinal := by
    rw [hr.ordinal, ← hblank]
  unfold settle
  split <;> exact hordinal

end Grammar

namespace Table

variable {t u : Table}

theorem Numbered.of_columns (h : t.Numbered) (hcolumns : u.columns = t.columns) : u.Numbered := by
  rw [Numbered, hcolumns]
  exact h

theorem numbered_new (name : QualifiedName) : (Table.new name).Numbered := rfl

/-- A column goes on behind the others. -/
theorem Numbered.concat (h : t.Numbered) {c : Column} (hc : c.ordinal = t.columns.length + 1)
    (hu : u.columns = t.columns ++ [c]) : u.Numbered := by
  rw [Numbered, hu, List.map_append, h, List.length_append, List.length_singleton,
    List.range'_1_concat, List.map_singleton, hc, Nat.add_comm]

theorem map_ordinal_replaceFirst {old c : Column} {cs : List Column}
    (h : cs.find? (·.name == c.name) = some old) :
    (addColumn.replaceFirst { c with ordinal := old.ordinal } cs).map Column.ordinal =
      cs.map Column.ordinal := by
  induction cs with
  | nil => cases h
  | cons b cs ih =>
      rw [addColumn.replaceFirst]
      rw [List.find?_cons] at h
      by_cases hb : (b.name == c.name) = true
      · rw [hb] at h
        obtain rfl := Option.some.inj h
        rw [if_pos hb]
        rfl
      · rw [Bool.not_eq_true] at hb
        rw [hb] at h
        rw [if_neg (by rw [hb]; exact Bool.false_ne_true), List.map_cons, ih h, List.map_cons]

theorem Numbered.addColumn (h : t.Numbered) (c : Column) : (t.addColumn c).Numbered := by
  unfold Table.addColumn
  split
  · next old hold =>
      have hmap := map_ordinal_replaceFirst hold
      have hlength := congrArg List.length hmap
      rw [List.length_map, List.length_map] at hlength
      rw [Numbered, hmap, hlength]
      exact h
  · exact h.concat rfl rfl

theorem Numbered.addConstraint (h : t.Numbered) (c : Constraint) :
    (t.addConstraint c).Numbered := by
  unfold Table.addConstraint
  split
  · exact h
  · exact h.of_columns rfl

theorem Numbered.enforcePrimaryKey (h : t.Numbered) : t.enforcePrimaryKey.Numbered := by
  have hmap : t.enforcePrimaryKey.columns.map Column.ordinal = t.columns.map Column.ordinal := by
    rw [Table.enforcePrimaryKey, List.map_map]
    refine List.map_congr_left fun c _ => ?_
    dsimp only [Function.comp_apply]
    split <;> rfl
  have hlength : t.enforcePrimaryKey.columns.length = t.columns.length := List.length_map _
  rw [Numbered, hmap, hlength]
  exact h

theorem Numbered.applyAll (h : t.Numbered) (changes : List TableChange) :
    (t.applyAll changes).Numbered := by
  have hfold : (changes.foldl Table.apply t).Numbered := by
    induction changes generalizing t with
    | nil => exact h
    | cons change changes ih =>
        cases change with
        | addColumn c => exact ih (h.addColumn c)
        | addConstraint c => exact ih (h.addConstraint c)
  exact hfold.enforcePrimaryKey

end Table

namespace Grammar

section

variable {clauses : Clauses} (hbodies : clauses.KeepBodies) (hplaces : clauses.KeepPlaces)

include hbodies hplaces

theorem numbered_tableElement {t : Table} (h : t.Numbered) :
    Yields Table.Numbered (tableElement clauses t) := by
  refine .after fun _ => .ite (.pure h) (.after fun _ => .ite .fail ?_)
  refine (hbodies.tableElement t).bind fun u hu => ?_
  cases u with
  | some u => exact .pure (h.of_columns (hu u rfl).columns)
  | none =>
      refine .after fun _ => .ite (.after fun columns => .pure ?_) ?_
      · refine h.of_columns ?_
        unfold period
        split <;> rfl
      refine .after fun _ => .ite (.after fun _ => .ite ?_ ?_) ?_
      · exact .after fun _ => .after fun _ => .pure (h.of_columns rfl)
      · exact .after fun _ => .pure (h.of_columns rfl)
      · exact (yields_column hplaces _).bind fun p hp => .pure (h.concat hp rfl)

theorem numbered_tableElements {t : Table} (h : t.Numbered) (parts : List (List Token)) :
    Yields Table.Numbered (tableElements clauses t parts) := by
  induction parts generalizing t with
  | nil => exact .pure h
  | cons part parts ih =>
      intro d ts rest u hu
      obtain ⟨t', mid, hpart, hu⟩ := bind_eq_some.1 hu
      obtain ⟨⟨_, hpart⟩, -⟩ := within_eq_some.1 hpart
      exact ih (numbered_tableElement hbodies hplaces h _ _ _ _ hpart) _ _ _ _ hu

end

end Grammar

theorem Definition.numbered {d : Dialect} {s : String} {t : Table}
    (h : Definition.ofStatement? d s = .ok (some (.object (.table t)))) : t.Numbered := by
  obtain ⟨written, ⟨body, us, rest, -, hread⟩, hbody⟩ := exists_writtenIn h
  have hwritten := Grammar.numbered_tableElements (Grammar.Clauses.keepBodies_ofDialect d)
    (Grammar.Clauses.keepPlaces_ofDialect d) (Table.numbered_new written.name) _ _ _ _ _ hread
  exact hwritten.enforcePrimaryKey.of_columns hbody.columns

namespace Model

/-- A model as it may come about: read from scripts or from a catalog, or empty; with objects that
statements define put in, and with kinds of objects left out. -/
inductive Gathered (d : Dialect) : Model → Prop
  | empty : Gathered d .empty
  | scripts {ss : List Script} {m : Model} (h : ofScripts d ss = .ok m) : Gathered d m
  | catalog {rows : Catalog} {m : Model} (h : rows.model d = .ok m) : Gathered d m
  | insert {m : Model} {s : String} {o : Object} (hm : Gathered d m)
      (ho : Object.ofStatement? d s = .ok (some o)) : Gathered d (m.insert o)
  | filter {m : Model} (hm : Gathered d m) (kinds : List Kind) : Gathered d (m.filter kinds)

variable {d : Dialect} {m : Model}

theorem numbered_ofScripts {scripts : List Script} (h : ofScripts d scripts = .ok m) :
    m.Tables Table.Numbered :=
  Tables.ofScripts (fun _ _ _ _ _ ho => Definition.numbered ho)
    (fun _ _ _ _ changes _ _ _ ht => ht.applyAll changes) h

end Model

namespace Catalog

variable {d : Dialect} {rows : Catalog}

theorem numbered_changeLast {meant : Entry → Bool} {f : Table → Table}
    (hf : ∀ t, t.Numbered → (f t).Numbered) {es : List Entry}
    (hes : ∀ e ∈ es, e.table.Numbered) : ∀ e ∈ changeLast meant f es, e.table.Numbered := by
  intro e he
  rcases mem_changeLast he with he | ⟨old, hold, -, rfl⟩
  · exact hes e he
  · exact hf old.table (hes old hold)

theorem numbered_ofRow {r : TableRow} {e : Entry} (h : Entry.ofRow d r = .ok e) :
    e.table.Numbered := by
  rw [Entry.ofRow] at h
  cases hkey : r.partitionKey with
  | none =>
      rw [hkey] at h
      cases h
      exact rfl
  | some key =>
      rw [hkey] at h
      obtain ⟨partition, -, h⟩ := Outcome.bind_eq_ok.1 h
      cases h
      exact rfl

theorem numbered_entries {es : List Entry} {unread : List String}
    (h : rows.entries d = .ok (es, unread)) : ∀ e ∈ es, e.table.Numbered := by
  obtain ⟨made, hmade, h⟩ := Outcome.bind_eq_ok.1 h
  obtain ⟨filled, hfilled, h⟩ := Outcome.bind_eq_ok.1 h
  have hempty : ∀ e ∈ made, e.table.Numbered := by
    intro e he
    obtain ⟨r, -, hr⟩ := Outcome.exists_of_mem_mapM hmade he
    exact numbered_ofRow hr
  have hcolumns : ∀ e ∈ filled, e.table.Numbered := by
    refine Outcome.foldlM_keeps (P := fun es => ∀ e ∈ es, e.table.Numbered)
      (fun es r _ fs hstep hes => ?_) hfilled hempty
    unfold addColumn at hstep
    split at hstep
    · obtain ⟨c, -, hstep⟩ := Outcome.bind_eq_ok.1 hstep
      cases hstep
      exact numbered_changeLast (fun t ht => ht.concat rfl rfl) hes
    · cases hstep
      exact hes
  refine Outcome.foldlM_keeps (P := fun s => ∀ e ∈ s.1, e.table.Numbered)
    (fun s r _ t hstep hs => ?_) h hcolumns
  unfold addConstraint at hstep
  split at hstep
  · obtain ⟨k, -, hstep⟩ := Outcome.bind_eq_ok.1 hstep
    cases k with
    | none =>
        cases hstep
        exact hs
    | some k =>
        cases hstep
        refine numbered_changeLast (fun t ht => ?_) hs
        exact ht.of_columns (u := { t with constraints := t.constraints ++ [k] }) rfl
  · cases hstep
    exact hs

theorem numbered_model {m : Model} (h : rows.model d = .ok m) : m.Tables Table.Numbered :=
  tables_of_entries h fun _ _ hentries e he => (numbered_entries hentries e he).enforcePrimaryKey

end Catalog

theorem Model.Gathered.numbered {d : Dialect} {m : Model} (h : m.Gathered d) :
    m.Tables Table.Numbered := by
  induction h with
  | empty => exact fun t ht => nomatch ht
  | scripts h => exact numbered_ofScripts h
  | catalog h => exact Catalog.numbered_model h
  | insert hm ho ih =>
      refine ih.insert fun t ht => ?_
      subst ht
      obtain ⟨found, hfound, ho⟩ := Outcome.bind_eq_ok.1 ho
      cases found with
      | none => cases ho
      | some found =>
          cases found with
          | object o =>
              cases ho
              exact Definition.numbered hfound
          | change => cases ho
  | filter hm kinds ih =>
      intro t ht
      rw [Model.objects_filter] at ht
      exact ih t (List.mem_filter.1 ht).1

end SchemaDrift
