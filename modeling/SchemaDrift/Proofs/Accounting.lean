import SchemaDrift.Proofs.Alterations
import SchemaDrift.Proofs.Occurrences
import SchemaDrift.Proofs.Outcomes

namespace SchemaDrift

open Reader Grammar

namespace Definition

/-- What a statement says: something only if it begins with one of four words, and no more than its
own text where it is not understood. -/
inductive Stated (d : Dialect) (text : String) : Option Definition → Prop
  | created {o : Object} (verb : upperWord? (Token.lex d text.toList) = some "CREATE")
      (read : run? (do skip; create (Clauses.ofDialect d)) d text.toList = .ok (some o)) :
      Stated d text (some (.object o))
  | unread {raw : RawStatement} (verb : upperWord? (Token.lex d text.toList) = some "CREATE")
      (read : run? (do skip; create (Clauses.ofDialect d)) d text.toList = .ok none)
      (kept : rawStatement d text.toList = .ok raw) : Stated d text (some (.object (.raw raw)))
  | altered {name : QualifiedName} {changes : List TableChange} {raw : RawStatement}
      (verb : upperWord? (Token.lex d text.toList) = some "ALTER")
      (read : run? (do skip; alter (Clauses.ofDialect d)) d text.toList =
        .ok (some (name, changes)))
      (kept : rawStatement d text.toList = .ok raw) :
      Stated d text (some (.change name changes raw))
  | unfoldable {raw : RawStatement}
      (verb : upperWord? (Token.lex d text.toList) = some "ALTER")
      (read : run? (do skip; alter (Clauses.ofDialect d)) d text.toList = .ok none)
      (kept : rawStatement d text.toList = .ok raw) : Stated d text (some (.object (.raw raw)))
  | removed {raw : RawStatement}
      (verb : upperWord? (Token.lex d text.toList) = some "DROP" ∨
        upperWord? (Token.lex d text.toList) = some "RENAME")
      (kept : rawStatement d text.toList = .ok raw) : Stated d text (some (.object (.raw raw)))
  | nothing (verb : ∀ w ∈ ["CREATE", "ALTER", "DROP", "RENAME"],
      upperWord? (Token.lex d text.toList) ≠ some w) : Stated d text none

variable {d : Dialect} {text : String} {found : Option Definition}

theorem ofStatement?_of_stated (h : Stated d text found) :
    ofStatement? d text = .ok found := by
  rw [ofStatement?, ofChars?]
  cases h with
  | created verb read =>
      rw [verb]
      simp only [read]
      rfl
  | unread verb read kept =>
      rw [verb]
      simp only [read, kept]
      rfl
  | altered verb read kept =>
      rw [verb]
      simp only [read, kept]
      rfl
  | unfoldable verb read kept =>
      rw [verb]
      simp only [read, kept]
      rfl
  | removed verb kept =>
      rcases verb with verb | verb
      · rw [verb, kept]
        rfl
      · rw [verb, kept]
        rfl
  | nothing verb =>
      simp only [List.forall_mem_cons] at verb
      obtain ⟨hcreate, halter, hdrop, hrename, -⟩ := verb
      split
      · next h => exact absurd h hcreate
      · next h => exact absurd h halter
      · next h => exact absurd h hdrop
      · next h => exact absurd h hrename
      · rfl

theorem stated_of_ofStatement? (h : ofStatement? d text = .ok found) : Stated d text found := by
  have hkept {x : Except Fault RawStatement}
      (h : (do return some (.object (.raw (← x)))) = (.ok found : Except Fault _)) :
      ∃ raw, x = .ok raw ∧ found = some (.object (.raw raw)) := by
    obtain ⟨raw, hraw, hfound⟩ := Outcome.bind_eq_ok.1 h
    exact ⟨raw, hraw, (Except.ok.inj hfound).symm⟩
  rw [ofStatement?, ofChars?] at h
  split at h
  · next verb =>
      obtain ⟨o, read, h⟩ := Outcome.bind_eq_ok.1 h
      cases o with
      | some o =>
          cases h
          exact .created verb read
      | none =>
          obtain ⟨raw, kept, rfl⟩ := hkept h
          exact .unread verb read kept
  · next verb =>
      obtain ⟨raw, kept, h⟩ := Outcome.bind_eq_ok.1 h
      obtain ⟨changes, read, h⟩ := Outcome.bind_eq_ok.1 h
      cases changes with
      | some changes =>
          cases h
          exact .altered verb read kept
      | none =>
          cases h
          exact .unfoldable verb read kept
  · next verb =>
      obtain ⟨raw, kept, rfl⟩ := hkept h
      exact .removed (.inl verb) kept
  · next verb =>
      obtain ⟨raw, kept, rfl⟩ := hkept h
      exact .removed (.inr verb) kept
  · next hcreate halter hdrop hrename =>
      cases h
      refine .nothing ?_
      simp only [List.forall_mem_cons]
      exact ⟨hcreate, halter, hdrop, hrename, fun _ hw => nomatch hw⟩

theorem stated_iff : Stated d text found ↔ ofStatement? d text = .ok found :=
  ⟨ofStatement?_of_stated, stated_of_ofStatement?⟩

end Definition

structure Alteration where
  location : String
  table : QualifiedName
  changes : List TableChange
  raw : RawStatement

/-- What an item of a script brings, at its line. A piece that could not be split is kept as text,
and there is a reason. -/
inductive Brings (d : Dialect) (label : String) :
    Statement.Item → Option (Occurrence ⊕ Alteration) → Prop
  | object {s : Statement} {o : Object} (said : Definition.Stated d s.text (some (.object o))) :
      Brings d label (.ok s) (some (.inl ⟨label ++ ":" ++ toString s.line, o, none⟩))
  | change {s : Statement} {name : QualifiedName} {changes : List TableChange}
      {raw : RawStatement} (said : Definition.Stated d s.text (some (.change name changes raw))) :
      Brings d label (.ok s)
        (some (.inr ⟨label ++ ":" ++ toString s.line, name, changes, raw⟩))
  | nothing {s : Statement} (said : Definition.Stated d s.text none) :
      Brings d label (.ok s) none
  | unfinished {u : Unfinished} {raw : RawStatement}
      (kept : rawStatement d u.snippet.toList = .ok raw) :
      Brings d label (.error u)
        (some (.inl ⟨label ++ ":" ++ toString u.line, .raw raw, some u.message⟩))

namespace Finding

variable {d : Dialect} {label : String} {item : Statement.Item}

def brought : Finding → Occurrence ⊕ Alteration
  | defined location (.object o) => .inl ⟨location, o, none⟩
  | defined location (.change name changes raw) => .inr ⟨location, name, changes, raw⟩
  | unfinished location u raw => .inl ⟨location, .raw raw, some u.message⟩

theorem exists_of_brings {b : Option (Occurrence ⊕ Alteration)} (h : Brings d label item b) :
    ∃ found, ofItem d label item = .ok found := by
  cases h with
  | object said | change said | nothing said =>
      rw [ofItem, Definition.stated_iff.1 said]
      exact ⟨_, rfl⟩
  | unfinished kept =>
      rw [ofItem, kept]
      exact ⟨_, rfl⟩

theorem brings_of_ofItem {found : Option Finding} (h : ofItem d label item = .ok found) :
    Brings d label item (found.map brought) := by
  cases item with
  | ok s =>
      obtain ⟨definition, hsaid, h⟩ := Outcome.bind_eq_ok.1 h
      cases h
      have hsaid := Definition.stated_iff.2 hsaid
      cases definition with
      | none => exact .nothing hsaid
      | some definition =>
          cases definition with
          | object o => exact .object hsaid
          | change name changes raw => exact .change hsaid
  | error u =>
      obtain ⟨raw, hraw, h⟩ := Outcome.bind_eq_ok.1 h
      cases h
      exact .unfinished hraw

end Finding

def definitions (brought : List (Occurrence ⊕ Alteration)) : List Occurrence :=
  brought.filterMap Sum.getLeft?

def alterations (brought : List (Occurrence ⊕ Alteration)) : List Alteration :=
  brought.filterMap Sum.getRight?

/-- First all that is defined or could not be split, then the text of every statement that alters a
table that nothing defines. -/
def events (brought : List (Occurrence ⊕ Alteration)) : List Occurrence :=
  definitions brought ++ ((alterations brought).filter fun a =>
    ⟨.table, a.table⟩ ∉ (definitions brought).map Occurrence.key).map fun a =>
      ⟨a.location, .raw a.raw, none⟩

inductive Object.Folds (as : List Alteration) : Object → Object → Prop
  | table {t u : Table}
      (alters : t.Alters ((as.filter fun a => a.table = t.name).map Alteration.changes) u) :
      Folds as (.table t) (.table u)
  | other {o : Object} (kind : o.kind ≠ .table) : Folds as o o

/-- The last event under each key is stored, in the order in which the keys first came up; what
alters a table that is defined somewhere is in the table; and there is a warning for each piece that
could not be split and for each event under a key that had come up before. -/
structure Model.Accounted (brought : List (Occurrence ⊕ Alteration)) (m : Model) : Prop where
  keys : m.keys = ((events brought).map Occurrence.key).eraseDups
  stored : ∀ k e, Occurrence.last? (events brought) k = some e →
    ∃ o, m.get? k = some o ∧ Object.Folds (alterations brought) e.object o
  altered : ∀ a ∈ alterations brought,
    ⟨.table, a.table⟩ ∈ (definitions brought).map Occurrence.key →
      ∃ t, m.get? ⟨.table, a.table⟩ = some (.table t) ∧ ∀ change ∈ a.changes, t.Shows change
  warnings : m.warnings = Occurrence.allWarnings [] (events brought)

namespace Finding

theorem definitions_map_brought (found : List Finding) :
    definitions (found.map brought) = found.filterMap occurrence? := by
  rw [definitions, List.filterMap_map]
  refine List.filterMap_congr fun f _ => ?_
  cases f with
  | defined location said => cases said <;> rfl
  | unfinished => rfl

theorem events_map_brought (found : List Finding) :
    events (found.map brought) = occurrences found := by
  rw [events, occurrences, definitions_map_brought]
  generalize (found.filterMap occurrence?).map Occurrence.key = known
  rw [alterations, List.filterMap_map, List.filter_filterMap, List.map_filterMap]
  refine congrArg _ (List.filterMap_congr fun f _ => ?_)
  cases f with
  | unfinished => rfl
  | defined location said =>
      cases said with
      | object => rfl
      | change name changes raw =>
          by_cases h : (⟨.table, name⟩ : ObjectKey) ∈ known <;> simp [brought, stranded?, h]

theorem folds_foldl_fold (found : List Finding) (o : Object) :
    Object.Folds (alterations (found.map brought)) o (found.foldl fold o) := by
  cases o with
  | table t =>
      have hchanges : ((alterations (found.map brought)).filter fun a => a.table = t.name).map
          Alteration.changes = found.filterMap (changes? t.name) := by
        rw [alterations, List.filterMap_map, List.filter_filterMap, List.map_filterMap]
        refine List.filterMap_congr fun f _ => ?_
        cases f with
        | unfinished => rfl
        | defined location said =>
            cases said with
            | object => rfl
            | change name changes raw =>
                by_cases h : name = t.name <;> simp [brought, changes?, h]
      rw [foldl_fold_table]
      exact .table (hchanges ▸ Table.alters_foldl t _)
  | _ =>
      rw [foldl_fold_of_not_table fun t => Object.noConfusion]
      exact .other Kind.noConfusion

end Finding

namespace Model

theorem accounted_ofFindings (found : List Finding) :
    Accounted (found.map Finding.brought) (ofFindings found) := by
  have haccounts := accounts_ofFindings found
  have hstored : ∀ k e, Occurrence.last? (Finding.occurrences found) k = some e →
      ∃ o, (ofFindings found).get? k = some o ∧
        Object.Folds (alterations (found.map Finding.brought)) e.object o := by
    intro k e he
    refine ⟨found.foldl Finding.fold e.object, ?_, Finding.folds_foldl_fold found e.object⟩
    rw [haccounts.get?, he, Option.map_some]
  refine ⟨?_, ?_, fun a ha hdefined => ?_, ?_⟩
  · rw [haccounts.keys, Finding.events_map_brought]
  · rw [Finding.events_map_brought]
    exact hstored
  · obtain ⟨e, he, hkey⟩ := List.mem_map.1 hdefined
    rw [Finding.definitions_map_brought] at he
    have hmem : e ∈ Finding.occurrences found := List.mem_append_left _ he
    obtain ⟨e', he'⟩ := Occurrence.exists_last? hmem
    obtain ⟨o, ho, hfolds⟩ := hstored _ _ he'
    rw [hkey] at ho
    have hname : e'.object.key = ⟨.table, a.table⟩ := (Occurrence.mem_of_last? he').2.trans hkey
    generalize e'.object = p at hfolds hname
    cases hfolds with
    | @table t u alters =>
        have hname : a.table = t.name := (congrArg ObjectKey.name hname).symm
        have hmem : a.changes ∈ ((alterations (found.map Finding.brought)).filter
            fun a => a.table = t.name).map Alteration.changes :=
          List.mem_map_of_mem (List.mem_filter.2 ⟨ha, decide_eq_true hname⟩)
        exact ⟨u, ho, alters.shows a.changes hmem⟩
    | other kind => exact absurd (congrArg ObjectKey.kind hname) kind
  · rw [haccounts.warnings, Finding.events_map_brought]

/-- Nothing that is found in scripts is lost without a warning. Every item of the scripts brings
something or says nothing, and the model accounts for all that they bring. -/
theorem scripts_accounted (d : Dialect) (scripts : List Script) :
    (∀ m, ofScripts d scripts = .ok m → ∃ brought : List (Option (Occurrence ⊕ Alteration)),
      List.Forall₂ (fun i b => Brings d i.1 i.2 b) (scripts.flatMap (Script.items d)) brought ∧
        m.Accounted brought.reduceOption) ∧
    ((∀ i ∈ scripts.flatMap (Script.items d), ∃ b, Brings d i.1 i.2 b) →
      ∃ m, ofScripts d scripts = .ok m) := by
  rw [ofScripts, Finding.ofScripts_eq]
  refine ⟨fun m hm => ?_, fun hbrings => ?_⟩
  · obtain ⟨found, hfound, hm⟩ := Outcome.bind_eq_ok.1 hm
    obtain ⟨read, hread, rfl⟩ := Outcome.exists_of_map hfound
    cases hm
    refine ⟨read.map (Option.map Finding.brought), ?_, ?_⟩
    · rw [List.forall₂_map_right_iff]
      exact (Outcome.forall₂_of_mapM hread).imp fun _ _ h => Finding.brings_of_ofItem h
    · rw [List.reduceOption_map]
      exact accounted_ofFindings read.reduceOption
  · obtain ⟨read, hread⟩ := Outcome.exists_mapM fun i hi =>
      Finding.exists_of_brings (hbrings i hi).choose_spec
    exact ⟨ofFindings read.reduceOption, by rw [hread]; rfl⟩

def strewnScripts : List Script :=
  [⟨"a.sql",
      "ALTER TABLE t ADD b bigint, ADD c int, ADD PRIMARY KEY (a);\nALTER TABLE u ADD c int;"⟩,
    ⟨"b.sql", "CREATE TABLE t (z int);\nCREATE TABLE t (a int, b int);\nDROP TABLE v 'x"⟩]

def strewnTable : Table :=
  { Table.new (.unqualified "t") with
    columns := [⟨"a", ⟨.integer, [], "int"⟩, false, none, .plain, 1, []⟩,
      ⟨"b", ⟨.bigInt, [], "bigint"⟩, true, none, .plain, 2, []⟩,
      ⟨"c", ⟨.integer, [], "int"⟩, true, none, .plain, 3, []⟩]
    constraints := [⟨none, .primaryKey, ["a"], []⟩] }

/-- A change before its table, a table defined twice, a change to a table that nothing defines, and
a text that does not end. -/
theorem scripts_accounted_strewn :
    ∃ (m : Model) (brought : List (Option (Occurrence ⊕ Alteration))),
      ofScripts .postgres strewnScripts = .ok m ∧
      List.Forall₂ (fun i b => Brings .postgres i.1 i.2 b)
        (strewnScripts.flatMap (Script.items .postgres)) brought ∧
      m.Accounted brought.reduceOption ∧
      m.keys.map ObjectKey.text =
        ["Table: t", "Raw SQL: drop table v 'x", "Raw SQL: alter table u add c int"] ∧
      m.get? ⟨.table, .unqualified "t"⟩ = some (.table strewnTable) ∧
      m.warnings =
        [⟨"b.sql:2", "duplicate definition of Table: t replaces the earlier one"⟩,
          ⟨"b.sql:3", "unterminated string literal at line 3 (offset 55): DROP TABLE v 'x"⟩] := by
  have hread : (ofScripts .postgres strewnScripts).map (fun m =>
      (m.keys.map ObjectKey.text, m.get? ⟨.table, .unqualified "t"⟩, m.warnings)) =
        .ok (["Table: t", "Raw SQL: drop table v 'x", "Raw SQL: alter table u add c int"],
          some (.table strewnTable),
          [⟨"b.sql:2", "duplicate definition of Table: t replaces the earlier one"⟩,
            ⟨"b.sql:3", "unterminated string literal at line 3 (offset 55): DROP TABLE v 'x"⟩]) := by
    decide +kernel
  obtain ⟨m, hm, hfacts⟩ := Outcome.exists_of_map hread
  simp only [Prod.mk.injEq] at hfacts
  obtain ⟨hkeys, htable, hwarnings⟩ := hfacts
  obtain ⟨brought, hbrings, haccounted⟩ := (scripts_accounted .postgres strewnScripts).1 m hm
  exact ⟨m, brought, hm, hbrings, haccounted, hkeys, htable, hwarnings⟩

end Model

end SchemaDrift
