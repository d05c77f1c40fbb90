import SchemaDrift.Proofs.InlineConstraints
import SchemaDrift.Proofs.Loops

namespace SchemaDrift

namespace Reader

variable {d : Dialect} {ts : List Token} {α β σ : Type} {no : α}

/-- A fault, or something found that is, with the tokens left, as `P` says. -/
inductive Answer (P : α → List Token → Prop) : Except Fault (Option α × List Token) → Prop
  | fault (f : Fault) : Answer P (.error f)
  | found {a : α} {rest : List Token} (h : P a rest) : Answer P (.ok (some a, rest))

namespace Answer

variable {P : α → List Token → Prop} {Q : β → List Token → Prop}

theorem bind {p : Reader α} {f : α → Reader β} (hp : Answer P (p d ts))
    (hf : ∀ a rest, P a rest → Answer Q (f a d rest)) : Answer Q ((p >>= f) d ts) := by
  rw [bind_apply]
  generalize p d ts = r at hp
  cases hp with
  | fault f => exact .fault f
  | found h => exact hf _ _ h

theorem mono {P' : α → List Token → Prop} {r : Except Fault (Option α × List Token)}
    (h : Answer P r) (hP : ∀ a rest, P a rest → P' a rest) : Answer P' r := by
  cases h with
  | fault f => exact .fault f
  | found h => exact .found (hP _ _ h)

theorem of_eq {r : Except Fault (Option α × List Token)} (h : Answer P r) {a : α}
    {rest : List Token} (hr : r = .ok (some a, rest)) : P a rest := by
  subst hr
  cases h with
  | found h => exact h

end Answer

def Answers (R : α → Prop) (p : Reader α) : Prop := ∀ d ts, Answer (fun a _ => R a) (p d ts)

abbrev Always (p : Reader α) : Prop := Answers (fun _ => True) p

namespace Answers

variable {R : α → Prop} {S : β → Prop}

theorem pure {a : α} (h : R a) : Answers R (Pure.pure a : Reader α) := fun _ _ => .found h

theorem bind {p : Reader α} {f : α → Reader β} (hp : Always p) (hf : ∀ a, Answers S (f a)) :
    Answers S (p >>= f) :=
  fun d ts => (hp d ts).bind fun a rest _ => hf a d rest

theorem ite {c : Prop} [Decidable c] {p q : Reader α} (hp : Answers R p) (hq : Answers R q) :
    Answers R (if c then p else q) := by
  split
  · exact hp
  · exact hq

/-- A step that may be left out. -/
theorem joined {c : Prop} [Decidable c] {p : Reader α} {q : Reader β} (hp : Always p)
    (hq : Answers S q) : Answers S (if c then p >>= fun _ => q else q) :=
  .ite (.bind hp fun _ => hq) hq

/-- Two ways to one thing, and what comes after either. -/
theorem iteAfter {c : Prop} [Decidable c] {p q : Reader α} {f : α → Reader β} (hp : Always p)
    (hq : Always q) (hf : ∀ a, Answers S (f a)) :
    Answers S (if c then p >>= f else q >>= f) :=
  .ite (.bind hp hf) (.bind hq hf)

theorem peek (g : List Token → α) : Always (Reader.peek g) := fun _ _ => .found trivial

theorem dialect : Always Reader.dialect := fun _ _ => .found trivial

theorem skip : Always Reader.skip := fun _ _ => .found trivial

theorem rest : Always Reader.rest := fun _ _ => .found trivial

theorem sourceUntil (stops : List String) : Always (Reader.sourceUntil stops) :=
  fun _ _ => .found trivial

theorem optional (p : Reader α) : Always (Reader.optional p) := by
  intro d ts
  unfold Reader.optional
  split
  · exact .fault _
  · exact .found trivial

theorem attempt (p : Reader α) : Always (Reader.attempt p) := by
  intro d ts
  unfold Reader.attempt
  split
  · exact .fault _
  · exact .found trivial
  · exact .found trivial

theorem keywords (ks : List String) : Always (Reader.keywords ks) := by
  intro d ts
  unfold Reader.keywords
  split <;> exact .found trivial

theorem symbol (s : String) : Always (Reader.symbol s) := by
  intro d ts
  unfold Reader.symbol
  split <;> exact .found trivial

theorem oneOf (ks : List String) : Always (Reader.oneOf ks) := by
  intro d ts
  unfold Reader.oneOf
  split
  · exact .found trivial
  · split <;> exact .found trivial

theorem within {p : Reader α} (hp : Always p) (us : List Token) : Always (Reader.within us p) := by
  intro d ts
  have hanswer := hp d us
  unfold Reader.within
  generalize p d us = r at hanswer
  cases hanswer with
  | fault f => exact .fault f
  | found h => exact .found h

theorem eachOf {p : Reader α} (hp : Always p) (parts : List (List Token)) :
    Always (Reader.eachOf p parts) := by
  induction parts with
  | nil => exact .pure trivial
  | cons us parts ih => exact .bind (hp.within us) fun _ => .bind ih fun _ => .pure trivial

theorem iterate {step : σ → Reader (Option σ)} (hstep : ∀ s, Always (step s)) (s : σ) :
    Always (Reader.iterate step s) := by
  intro d ts
  induction hn : ts.length using Nat.strong_induction_on generalizing s ts with
  | _ n ih =>
      subst hn
      have hanswer := hstep s d ts
      rw [Reader.iterate]
      generalize step s d ts = r at hanswer
      cases hanswer with
      | fault f => exact .fault f
      | @found next rest h =>
          cases next with
          | none => exact .found trivial
          | some next =>
              dsimp only
              split
              · next hless => exact ih _ hless next rest rfl
              · exact .found trivial

theorem untilEnd {step : σ → Reader σ} (hstep : ∀ s, Always (step s)) (s : σ) :
    Always (Reader.untilEnd step s) := by
  apply iterate
  intro s
  exact .bind (.peek _) fun _ => .ite (.pure trivial) (.bind (hstep s) fun _ => .pure trivial)

theorem skipGroup : Always Reader.skipGroup := .bind (.optional _) fun _ => .pure trivial

end Answers

/-- Unless it comes to a fault, the reader finds something, and where that is `no`, it has taken no
token. -/
def Declines (no : α) (p : Reader α) : Prop :=
  ∀ d ts, Answer (fun a rest => a = no → rest = ts) (p d ts)

namespace Declines

theorem always {p : Reader α} (hp : Declines no p) : Always p :=
  fun d ts => (hp d ts).mono fun _ _ _ => trivial

theorem eq {p : Reader α} (hp : Declines no p) {rest : List Token}
    (h : p d ts = .ok (some no, rest)) : rest = ts :=
  (hp d ts).of_eq h rfl

theorem pure (a : α) : Declines no (Pure.pure a : Reader α) := fun _ _ => .found fun _ => rfl

/-- A clause that begins with keywords. -/
theorem keywords {ks : List String} {p q : Reader α} (hp : Answers (fun a => a ≠ no) p)
    (hq : Declines no q) :
    Declines no (Reader.keywords ks >>= fun found => if found = true then p else q) := by
  intro d ts
  rw [keywords_bind]
  split
  · rw [if_pos rfl]
    exact (hp d _).mono fun _ _ h h' => absurd h' h
  · rw [if_neg Bool.false_ne_true]
    exact hq d ts

theorem keyword {k : String} {p q : Reader α} (hp : Answers (fun a => a ≠ no) p)
    (hq : Declines no q) :
    Declines no (Reader.keyword k >>= fun found => if found = true then p else q) :=
  keywords hp hq

theorem peek {g : List Token → β} {f : β → Reader α} (hf : ∀ b, Declines no (f b)) :
    Declines no (Reader.peek g >>= f) :=
  fun d ts => hf (g ts) d ts

theorem ite {c : Prop} [Decidable c] {p q : Reader α} (hp : Declines no p) (hq : Declines no q) :
    Declines no (if c then p else q) := by
  split
  · exact hp
  · exact hq

/-- A clause that is never declined. -/
theorem of_answers {p : Reader α} (hp : Answers (fun a => a ≠ no) p) : Declines no p :=
  fun d ts => (hp d ts).mono fun _ _ h h' => absurd h' h

/-- What is done where another clause is declined. -/
theorem orElse {p : Reader (Option β)} {f : Option β → Reader α} (hp : Declines none p)
    (hsome : ∀ b, Answers (fun a => a ≠ no) (f (some b))) (hnone : Declines no (f none)) :
    Declines no (p >>= f) := by
  intro d ts
  apply (hp d ts).bind
  intro found rest hrest
  cases found with
  | none =>
      rw [hrest rfl]
      exact hnone d ts
  | some b => exact (hsome b d rest).mono fun _ _ h h' => absurd h' h

end Declines

end Reader

namespace Grammar

open Reader

structure Clauses.Answer (clauses : Clauses) : Prop where
  createOption : Always clauses.createOption
  tableElement : ∀ t, Always (clauses.tableElement t)
  tableClause : ∀ t, Always (clauses.tableClause t)
  columnClause : ∀ c, Always (clauses.columnClause c)
  indexClause : ∀ i, Always (clauses.indexClause i)

theorem Clauses.answer_common : Clauses.common.Answer where
  createOption := .pure trivial
  tableElement := fun _ => .pure trivial
  tableClause := fun _ => .pure trivial
  columnClause := fun _ => .pure trivial
  indexClause := fun _ => .pure trivial

variable {α β : Type}

theorem answers_some {a : α} : Answers (fun found => found ≠ none) (pure (some a)) :=
  .pure (Option.some_ne_none a)

theorem answers_canonical (s : List Char) : Always (canonical s) :=
  .bind .dialect fun _ => .pure trivial

/-- A clause whose words are followed by a value. -/
theorem answers_optional {p : Reader α} {f : Option α → β} :
    Answers (fun found => found ≠ none) (do return some (f (← optional p))) :=
  .bind (.optional p) fun _ => answers_some

theorem always_looseOption (options : Options) : Always (looseOption options) := by
  intro d ts
  cases ts with
  | nil => exact .found trivial
  | cons t ts =>
      obtain ⟨found, rest, h⟩ := finds_looseOption d options (t :: ts) (List.cons_ne_nil t ts)
      rw [h]
      exact .found trivial

theorem always_keyColumn : Always keyColumn := by
  apply Answers.bind (.attempt _)
  intro column
  cases column with
  | none => exact .bind .dialect fun _ => .bind .rest fun _ => .pure trivial
  | some column => exact .pure trivial

theorem always_keyColumns : Always keyColumns := by
  apply Answers.bind (.optional _)
  intro ts
  cases ts with
  | none => exact .pure trivial
  | some ts => exact .eachOf always_keyColumn _

namespace Postgres

theorem always_parents : Always parents := by
  apply Answers.bind (.optional _)
  intro ts
  cases ts with
  | none => exact .pure trivial
  | some ts => exact .bind (.eachOf (.optional _) _) fun _ => .pure trivial

theorem declines_tableClause (t : Table) : Declines none (tableClause t) := by
  apply Declines.keywords answers_optional
  apply Declines.keyword (.bind always_parents fun _ => answers_some)
  apply Declines.keyword answers_optional
  apply Declines.peek
  intro starts
  apply Declines.ite
  · apply Declines.of_answers
    apply Answers.bind .skip
    intro _
    apply Answers.bind (.optional _)
    exact fun _ => .bind (answers_canonical _) fun _ => answers_some
  apply Declines.keywords answers_some
  apply Declines.keywords answers_some
  apply Declines.keywords (.bind (.sourceUntil _) fun _ => .bind (answers_canonical _) fun _ =>
    answers_some)
  apply Declines.keyword _ (.pure none)
  apply Answers.bind (.optional _)
  intro method
  apply Answers.pure
  split <;> exact Option.some_ne_none _

theorem declines_indexClause (i : Index) : Declines none (indexClause i) := by
  apply Declines.keywords answers_some
  exact .keywords answers_some (.pure none)

end Postgres

namespace Sqlite

theorem declines_tableClause (t : Table) : Declines none (tableClause t) := by
  apply Declines.keywords answers_some
  exact .keyword answers_some (.pure none)

theorem declines_columnClause (c : Column) : Declines none (columnClause c) := by
  apply Declines.keywords _ (.pure none)
  apply Answers.bind (.peek _)
  intro action
  cases action with
  | none => exact answers_some
  | some action => exact .bind .skip fun _ => answers_some

end Sqlite

namespace Db2

theorem declines_storageClause (s : Storage) : Declines none (storageClause s) := by
  apply Declines.keywords answers_optional
  apply Declines.keyword answers_optional
  apply Declines.keywords answers_optional
  apply Declines.keyword answers_optional
  exact .keyword answers_optional (.pure none)

theorem answers_upperValue {f : Option String → α} :
    Answers (fun found => found ≠ none) (do return some (f (← upperValue))) :=
  .bind (.bind (.peek _) fun _ => .bind .skip fun _ => .pure trivial) fun _ => answers_some

theorem declines_tableClause (t : Table) : Declines none (tableClause t) := by
  refine (declines_storageClause t.storage).orElse (fun _ => answers_some) ?_
  apply Declines.keyword answers_optional
  apply Declines.keyword answers_upperValue
  apply Declines.keyword answers_upperValue
  apply Declines.keywords answers_optional
  exact .keywords answers_upperValue (.pure none)

theorem declines_columnClause (c : Column) : Declines none (columnClause c) := by
  apply Declines.keywords
  · apply Answers.bind (.sourceUntil _)
    exact fun s => .ite answers_some (.bind .dialect fun _ => answers_some)
  apply Declines.keywords answers_some
  apply Declines.keywords _ (.pure none)
  exact .bind (.bind (.optional _) fun _ => .pure trivial) fun _ => answers_some

theorem declines_indexClause (i : Index) : Declines none (indexClause i) := by
  refine (declines_storageClause i.storage).orElse (fun _ => answers_some) ?_
  apply Declines.keywords answers_some
  apply Declines.keywords answers_some
  apply Declines.keyword answers_some
  apply Declines.keyword answers_some
  apply Declines.keyword answers_some
  exact .keyword answers_optional (.pure none)

end Db2

namespace MySql

theorem always_hosts (u : Unit) : Always (hosts u) := by
  apply Answers.iterate
  intro _
  apply Answers.bind (.symbol _)
  exact fun _ => .ite (.bind (.optional _) fun _ => .pure trivial) (.pure trivial)

theorem declines_createOption : Declines false createOption := by
  have htaken : Answers (fun found => found ≠ false) (pure true) := .pure Bool.noConfusion
  apply Declines.keyword
  · apply Answers.bind (.symbol _)
    intro _
    apply Answers.bind (.optional _)
    exact fun _ => .bind .skipGroup fun _ => .bind (always_hosts ()) fun _ => htaken
  apply Declines.keyword (.bind (.symbol _) fun _ => .bind .skip fun _ => htaken)
  exact .keywords (.bind .skip fun _ => htaken) (.pure false)

theorem declines_indexClause (i : Index) : Declines none (indexClause i) := by
  apply Declines.keyword (.bind (.optional _) fun _ => answers_some)
  apply Declines.keyword (.bind (.optional _) fun _ => answers_some)
  apply Declines.keyword
  · apply Answers.bind (.optional _)
    intro method
    cases method with
    | none => exact answers_some
    | some method => exact .ite answers_some answers_some
  apply Declines.keyword
  · apply Answers.bind (.optional _)
    intro comment
    cases comment <;> exact answers_some
  apply Declines.keyword answers_some
  exact .keyword answers_some (.pure none)

def tableOption (t : Table) : Reader (Option Table) := do
  if ← keyword "ENGINE" then
    return some { t with storage := { t.storage with engine := ← optional assigned } }
  else if ← keyword "AUTO_INCREMENT" then
    let _ ← optional assigned
    return some t
  else if ← keyword "CHARSET" then assignedOption t "CHARSET"
  else if ← keywords ["CHARACTER", "SET"] then assignedOption t "CHARSET"
  else if ← keyword "COLLATE" then assignedOption t "COLLATE"
  else if ← keyword "COMMENT" then assignedOption t "COMMENT"
  else if ← keywords ["PARTITION", "BY"] then
    return some { t with storage := { t.storage with partition := ← optional partition } }
  else if ← keywords ["WITH", "SYSTEM", "VERSIONING"] then
    return some { t with versioning := { t.versioning with systemVersioned := true } }
  else return none

theorem tableClause_apply (t : Table) (d : Dialect) (ts : List Token) :
    tableClause t d ts = tableOption t d (if optionalDefault ts then ts.tail else ts) := by
  change (if optionalDefault ts then skip >>= fun _ => tableOption t else tableOption t) d ts = _
  split <;> rfl

theorem answers_assignedOption (t : Table) (key : String) :
    Answers (fun found => found ≠ none) (assignedOption t key) := by
  apply Answers.bind (.optional _)
  intro v
  cases v <;> exact answers_some

theorem declines_tableOption (t : Table) : Declines none (tableOption t) := by
  apply Declines.keyword answers_optional
  apply Declines.keyword (.bind (.optional _) fun _ => answers_some)
  apply Declines.keyword (answers_assignedOption t _)
  apply Declines.keywords (answers_assignedOption t _)
  apply Declines.keyword (answers_assignedOption t _)
  apply Declines.keyword (answers_assignedOption t _)
  apply Declines.keywords answers_optional
  exact .keywords answers_some (.pure none)

theorem always_tableClause (t : Table) : Always (tableClause t) := by
  intro d ts
  rw [tableClause_apply]
  exact (declines_tableOption t).always d _

theorem always_keyOption (i : Index) : Always (keyOption i) := by
  refine .bind (declines_indexClause i).always fun found => ?_
  cases found with
  | none => exact .bind (always_looseOption _) fun _ => .pure trivial
  | some i => exact .pure trivial

theorem always_tableElement (t : Table) : Always (tableElement t) := by
  apply Answers.bind (.peek _)
  intro kind
  cases kind with
  | none => exact .pure trivial
  | some kind =>
      apply Answers.joined .skip
      apply Answers.bind (.oneOf _)
      intro _
      apply Answers.bind (.peek _)
      intro _
      apply Answers.iteAfter (.pure trivial) (.optional _)
      intro name
      apply Answers.bind (.keywords _)
      intro _
      apply Answers.joined .skip
      apply Answers.bind always_keyColumns
      intro columns
      cases columns with
      | nil => exact .pure trivial
      | cons first others => exact .bind (.untilEnd always_keyOption _) fun _ => .pure trivial

end MySql

variable {clauses : Clauses} {d : Dialect} {ts rest : List Token}

theorem Clauses.answer_ofDialect (d : Dialect) : (Clauses.ofDialect d).Answer := by
  cases d with
  | postgres =>
      exact { Clauses.answer_common with
        tableClause := fun t => (Postgres.declines_tableClause t).always
        indexClause := fun i => (Postgres.declines_indexClause i).always }
  | mySql =>
      exact { Clauses.answer_common with
        createOption := MySql.declines_createOption.always
        tableElement := MySql.always_tableElement
        tableClause := MySql.always_tableClause
        indexClause := fun i => (MySql.declines_indexClause i).always }
  | sqlite =>
      exact { Clauses.answer_common with
        tableClause := fun t => (Sqlite.declines_tableClause t).always
        columnClause := fun c => (Sqlite.declines_columnClause c).always }
  | db2 =>
      exact { Clauses.answer_common with
        tableClause := fun t => (Db2.declines_tableClause t).always
        columnClause := fun c => (Db2.declines_columnClause c).always
        indexClause := fun i => (Db2.declines_indexClause i).always }

theorem declines_createOption (d : Dialect) : Declines false (Clauses.ofDialect d).createOption := by
  cases d with
  | mySql => exact MySql.declines_createOption
  | postgres | sqlite | db2 => exact .pure false

theorem declines_columnClause (d : Dialect) (c : Column) :
    Declines none ((Clauses.ofDialect d).columnClause c) := by
  cases d with
  | postgres | mySql => exact .pure none
  | sqlite => exact Sqlite.declines_columnClause c
  | db2 => exact Db2.declines_columnClause c

theorem declines_indexClause (d : Dialect) (i : Index) :
    Declines none ((Clauses.ofDialect d).indexClause i) := by
  cases d with
  | postgres => exact Postgres.declines_indexClause i
  | mySql => exact MySql.declines_indexClause i
  | sqlite => exact .pure none
  | db2 => exact Db2.declines_indexClause i

theorem declines_tableElement (hd : d ≠ .mySql) (t : Table) :
    Declines none ((Clauses.ofDialect d).tableElement t) := by
  cases d with
  | mySql => exact absurd rfl hd
  | postgres | sqlite | db2 => exact .pure none

theorem declines_tableClause (hd : d ≠ .mySql) (t : Table) :
    Declines none ((Clauses.ofDialect d).tableClause t) := by
  cases d with
  | mySql => exact absurd rfl hd
  | postgres => exact Postgres.declines_tableClause t
  | sqlite => exact Sqlite.declines_tableClause t
  | db2 => exact Db2.declines_tableClause t

/-- An element that a dialect declines is left whole, unless it begins as a key. -/
theorem left_of_tableElement {t : Table}
    (h : (Clauses.ofDialect d).tableElement t d ts = .ok (some none, rest)) :
    rest = ts ↔ ¬ (d = .mySql ∧ MySql.keyKind ts ≠ none) := by
  by_cases hd : d = .mySql
  · subst hd
    constructor
    · rintro rfl ⟨-, hkey⟩
      exact Nat.lt_irrefl _ ((MySql.moves_key t).takes rest hkey none rest h trivial)
    · intro hkey
      have hnone : MySql.keyKind ts = none := by simpa using hkey
      have hleft : MySql.tableElement t .mySql ts = .ok (some none, ts) :=
        MySql.tableElement_of_keyKind t hnone
      exact (congrArg Prod.snd (Except.ok.inj (hleft.symm.trans h))).symm
  · exact iff_of_true ((declines_tableElement hd t).eq h) fun h => hd h.1

/-- A clause after a table that a dialect declines is left whole, unless a `DEFAULT` was skipped. -/
theorem left_of_tableClause {t : Table}
    (h : (Clauses.ofDialect d).tableClause t d ts = .ok (some none, rest)) :
    rest = ts ↔ ¬ (d = .mySql ∧ MySql.optionalDefault ts = true) := by
  by_cases hd : d = .mySql
  · subst hd
    have hrest : rest = if MySql.optionalDefault ts then ts.tail else ts :=
      (MySql.declines_tableOption t).eq ((MySql.tableClause_apply t .mySql ts).symm.trans h)
    by_cases hdefault : MySql.optionalDefault ts = true
    · have hne : ts.tail ≠ ts := by
        cases ts with
        | nil => cases hdefault
        | cons t ts => exact (List.cons_ne_self t ts).symm
      rw [hrest, if_pos hdefault]
      exact iff_of_false hne fun h => h ⟨rfl, hdefault⟩
    · rw [hrest, if_neg hdefault]
      exact iff_of_true rfl fun h => hdefault h.2
  · exact iff_of_true ((declines_tableClause hd t).eq h) fun h => hd h.1

theorem dialectOptions_of_declined (h : clauses.createOption d ts = .ok (some false, ts)) :
    dialectOptions clauses () d ts = .ok (some (), ts) :=
  iterate_of_done (bind_of_eq h)

theorem tableElement_of_declined {t : Table}
    (h : clauses.tableElement t d ts = .ok (some none, ts)) :
    tableElement clauses t d ts =
      tableElement { clauses with tableElement := Clauses.common.tableElement } t d ts := by
  change (if ts.isEmpty = true then _ else _ : Reader Table) d ts =
    (if ts.isEmpty = true then _ else _ : Reader Table) d ts
  split
  · rfl
  change (if atKeyword "LIKE" ts = true then _ else _ : Reader Table) d ts =
    (if atKeyword "LIKE" ts = true then _ else _ : Reader Table) d ts
  split
  · rfl
  · exact bind_congr_of_eq h _

theorem tableStep_of_declined {t : Table} (h : clauses.tableClause t d ts = .ok (some none, ts)) :
    tableStep clauses t d ts = tableStep Clauses.common t d ts := by
  by_cases hcomma : atSymbol "," ts = true
  · have htaken : symbol "," d ts = .ok (some true, ts.tail) := if_pos hcomma
    rw [tableStep, tableStep, bind_of_eq htaken, bind_of_eq htaken]
    rfl
  · have hleft : symbol "," d ts = .ok (some false, ts) := if_neg hcomma
    rw [tableStep, tableStep, bind_of_eq hleft, bind_of_eq hleft]
    exact bind_congr_of_eq h _

theorem columnStep_of_declined {r : ColumnDraft}
    (h : clauses.columnClause r.column d ts = .ok (some none, ts)) :
    columnStep clauses r d ts = columnStep Clauses.common r d ts :=
  bind_congr_of_eq h _

theorem indexStep_of_declined {r : IndexDraft}
    (h : clauses.indexClause r.index d ts = .ok (some none, ts)) :
    indexStep clauses r d ts = indexStep Clauses.common r d ts :=
  bind_congr_of_eq h _

/-- What a dialect declines it leaves whole: no token of it is taken, and with the object as it was
the common grammar does what it would do alone. That fails for two clauses of MySQL only, which
have taken a token before they decline: an element that begins as a key and has no columns, and a
`DEFAULT` with no option behind it. -/
theorem declined_left_whole (d : Dialect) (ts rest : List Token) :
    (Clauses.ofDialect d).Answer ∧
    ((Clauses.ofDialect d).createOption d ts = .ok (some false, rest) →
      rest = ts ∧ dialectOptions (Clauses.ofDialect d) () d ts =
        dialectOptions Clauses.common () d ts) ∧
    (∀ t, (Clauses.ofDialect d).tableElement t d ts = .ok (some none, rest) →
      (rest = ts ∧ tableElement (Clauses.ofDialect d) t d ts =
          tableElement { Clauses.ofDialect d with tableElement := Clauses.common.tableElement }
            t d ts ↔
        ¬ (d = .mySql ∧ MySql.keyKind ts ≠ none))) ∧
    (∀ t, (Clauses.ofDialect d).tableClause t d ts = .ok (some none, rest) →
      (rest = ts ∧ tableStep (Clauses.ofDialect d) t d ts = tableStep Clauses.common t d ts ↔
        ¬ (d = .mySql ∧ MySql.optionalDefault ts = true))) ∧
    (∀ r, (Clauses.ofDialect d).columnClause r.column d ts = .ok (some none, rest) →
      rest = ts ∧ columnStep (Clauses.ofDialect d) r d ts = columnStep Clauses.common r d ts) ∧
    (∀ r, (Clauses.ofDialect d).indexClause r.index d ts = .ok (some none, rest) →
      rest = ts ∧ indexStep (Clauses.ofDialect d) r d ts = indexStep Clauses.common r d ts) := by
  refine ⟨Clauses.answer_ofDialect d, ?_, ?_, ?_, ?_, ?_⟩
  · intro h
    obtain rfl := (declines_createOption d).eq h
    have hcommon : dialectOptions Clauses.common () d rest = .ok (some (), rest) :=
      dialectOptions_of_declined rfl
    exact ⟨rfl, (dialectOptions_of_declined h).trans hcommon.symm⟩
  · intro t h
    rw [← left_of_tableElement h]
    refine and_iff_left_of_imp ?_
    rintro rfl
    exact tableElement_of_declined h
  · intro t h
    rw [← left_of_tableClause h]
    refine and_iff_left_of_imp ?_
    rintro rfl
    exact tableStep_of_declined h
  · intro r h
    obtain rfl := (declines_columnClause d r.column).eq h
    exact ⟨rfl, columnStep_of_declined h⟩
  · intro r h
    obtain rfl := (declines_indexClause d r.index).eq h
    exact ⟨rfl, indexStep_of_declined h⟩

def emptyNotes : Table := .new (.unqualified "notes")

def idNote : Column := ⟨"id", .none, true, none, .plain, 1, []⟩

def keyColumnTokens : List Token := Token.lex .mySql "key varchar(64) NOT NULL".toList

def unloggedTokens : List Token := Token.lex .db2 "NOT LOGGED INITIALLY".toList

theorem declined_left_whole_keyColumn :
    (MySql.createOption .mySql keyColumnTokens = .ok (some false, keyColumnTokens) ∧
      dialectOptions MySql.clauses () .mySql keyColumnTokens =
        dialectOptions Clauses.common () .mySql keyColumnTokens) ∧
    (MySql.tableElement emptyNotes .mySql keyColumnTokens = .ok (some none, keyColumnTokens) ∧
      tableElement MySql.clauses emptyNotes .mySql keyColumnTokens =
        tableElement { MySql.clauses with tableElement := Clauses.common.tableElement }
          emptyNotes .mySql keyColumnTokens) ∧
    (Db2.tableClause emptyNotes .db2 unloggedTokens = .ok (some none, unloggedTokens) ∧
      tableStep Db2.clauses emptyNotes .db2 unloggedTokens =
        tableStep Clauses.common emptyNotes .db2 unloggedTokens) ∧
    (Db2.columnClause idNote .db2 unloggedTokens = .ok (some none, unloggedTokens) ∧
      columnStep Db2.clauses ⟨idNote, [], none⟩ .db2 unloggedTokens =
        columnStep Clauses.common ⟨idNote, [], none⟩ .db2 unloggedTokens) ∧
    (Db2.indexClause (.new emptyNotes.name emptyNotes.name) .db2 unloggedTokens =
        .ok (some none, unloggedTokens) ∧
      indexStep Db2.clauses ⟨.new emptyNotes.name emptyNotes.name, none⟩ .db2 unloggedTokens =
        indexStep Clauses.common ⟨.new emptyNotes.name emptyNotes.name, none⟩ .db2
          unloggedTokens) := by
  have hoption : MySql.createOption .mySql keyColumnTokens = .ok (some false, keyColumnTokens) := by
    decide +kernel
  have helement : MySql.tableElement emptyNotes .mySql keyColumnTokens =
      .ok (some none, keyColumnTokens) := by
    decide +kernel
  have hkind : MySql.keyKind keyColumnTokens = none := by decide +kernel
  have hclause : Db2.tableClause emptyNotes .db2 unloggedTokens =
      .ok (some none, unloggedTokens) := by
    decide +kernel
  have hcolumn : Db2.columnClause idNote .db2 unloggedTokens =
      .ok (some none, unloggedTokens) := by
    decide +kernel
  have hindex : Db2.indexClause (.new emptyNotes.name emptyNotes.name) .db2 unloggedTokens =
      .ok (some none, unloggedTokens) := by
    decide +kernel
  obtain ⟨-, hoptions, helements, -⟩ := declined_left_whole .mySql keyColumnTokens keyColumnTokens
  obtain ⟨-, -, -, hclauses, hcolumns, hindexes⟩ :=
    declined_left_whole .db2 unloggedTokens unloggedTokens
  refine ⟨⟨hoption, (hoptions hoption).2⟩, ⟨helement, ?_⟩, ⟨hclause, ?_⟩,
    ⟨hcolumn, (hcolumns ⟨idNote, [], none⟩ hcolumn).2⟩, hindex, ?_⟩
  · exact ((helements emptyNotes helement).2 fun h => h.2 hkind).2
  · have hdialect : Dialect.db2 ≠ .mySql := by decide
    exact ((hclauses emptyNotes hclause).2 fun h => hdialect h.1).2
  · exact (hindexes ⟨.new emptyNotes.name emptyNotes.name, none⟩ hindex).2

def spatialColumnTokens : List Token := Token.lex .mySql "spatial INT NOT NULL".toList

def characterTokens : List Token := Token.lex .mySql "DEFAULT CHARACTER utf8".toList

/-- The name and the type of a column are gone before it is seen that no key is there, and the
column is called after its next word. -/
theorem declined_key_taken :
    MySql.tableElement emptyNotes .mySql spatialColumnTokens =
      .ok (some none, spatialColumnTokens.drop 2) ∧
    spatialColumnTokens.drop 2 ≠ spatialColumnTokens ∧
    tableElement MySql.clauses emptyNotes .mySql spatialColumnTokens =
      .ok (some { emptyNotes with columns := [⟨"not", .none, true, none, .plain, 1, []⟩] }, []) ∧
    MySql.tableClause emptyNotes .mySql characterTokens =
      .ok (some none, characterTokens.drop 1) ∧
    characterTokens.drop 1 ≠ characterTokens := by
  decide +kernel

end Grammar

end SchemaDrift
