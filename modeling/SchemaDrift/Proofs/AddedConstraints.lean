import SchemaDrift.Proofs.Gaps
import SchemaDrift.Proofs.Headings
import SchemaDrift.Proofs.OtherBodies
import SchemaDrift.Proofs.Refolding

namespace SchemaDrift

open Reader

namespace Token

variable (gap : List Char) (ts : List Token)

theorem atKeywords_regap (ks : List String) : atKeywords ks (regap gap ts) = atKeywords ks ts := by
  cases ts with
  | nil => rfl
  | cons t ts => cases ks <;> rfl

theorem drop_regap (n : Nat) : (regap gap ts).drop (n + 1) = ts.drop (n + 1) := by
  cases ts <;> rfl

end Token

namespace Reader

variable {α β γ : Type}

theorem bind_assoc (p : Reader α) (f : α → Reader β) (g : β → Reader γ) :
    (p >>= f) >>= g = p >>= fun a => f a >>= g := by
  funext d ts
  change Reader.bind (Reader.bind p f) g d ts = Reader.bind p (fun a => Reader.bind (f a) g) d ts
  unfold Reader.bind
  cases p d ts with
  | error e => rfl
  | ok found =>
      obtain ⟨a, rest⟩ := found
      cases a <;> rfl

/-- Keywords that are there take the first token, and else the other branch reads it. -/
theorem keywords_regap (k : String) (ks : List String) (f : Bool → Reader α) (d : Dialect)
    (gap : List Char) (ts : List Token) :
    (keywords (k :: ks) >>= f) d (Token.regap gap ts) = (keywords (k :: ks) >>= f) d ts ∨
      (keywords (k :: ks) >>= f) d ts = f false d ts ∧
        (keywords (k :: ks) >>= f) d (Token.regap gap ts) = f false d (Token.regap gap ts) := by
  rw [keywords_bind, keywords_bind, Token.atKeywords_regap]
  by_cases hat : atKeywords (k :: ks) ts = true
  · rw [if_pos hat, if_pos hat, List.length_cons, Token.drop_regap]
    exact .inl rfl
  · rw [if_neg hat, if_neg hat]
    exact .inr ⟨rfl, rfl⟩

def Begins (p : Reader α) : Prop :=
  ∀ d gap ts, p d (Token.regap gap ts) = p d ts ∨
    (p d ts = .ok (none, ts) ∧ p d (Token.regap gap ts) = .ok (none, Token.regap gap ts))

namespace Begins

theorem fail : Begins (Reader.fail : Reader α) := fun _ _ _ => .inr ⟨rfl, rfl⟩

theorem bind {p : Reader α} (hp : Begins p) (f : α → Reader β) : Begins (p >>= f) := by
  intro d gap ts
  change Reader.bind p f d _ = Reader.bind p f d _ ∨
    (Reader.bind p f d _ = _ ∧ Reader.bind p f d _ = _)
  unfold Reader.bind
  rcases hp d gap ts with hsame | ⟨hnone, hnone'⟩
  · exact .inl (by rw [hsame])
  · exact .inr (by rw [hnone, hnone']; exact ⟨rfl, rfl⟩)

/-- What follows the keywords does not matter. -/
theorem keywords (k : String) (ks : List String) {f : Bool → Reader α} (hf : Begins (f false)) :
    Begins (Reader.keywords (k :: ks) >>= f) := by
  intro d gap ts
  rcases keywords_regap k ks f d gap ts with hsame | ⟨hfalse, hfalse'⟩
  · exact .inl hsame
  · rw [hfalse, hfalse']
    exact hf d gap ts

end Begins

end Reader

namespace Grammar

variable {d : Dialect} {c : Constraint} {ts us rest : List Token}

theorem startsConstraint_regap (gap : List Char) (ts : List Token) :
    startsConstraint (Token.regap gap ts) = startsConstraint ts := by
  cases ts <;> rfl

theorem begins_rule : Begins rule := by
  refine .keywords "PRIMARY" ["KEY"] ?_
  change Begins (keywords ["UNIQUE"] >>= _)
  refine .keywords "UNIQUE" [] ?_
  change Begins (keywords ["FOREIGN", "KEY"] >>= _)
  refine .keywords "FOREIGN" ["KEY"] ?_
  change Begins (keywords ["CHECK"] >>= _)
  exact .keywords "CHECK" [] .fail

theorem begins_tableConstraint : Begins tableConstraint := by
  unfold tableConstraint givenName
  change Begins ((keywords ["CONSTRAINT"] >>= _) >>= _)
  rw [bind_assoc]
  exact .keywords "CONSTRAINT" [] (begins_rule.bind _)

/-- A constraint does not depend on what is skipped before it. -/
theorem tableConstraint_regap (h : tableConstraint d ts = .ok (some c, rest)) (gap : List Char) :
    tableConstraint d (Token.regap gap ts) = .ok (some c, rest) := by
  rcases begins_tableConstraint d gap ts with hsame | ⟨hnone, -⟩
  · rw [hsame, h]
  · rw [hnone] at h
    cases h

def constraintWords : List String :=
  ["CONSTRAINT", "PRIMARY", "FOREIGN", "CHECK", "EXCLUDE", "UNIQUE"]

theorem exists_of_startsConstraint (h : startsConstraint ts = true) :
    ∃ t us k, ts = t :: us ∧ k ∈ constraintWords ∧ t.isKeyword k = true := by
  cases ts with
  | nil => cases h
  | cons t us =>
      have hfirst {k k' : String} (h : atKeywords [k, k'] (t :: us) = true) :
          t.isKeyword k = true :=
        (Bool.and_eq_true_iff.1 h).1
      simp only [startsConstraint, Bool.or_eq_true, Bool.and_eq_true] at h
      rcases h with ((((h | h) | h) | h) | h) | ⟨h, -⟩
      · exact ⟨t, us, "CONSTRAINT", rfl, by decide, h⟩
      · exact ⟨t, us, "PRIMARY", rfl, by decide, hfirst h⟩
      · exact ⟨t, us, "FOREIGN", rfl, by decide, hfirst h⟩
      · exact ⟨t, us, "CHECK", rfl, by decide, h⟩
      · exact ⟨t, us, "EXCLUDE", rfl, by decide, h⟩
      · exact ⟨t, us, "UNIQUE", rfl, by decide, h⟩

theorem not_atKeywords_of_startsConstraint (h : startsConstraint ts = true) {k : String}
    (hk : ∀ k' ∈ constraintWords, Text.asciiUpper k'.toList ≠ Text.asciiUpper k.toList)
    (ks : List String) : atKeywords (k :: ks) ts = false := by
  obtain ⟨t, us, k', rfl, hk', ht⟩ := exists_of_startsConstraint h
  exact atKeywords_cons_of_ne ht (hk k' hk') ks us

theorem not_atKeyword_of_startsConstraint (h : startsConstraint ts = true) {k : String}
    (hk : ∀ k' ∈ constraintWords, Text.asciiUpper k'.toList ≠ Text.asciiUpper k.toList) :
    atKeyword k ts = false := by
  obtain ⟨t, us, k', rfl, hk', ht⟩ := exists_of_startsConstraint h
  exact atKeyword_cons_of_ne ht (hk k' hk') us

/-- No dialect takes a constraint for an element of its own. -/
theorem tableElement_of_startsConstraint (h : startsConstraint ts = true) (d' : Dialect)
    (t : Table) : (Clauses.ofDialect d').tableElement t d ts = .ok (some none, ts) := by
  cases d' with
  | postgres | sqlite | db2 => rfl
  | mySql =>
      have hkind : MySql.keyKind ts = none := by
        rw [MySql.keyKind, not_atKeyword_of_startsConstraint h (by decide),
          not_atKeyword_of_startsConstraint h (by decide), MySql.startsKey,
          not_atKeyword_of_startsConstraint h (by decide),
          not_atKeyword_of_startsConstraint h (by decide)]
        rfl
      change MySql.tableElement t d ts = _
      unfold MySql.tableElement
      rw [bind_of_eq (p := peek MySql.keyKind) rfl, hkind]
      rfl

/-- A constraint among the elements of a table comes after the constraints that are there. -/
theorem tableElement_of_constraint (hstarts : startsConstraint ts = true)
    (hexclude : atKeyword "EXCLUDE" ts = false) (hc : tableConstraint d ts = .ok (some c, rest))
    (d' : Dialect) (t : Table) :
    tableElement (Clauses.ofDialect d') t d ts =
      .ok (some { t with constraints := t.constraints ++ [c] }, rest) := by
  have hend : atEnd d ts = .ok (some false, ts) := by
    obtain ⟨t, us, k, rfl, -, -⟩ := exists_of_startsConstraint hstarts
    rfl
  unfold tableElement
  rw [bind_of_eq hend, if_neg Bool.false_ne_true, bind_of_eq (p := peek (atKeyword "LIKE")) rfl,
    not_atKeyword_of_startsConstraint hstarts (by decide), if_neg Bool.false_ne_true,
    bind_of_eq (tableElement_of_startsConstraint hstarts d' t)]
  change (keywords ["PERIOD", "FOR", "SYSTEM_TIME"] >>= _) d ts = _
  rw [keywords_bind, not_atKeywords_of_startsConstraint hstarts (by decide),
    if_neg Bool.false_ne_true, if_neg Bool.false_ne_true,
    bind_of_eq (p := peek startsConstraint) rfl, hstarts, if_pos rfl,
    bind_of_eq (p := peek (atKeyword "EXCLUDE")) rfl, hexclude, if_neg Bool.false_ne_true,
    bind_of_eq hc]
  rfl

theorem eq_of_tableElements {clauses : Clauses} {parts : List (List Token)} {t u : Table}
    (h : tableElements clauses t parts d ts = .ok (some u, rest)) : rest = ts := by
  induction parts generalizing t with
  | nil => exact (pure_eq_some.1 h).2.symm
  | cons part parts ih =>
      obtain ⟨next, mid, hpart, h⟩ := bind_eq_some.1 h
      obtain ⟨-, rfl⟩ := within_eq_some.1 hpart
      exact ih h

/-- A constraint written last among the elements comes to what it comes to when it is added to the
table that the others make. -/
theorem declared_concat {clauses : Clauses} (hpass : clauses.PassBodies) {name : QualifiedName}
    {parts : List (List Token)} {part : List Token} {t : Table}
    (h : declared clauses name parts d ts = .ok (some t, rest))
    (hpart : ∀ u, ∃ rest, tableElement clauses u d part =
      .ok (some { u with constraints := u.constraints ++ [c] }, rest))
    (hnew : t.constraints.any (·.equivalent c) = false) :
    declared clauses name (parts ++ [part]) d ts =
      .ok (some (t.applyAll [.addConstraint c]), rest) := by
  obtain ⟨written, mid, hwritten, htail⟩ := bind_eq_some.1 h
  have hmid := eq_of_tableElements hwritten
  subst mid
  obtain ⟨left, hlast⟩ := hpart written
  have hwith : tableElements clauses (.new name) (parts ++ [part]) d ts =
      .ok (some { written with constraints := written.constraints ++ [c] }, ts) := by
    rw [tableElements_append hwritten, tableElements_cons hlast]
    rfl
  generalize hkeys : written.constraints ++ [c] = constraints at hwith
  have hbodies : written.enforcePrimaryKey.Bodies written.enforcePrimaryKey.columns
      (Table.enforcePrimaryKey { written with constraints := constraints }).columns
      written.constraints constraints
      (Table.enforcePrimaryKey { written with constraints := constraints }) :=
    ⟨written, rfl, rfl⟩
  have htogether := Together.untilEnd (fun _ _ h => together_tableStep hpass h) hbodies
  obtain ⟨u, hu, v, rfl, rfl⟩ := (htogether d ts).of_eq_some htail
  unfold declared
  rw [bind_of_eq hwith, hu, Table.applyAll, List.foldl_cons, List.foldl_nil, Table.apply,
    Table.addConstraint, hnew, if_neg Bool.false_ne_true]
  have hsub : written.primaryKeyColumns ⊆
      Table.primaryKeyColumns { written with constraints := constraints } :=
    Table.primaryKeyColumns_mono (hkeys ▸ List.subset_append_left _ _)
  have hcolumns := Table.map_keyed_map_keyed hsub written.columns
  subst hkeys
  exact congrArg (fun cs => Except.ok (some (v.withBody cs (written.constraints ++ [c])), rest))
    hcolumns.symm

end Grammar

end SchemaDrift
