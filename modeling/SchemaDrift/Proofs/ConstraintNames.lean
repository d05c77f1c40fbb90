import SchemaDrift.Proofs.InlineConstraints
import SchemaDrift.Proofs.Ordinals

namespace SchemaDrift

open Reader

namespace Reader

variable {σ τ : Type}

theorem bind_of_none {α β : Type} {p : Reader α} {f : α → Reader β} {d : Dialect}
    {ts rest : List Token} (h : p d ts = .ok (none, rest)) :
    (p >>= f) d ts = .ok (none, rest) := by
  change Reader.bind p f d ts = _
  rw [Reader.bind, h]

def visited (step : σ → Reader σ) (s : σ) (d : Dialect) (ts : List Token) : List (List Token) :=
  match ts with
  | [] => []
  | t :: ts =>
      (t :: ts) :: match step s d (t :: ts) with
        | .ok (some next, rest) =>
            if rest.length < (t :: ts).length then visited step next d rest else []
        | _ => []
termination_by ts.length
decreasing_by assumption

/-- What each step does to one side of the state, the loop does one visited place after another. -/
theorem foldl_visited {step : σ → Reader σ} {d : Dialect} (side : σ → τ)
    {f : τ → List Token → τ} (hstep : ∀ (s next : σ) (t : Token) (ts rest : List Token),
      step s d (t :: ts) = .ok (some next, rest) → side next = f (side s) (t :: ts))
    {s u : σ} {ts rest : List Token} (h : untilEnd step s d ts = .ok (some u, rest)) :
    side u = (visited step s d ts).foldl f (side s) := by
  induction hn : ts.length using Nat.strong_induction_on generalizing s ts with
  | _ n ih =>
      subst hn
      cases ts with
      | nil =>
          rw [untilEnd_nil] at h
          cases h
          rw [visited]
          rfl
      | cons t ts =>
          rw [untilEnd, iterate, bind_of_eq (p := atEnd) (a := false) rfl,
            if_neg Bool.false_ne_true] at h
          rw [visited]
          cases hnext : step s d (t :: ts) with
          | error e =>
              rw [bind_of_error hnext] at h
              cases h
          | ok r =>
              obtain ⟨next, mid⟩ := r
              cases next with
              | none =>
                  rw [bind_of_none hnext] at h
                  cases h
              | some next =>
                  rw [bind_of_eq hnext] at h
                  change (if mid.length < (t :: ts).length then
                    untilEnd step next d mid else .ok (some next, mid)) = _ at h
                  dsimp only
                  rw [List.foldl_cons, ← hstep s next t ts mid hnext]
                  split at h
                  · next hless => rw [if_pos hless, ih _ hless h rfl]
                  · next hnot =>
                      cases h
                      rw [if_neg hnot]
                      rfl

end Reader

namespace Grammar

/-- What a clause of a column is to the names of constraints: it gives one, gives a constraint
that is written with a word, or neither. -/
inductive ColumnClause
  | naming (name : Option String)
  | constraint (word : String)
  | other
deriving DecidableEq, Repr

def ruleWord : Rule → String
  | .primaryKey => "PRIMARY KEY"
  | .unique => "UNIQUE"
  | .foreignKey _ => "REFERENCES"
  | .check _ => "CHECK"

namespace ColumnClause

def ofTokens (d : Dialect) (ts : List Token) : ColumnClause :=
  if upperWord? ts = some "CONSTRAINT" then
    .naming (match identifier d ts.tail with
      | .ok (name, _) => name
      | .error _ => none)
  else if upperWord? ts = some "UNIQUE" then .constraint "UNIQUE"
  else if upperWord? ts = some "REFERENCES" then .constraint "REFERENCES"
  else if upperWord? ts = some "CHECK" then .constraint "CHECK"
  else if atKeywords ["PRIMARY", "KEY"] ts then .constraint "PRIMARY KEY"
  else .other

def ownNames (given : Option String) : List ColumnClause → List (String × Option String)
  | [] => []
  | .naming name :: cs => ownNames name cs
  | .constraint word :: cs => (word, given) :: ownNames none cs
  | .other :: cs => ownNames none cs

/-- The constraints of clauses with their names, where a name is for the next constraint. -/
def nextNames (waiting : Option String) : List ColumnClause → List (String × Option String)
  | [] => []
  | .naming name :: cs => nextNames name cs
  | .constraint word :: cs => (word, waiting) :: nextNames none cs
  | .other :: cs => nextNames waiting cs

def liftsNext : List ColumnClause → Bool
  | .constraint _ :: _ => true
  | .other :: cs => liftsNext cs
  | _ => false

/-- Somewhere a name is given to a clause without a constraint, and the next constraint has no name
of its own. -/
def strays : List ColumnClause → Bool
  | [] => false
  | .naming (some _) :: cs => cs.head? == some .other && liftsNext cs || strays cs
  | _ :: cs => strays cs

theorem nextNames_eq_ownNames_iff (cs : List ColumnClause) :
    (∀ given, nextNames given cs = ownNames given cs ↔ strays (.naming given :: cs) = false) ∧
      ∀ name, nextNames (some name) cs = ownNames none cs ↔
        (liftsNext cs || strays cs) = false := by
  induction cs with
  | nil =>
      refine ⟨fun given => ?_, fun name => iff_of_true rfl rfl⟩
      cases given <;> exact iff_of_true rfl rfl
  | cons c cs ih =>
      obtain ⟨ihown, ihwaiting⟩ := ih
      cases c with
      | naming other =>
          refine ⟨fun given => ?_, fun name => ihown other⟩
          cases given with
          | none => exact ihown other
          | some name => exact ihown other
      | constraint word =>
          have hnone := ihown none
          refine ⟨fun given => ?_, fun name => iff_of_false (fun h => ?_) Bool.noConfusion⟩
          · rw [nextNames, ownNames, List.cons_inj_right]
            cases given with
            | none => exact hnone
            | some name => exact hnone
          · rw [nextNames, ownNames] at h
            cases h
      | other =>
          refine ⟨fun given => ?_, fun name => ihwaiting name⟩
          cases given with
          | none => exact ihown none
          | some name => exact ihwaiting name

end ColumnClause

def constraintNames (ks : List Constraint) : List (String × Option String) :=
  ks.map fun k => (ruleWord k.rule, k.name)

def ColumnDraft.names (r : ColumnDraft) : List (String × Option String) × Option String :=
  (constraintNames r.lifted, r.pending)

def ColumnClause.apply (names : List (String × Option String) × Option String) :
    ColumnClause → List (String × Option String) × Option String
  | .naming name => (names.1, name)
  | .constraint word => (names.1 ++ [(word, names.2)], none)
  | .other => names

theorem ColumnClause.foldl_apply (cs : List ColumnClause)
    (names : List (String × Option String) × Option String) :
    (cs.foldl apply names).1 = names.1 ++ nextNames names.2 cs := by
  induction cs generalizing names with
  | nil => exact (List.append_nil _).symm
  | cons c cs ih =>
      rw [List.foldl_cons, ih]
      cases c with
      | naming name => rfl
      | constraint word => exact List.append_assoc _ _ _
      | other => rfl

theorem ColumnDraft.Redescribes.names_eq {r s : ColumnDraft} (h : r.Redescribes s) :
    s.names = r.names := by
  rw [names, names, h.lifted, h.pending]

theorem ColumnDraft.names_lift (r : ColumnDraft) (rule : Rule) (columns : List String) :
    (r.lift rule columns).names = ColumnClause.apply r.names (.constraint (ruleWord rule)) := by
  rw [names, lift, constraintNames, List.map_append]
  rfl

section

variable {d : Dialect} {ts rest : List Token}

theorem ofTokens_of_atKeywords {k : String} {ks : List String} (h : atKeywords (k :: ks) ts = true)
    (hk : String.ofList (Text.upper k.toList) ∉ ["CONSTRAINT", "UNIQUE", "REFERENCES", "CHECK"])
    (hprimary : Text.asciiUpper k.toList ≠ Text.asciiUpper "PRIMARY".toList) :
    ColumnClause.ofTokens d ts = .other := by
  cases ts with
  | nil => cases h
  | cons t ts =>
      have ht : t.isKeyword k = true := (Bool.and_eq_true_iff.1 h).1
      have hword := upperWord?_of_isKeyword ht ts
      simp only [List.mem_cons, List.not_mem_nil, or_false, not_or] at hk
      obtain ⟨hconstraint, hunique, hreferences, hcheck⟩ := hk
      rw [ColumnClause.ofTokens, hword, if_neg (fun h => hconstraint (Option.some.inj h)),
        if_neg (fun h => hunique (Option.some.inj h)),
        if_neg (fun h => hreferences (Option.some.inj h)),
        if_neg (fun h => hcheck (Option.some.inj h)), atKeywords_cons_of_ne ht hprimary,
        if_neg Bool.false_ne_true]

theorem ofTokens_of_not_word (h : upperWord? ts = none) :
    ColumnClause.ofTokens d ts = .other := by
  have hprimary : atKeywords ["PRIMARY", "KEY"] ts = false := by
    cases ts with
    | nil => rfl
    | cons t ts =>
        rw [atKeywords, Token.isKeyword]
        cases hword : t.isWord with
        | false => rfl
        | true =>
            rw [upperWord?.eq_def] at h
            dsimp only at h
            rw [if_pos hword] at h
            cases h
  rw [ColumnClause.ofTokens, h, hprimary]
  rfl

theorem ofTokens_of_references (h : upperWord? ts = some "REFERENCES") :
    ColumnClause.ofTokens d ts = .constraint "REFERENCES" := by
  rw [ColumnClause.ofTokens, h, if_neg (by decide), if_neg (by decide), if_pos rfl]

theorem ofTokens_of_primaryKey (h : atKeywords ["PRIMARY", "KEY"] ts = true) :
    ColumnClause.ofTokens d ts = .constraint "PRIMARY KEY" := by
  cases ts with
  | nil => cases h
  | cons t ts =>
      have ht : t.isKeyword "PRIMARY" = true := (Bool.and_eq_true_iff.1 h).1
      rw [ColumnClause.ofTokens, upperWord?_of_isKeyword ht, if_neg (by decide),
        if_neg (by decide), if_neg (by decide), if_neg (by decide), if_pos h]

theorem ofTokens_of_not_mem {word : String} (h : upperWord? ts = some word)
    (hword : word ∉ ["CONSTRAINT", "UNIQUE", "REFERENCES", "CHECK"])
    (hprimary : atKeywords ["PRIMARY", "KEY"] ts = false) :
    ColumnClause.ofTokens d ts = .other := by
  simp only [List.mem_cons, List.not_mem_nil, or_false, not_or] at hword
  obtain ⟨hconstraint, hunique, hreferences, hcheck⟩ := hword
  rw [ColumnClause.ofTokens, h, if_neg (fun h => hconstraint (Option.some.inj h)),
    if_neg (fun h => hunique (Option.some.inj h)),
    if_neg (fun h => hreferences (Option.some.inj h)),
    if_neg (fun h => hcheck (Option.some.inj h)), hprimary, if_neg Bool.false_ne_true]

end

def TakesOthers (p : Reader (Option Column)) : Prop :=
  ∀ (d : Dialect) (ts rest : List Token) (found : Option Column),
    p d ts = .ok (some found, rest) →
      found = none ∧ rest = ts ∨ found.isSome = true ∧ ColumnClause.ofTokens d ts = .other

theorem takesOthers_none : TakesOthers (pure none) := by
  intro d ts rest found h
  obtain ⟨rfl, rfl⟩ := pure_eq_some.1 h
  exact .inl ⟨rfl, rfl⟩

theorem TakesOthers.keywords {k : String} {ks : List String} {p q : Reader (Option Column)}
    (hk : String.ofList (Text.upper k.toList) ∉ ["CONSTRAINT", "UNIQUE", "REFERENCES", "CHECK"])
    (hprimary : Text.asciiUpper k.toList ≠ Text.asciiUpper "PRIMARY".toList)
    (hp : Yields (fun found => found.isSome = true) p) (hq : TakesOthers q) :
    TakesOthers (Reader.keywords (k :: ks) >>= fun b => if b then p else q) := by
  intro d ts rest found h
  rw [keywords_bind] at h
  split at h
  · next hkeywords =>
      rw [if_pos rfl] at h
      exact .inr ⟨hp _ _ _ _ h, ofTokens_of_atKeywords hkeywords hk hprimary⟩
  · rw [if_neg Bool.false_ne_true] at h
    exact hq d ts rest found h

theorem takesOthers_columnClause (d : Dialect) (c : Column) :
    TakesOthers ((Clauses.ofDialect d).columnClause c) := by
  cases d with
  | postgres | mySql => exact takesOthers_none
  | sqlite =>
      refine .keywords (by decide) (by decide) (.after fun action => ?_) takesOthers_none
      cases action with
      | none => exact .pure rfl
      | some action => exact .after fun _ => .pure rfl
  | db2 =>
      refine .keywords (by decide) (by decide) ?_ (.keywords (by decide) (by decide) (.pure rfl)
        (.keywords (by decide) (by decide) (.after fun _ => .pure rfl) takesOthers_none))
      exact .after fun s => .ite (.pure rfl) (.after fun _ => .pure rfl)

section

variable {d d' : Dialect} {r next : ColumnDraft} {t : Token} {ts rest : List Token}

/-- `CONSTRAINT`, `UNIQUE` and `CHECK`, and the words that only describe the column. -/
theorem names_clauseAfter {word : String} (hword : upperWord? (t :: ts) = some word)
    (hreferences : word ≠ "REFERENCES") (hprimary : atKeywords ["PRIMARY", "KEY"] (t :: ts) = false)
    (h : clauseAfter r word d ts = .ok (some next, rest)) :
    next.names = ColumnClause.apply r.names (.ofTokens d (t :: ts)) := by
  by_cases hmem : word ∈ ["CONSTRAINT", "UNIQUE", "CHECK"]
  · simp only [List.mem_cons, List.not_mem_nil, or_false] at hmem
    rcases hmem with rfl | rfl | rfl
    · rw [ColumnClause.ofTokens, if_pos hword]
      obtain ⟨name, mid, hname, h⟩ := bind_eq_some.1 h
      obtain ⟨rfl, rfl⟩ := pure_eq_some.1 h
      rw [Reader.optional] at hname
      rw [List.tail_cons]
      split at hname
      · cases hname
      · next hidentifier =>
          cases hname
          rw [hidentifier]
          rfl
    · rw [ColumnClause.ofTokens, hword, if_neg (by decide), if_pos rfl]
      obtain ⟨_, mid, -, h⟩ := bind_eq_some.1 h
      obtain ⟨rfl, rfl⟩ := pure_eq_some.1 h
      exact r.names_lift _ _
    · rw [ColumnClause.ofTokens, hword, if_neg (by decide), if_neg (by decide),
        if_neg (by decide), if_pos rfl]
      obtain ⟨_, mid, -, h⟩ := bind_eq_some.1 h
      obtain ⟨e, mid', -, h⟩ := bind_eq_some.1 h
      obtain ⟨rfl, rfl⟩ := pure_eq_some.1 h
      exact r.names_lift _ _
  · rw [ofTokens_of_not_mem hword (fun h => ?_) hprimary]
    · exact (yields_clauseAfter_of_not_mem hmem _ _ _ _ h).names_eq
    · simp only [List.mem_cons, List.not_mem_nil, or_false] at h hmem
      tauto

/-- What one clause does to the names. -/
theorem names_columnStep
    (h : columnStep (Clauses.ofDialect d') r d (t :: ts) = .ok (some next, rest)) :
    next.names = ColumnClause.apply r.names (.ofTokens d (t :: ts)) := by
  unfold columnStep at h
  obtain ⟨found, mid, hfound, h⟩ := bind_eq_some.1 h
  rcases takesOthers_columnClause d' r.column d _ _ _ hfound with ⟨rfl, rfl⟩ | ⟨hsome, hother⟩
  · obtain ⟨word, mid, hpeek, h⟩ := bind_eq_some.1 h
    obtain ⟨hword, rfl⟩ : upperWord? (t :: ts) = word ∧ t :: ts = mid := by
      cases hpeek
      exact ⟨rfl, rfl⟩
    dsimp only at h
    split at h
    · obtain ⟨_, _, -, h⟩ := bind_eq_some.1 h
      obtain ⟨rfl, -⟩ := pure_eq_some.1 h
      rw [ofTokens_of_not_word hword]
      rfl
    · obtain ⟨k, _, -, h⟩ := bind_eq_some.1 h
      obtain ⟨rfl, -⟩ := pure_eq_some.1 h
      rw [ofTokens_of_references hword]
      exact r.names_lift _ _
    · next word hreferences =>
        change (keywords ["NOT", "NULL"] >>= _) d (t :: ts) = _ at h
        rw [keywords_bind] at h
        split at h
        · next hnot =>
            obtain ⟨rfl, -⟩ := pure_eq_some.1 h
            rw [ofTokens_of_atKeywords hnot (by decide) (by decide)]
            rfl
        rw [if_neg Bool.false_ne_true, keywords_bind] at h
        split at h
        · next hprimary =>
            obtain ⟨_, _, -, h⟩ := bind_eq_some.1 h
            obtain ⟨rfl, -⟩ := pure_eq_some.1 h
            rw [ofTokens_of_primaryKey hprimary]
            exact ColumnDraft.names_lift _ _ _
        next hprimary =>
        rw [if_neg Bool.false_ne_true, keywords_bind] at h
        split at h
        · next hon =>
            obtain ⟨_, _, -, h⟩ := bind_eq_some.1 h
            obtain ⟨_, _, -, h⟩ := bind_eq_some.1 h
            obtain ⟨rfl, -⟩ := pure_eq_some.1 h
            rw [ofTokens_of_atKeywords hon (by decide) (by decide)]
            rfl
        rw [if_neg Bool.false_ne_true] at h
        obtain ⟨_, _, hskip, h⟩ := bind_eq_some.1 h
        cases hskip
        exact names_clauseAfter hword hreferences
          (Bool.eq_false_iff.2 hprimary) h
  · obtain ⟨column, rfl⟩ := Option.isSome_iff_exists.1 hsome
    obtain ⟨rfl, -⟩ := pure_eq_some.1 h
    rw [hother]
    rfl

end

def columnClauses (d : Dialect) (ordinal : Nat) (ts : List Token) : List ColumnClause :=
  match columnStart ordinal d ts with
  | .ok (some r, rest) =>
      (visited (columnStep (Clauses.ofDialect d)) r d rest).map (ColumnClause.ofTokens d)
  | _ => []

theorem yields_columnStart (ordinal : Nat) :
    Yields (fun r => r.names = ([], none)) (columnStart ordinal) :=
  .after fun _ => .after fun _ => .pure rfl

theorem map_lifted_column {d : Dialect} {ordinal : Nat} {ts rest : List Token} {c : Column}
    {lifted : List Constraint}
    (h : column (Clauses.ofDialect d) ordinal d ts = .ok (some (c, lifted), rest)) :
    constraintNames lifted = ColumnClause.nextNames none (columnClauses d ordinal ts) := by
  rw [column_eq_columnStart] at h
  obtain ⟨r, mid, hstart, h⟩ := bind_eq_some.1 h
  obtain ⟨u, mid', hloop, h⟩ := bind_eq_some.1 h
  obtain ⟨_, _, -, h⟩ := bind_eq_some.1 h
  obtain ⟨hpair, -⟩ := pure_eq_some.1 h
  obtain ⟨-, rfl⟩ := Prod.mk.inj hpair
  have hfold := foldl_visited ColumnDraft.names
    (f := fun names ts => ColumnClause.apply names (.ofTokens d ts))
    (fun _ _ _ _ _ hstep => names_columnStep hstep) hloop
  rw [← List.foldl_map, yields_columnStart ordinal _ _ _ _ hstart] at hfold
  have hfirst := congrArg Prod.fst hfold
  rw [ColumnClause.foldl_apply] at hfirst
  rw [columnClauses, hstart]
  exact hfirst

/-- A name given at a column goes to the next constraint. That is the constraint directly behind it,
and each constraint without a name of its own stays without, just when no name strays. -/
theorem column_constraint_names {d : Dialect} {ordinal : Nat} {ts rest : List Token} {c : Column}
    {lifted : List Constraint}
    (h : column (Clauses.ofDialect d) ordinal d ts = .ok (some (c, lifted), rest)) :
    constraintNames lifted = ColumnClause.nextNames none (columnClauses d ordinal ts) ∧
      (constraintNames lifted = ColumnClause.ownNames none (columnClauses d ordinal ts) ↔
        ColumnClause.strays (columnClauses d ordinal ts) = false) := by
  have hnames := map_lifted_column h
  refine ⟨hnames, ?_⟩
  rw [hnames]
  exact (ColumnClause.nextNames_eq_ownNames_iff _).1 none

def namedTokens : List Token :=
  Token.lex .postgres "a int CONSTRAINT pk PRIMARY KEY NOT NULL CONSTRAINT low CHECK (a < 9)".toList

def idColumn : Column := ⟨"a", ⟨.integer, [], "int"⟩, false, none, .plain, 1, []⟩

def namedConstraints : List Constraint :=
  [⟨some "pk", .primaryKey, ["a"], []⟩, ⟨some "low", .check "a < 9", [], []⟩]

/-- Names that stand directly before their constraints. -/
theorem column_constraint_names_key :
    column (Clauses.ofDialect .postgres) 1 .postgres namedTokens =
        .ok (some (idColumn, namedConstraints), []) ∧
      constraintNames namedConstraints =
        ColumnClause.ownNames none (columnClauses .postgres 1 namedTokens) := by
  have hread : column (Clauses.ofDialect .postgres) 1 .postgres namedTokens =
      .ok (some (idColumn, namedConstraints), []) := by decide +kernel
  exact ⟨hread, (column_constraint_names hread).2.2 (by decide +kernel)⟩

def strayTokens : List Token :=
  Token.lex .postgres "a int CONSTRAINT nn NOT NULL PRIMARY KEY".toList

/-- The name of `NOT NULL` goes to the key behind it, which has none of its own. -/
theorem not_null_names_key :
    column (Clauses.ofDialect .postgres) 1 .postgres strayTokens =
        .ok (some (idColumn, [⟨some "nn", .primaryKey, ["a"], []⟩]), []) ∧
      columnClauses .postgres 1 strayTokens =
        [.naming (some "nn"), .other, .constraint "PRIMARY KEY"] ∧
      ColumnClause.ownNames none (columnClauses .postgres 1 strayTokens) =
        [("PRIMARY KEY", none)] := by
  decide +kernel

end Grammar

end SchemaDrift
