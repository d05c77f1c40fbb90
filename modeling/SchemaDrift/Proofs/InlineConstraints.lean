import SchemaDrift.Proofs.AddedConstraints
import SchemaDrift.Proofs.OtherDrafts

namespace SchemaDrift

open Reader

namespace Reader

variable {σ τ : Type} {step : σ → Reader σ} {step' : τ → Reader τ} {R : σ → τ → Prop}
  {d : Dialect} {s u : σ} {ts us : List Token}

inductive Passes (step : σ → Reader σ) (d : Dialect) : σ → List Token → σ → List Token → Prop
  | refl (s : σ) (ts : List Token) : Passes step d s ts s ts
  | step {s next u : σ} {t : Token} {ts mid us : List Token}
      (h : step s d (t :: ts) = .ok (some next, mid)) (hless : mid.length < (t :: ts).length)
      (hrest : Passes step d next mid u us) : Passes step d s (t :: ts) u us

theorem Passes.trans {v : σ} {vs : List Token} (h : Passes step d s ts u us)
    (h' : Passes step d u us v vs) : Passes step d s ts v vs := by
  induction h with
  | refl s ts => exact h'
  | step h hless _ ih => exact .step h hless (ih h')

theorem Passes.untilEnd_eq (h : Passes step d s ts u us) :
    untilEnd step s d ts = untilEnd step u d us := by
  induction h with
  | refl s ts => rfl
  | step h hless _ ih => rw [untilEnd_cons h hless, ih]

/-- The steps of a loop that is like it lead there, too. -/
theorem Passes.together (hstep : ∀ s t, R s t → Together R (step s) (step' t))
    (h : Passes step d s ts u us) {t : τ} (hst : R s t) :
    ∃ v, Passes step' d t ts v us ∧ R u v := by
  induction h generalizing t with
  | refl s ts => exact ⟨t, .refl t ts, hst⟩
  | @step s next u head ts mid us h hless _ ih =>
      obtain ⟨next', h', hnext⟩ := (hstep s t hst d (head :: ts)).of_eq_some h
      obtain ⟨v, hv, huv⟩ := ih hnext
      exact ⟨v, .step h' hless hv, huv⟩

theorem bind_congr_of_eq {α β : Type} {p q : Reader α} (h : p d ts = q d us) (f : α → Reader β) :
    (p >>= f) d ts = (q >>= f) d us := by
  change Reader.bind p f d ts = Reader.bind q f d us
  rw [Reader.bind, Reader.bind, h]

end Reader

namespace Grammar

variable {d : Dialect} {column : String} {after us : List Token}

def columnStart (ordinal : Nat) : Reader ColumnDraft := do
  let name ← identifier
  let t ← columnType
  return ⟨⟨name, t.dataType, true, none, if t.serial then .identity else .plain, ordinal, []⟩, [],
    none⟩

theorem column_eq_columnStart (clauses : Clauses) (ordinal : Nat) :
    Grammar.column clauses ordinal = do
      let r ← untilEnd (columnStep clauses) (← columnStart ordinal)
      return (settle (← dialect) r.column, r.lifted) := by
  unfold columnStart
  rw [bind_assoc]
  refine congrArg (identifier >>= ·) (funext fun name => ?_)
  rw [bind_assoc]
  rfl

theorem together_columnStart {N : Bool → Bool → Prop} {E : Option String → Option String → Prop}
    (hN : ∀ b, N b b) (hE : ∀ n, E n n) (o o' : Nat) :
    Together (ColumnDraft.Beside N E o o' [] []) (columnStart o) (columnStart o') :=
  .after fun name => .after fun t => .pure
    ⟨⟨⟨name, t.dataType, true, none, if t.serial then .identity else .plain, o, []⟩, true, true,
      hN true, rfl, rfl⟩, ⟨[], [], .nil, rfl, rfl⟩, hE none⟩

def inlineWords : List String := ["CONSTRAINT", "PRIMARY", "UNIQUE", "REFERENCES", "CHECK"]

/-- No dialect takes a constraint at a column for a clause of its own. -/
theorem columnClause_of_isKeyword {t : Token} {k : String} (hk : k ∈ inlineWords)
    (ht : t.isKeyword k = true) (d' : Dialect) (c : Column) (ts : List Token) :
    (Clauses.ofDialect d').columnClause c d (t :: ts) = .ok (some none, t :: ts) := by
  have hnot {k' : String} (hk' : k' ∈ ["ON", "WITH", "IMPLICITLY", "INLINE"]) (ks : List String) :
      atKeywords (k' :: ks) (t :: ts) = false := by
    have hne : ∀ k ∈ inlineWords, ∀ k' ∈ ["ON", "WITH", "IMPLICITLY", "INLINE"],
        Text.asciiUpper k.toList ≠ Text.asciiUpper k'.toList := by decide
    exact atKeywords_cons_of_ne ht (hne k hk k' hk') ks ts
  cases d' with
  | postgres | mySql => rfl
  | sqlite =>
      change Sqlite.columnClause c d (t :: ts) = _
      unfold Sqlite.columnClause
      rw [keywords_bind, hnot (by decide), if_neg Bool.false_ne_true, if_neg Bool.false_ne_true]
      rfl
  | db2 =>
      change Db2.columnClause c d (t :: ts) = _
      unfold Db2.columnClause
      rw [keywords_bind, hnot (by decide), if_neg Bool.false_ne_true, if_neg Bool.false_ne_true,
        keywords_bind, hnot (by decide), if_neg Bool.false_ne_true, if_neg Bool.false_ne_true,
        keywords_bind, hnot (by decide), if_neg Bool.false_ne_true, if_neg Bool.false_ne_true]
      rfl

inductive IsNaming (d : Dialect) : Option String → List Token → Prop
  | unnamed : IsNaming d none []
  | named {t u : Token} {name : String} (ht : t.isKeyword "CONSTRAINT" = true)
      (hu : u.isName = true) (hname : Identifier.read d u.text = .ok name)
      (hwords : ∀ k ∈ unnamedWords, u.isKeyword k = false) : IsNaming d (some name) [t, u]

inductive IsColumnList (d : Dialect) (column : String) : List Token → Prop
  | mk {opening t closing : Token} (hopening : opening.isSymbol "(" = true)
      (ht : t.isName = true) (hname : Identifier.read d t.text = .ok column)
      (hclosing : closing.isSymbol ")" = true) : IsColumnList d column [opening, t, closing]

/-- A rule as it is written at a column, before other clauses, and among the elements of the
table. -/
inductive IsMoved (d : Dialect) (column : String) (after : List Token) :
    Rule → List String → List Token → List Token → Prop
  | primaryKey {primary key : Token} {direction list : List Token}
      (hprimary : primary.isKeyword "PRIMARY" = true) (hkey : key.isKeyword "KEY" = true)
      (hdirection : direction = [] ∧ (∀ k ∈ ["ASC", "DESC"], atKeyword k after = false) ∨
        ∃ t, ∃ k ∈ ["ASC", "DESC"], direction = [t] ∧ t.isKeyword k = true)
      (hlist : IsColumnList d column list) :
      IsMoved d column after .primaryKey [column] (primary :: key :: direction)
        (primary :: key :: list)
  | unique {unique : Token} {key list : List Token} (hunique : unique.isKeyword "UNIQUE" = true)
      (hkey : Optionally ["KEY"] key) (hafter : key = [] → atKeyword "KEY" after = false)
      (hlist : IsColumnList d column list) :
      IsMoved d column after .unique [column] (unique :: key) (unique :: (key ++ list))
  | references {foreign key : Token} {list target : List Token} {k : ForeignKey}
      (hforeign : foreign.isKeyword "FOREIGN" = true) (hkey : key.isKeyword "KEY" = true)
      (hlist : IsColumnList d column list) (halone : references d target = .ok (some k, []))
      (hafter : references d (target ++ after) = .ok (some k, after)) :
      IsMoved d column after (.foreignKey k) [column] target (foreign :: key :: (list ++ target))
  | check {check opening closing : Token} {body : List Token}
      (hcheck : check.isKeyword "CHECK" = true) (hopening : opening.isSymbol "(" = true)
      (hbody : Token.openAfter 0 body = some 0) (hclosing : closing.isSymbol ")" = true) :
      IsMoved d column after (.check (canonicalExpr d (Token.span body))) []
        (check :: opening :: (body ++ [closing])) (check :: opening :: (body ++ [closing]))

def ColumnDraft.lifting (r : ColumnDraft) (k : Constraint) : ColumnDraft where
  column := if k.rule = .primaryKey then { r.column with nullable := false } else r.column
  lifted := r.lifted ++ [k]
  pending := none

theorem group_append {opening closing : Token} {body : List Token}
    (hopening : opening.isSymbol "(" = true) (hbody : Token.openAfter 0 body = some 0)
    (hclosing : closing.isSymbol ")" = true) (us : List Token) :
    group d (opening :: (body ++ [closing]) ++ us) = .ok (some body, us) := by
  rw [List.cons_append, List.append_assoc, List.singleton_append, group, if_pos hopening,
    Token.groupFrom_append hbody, Token.groupFrom, if_pos hclosing, if_pos (by decide),
    List.append_nil]

theorem groupText_append {opening closing : Token} {body : List Token}
    (hopening : opening.isSymbol "(" = true) (hbody : Token.openAfter 0 body = some 0)
    (hclosing : closing.isSymbol ")" = true) (us : List Token) :
    groupText d (opening :: (body ++ [closing]) ++ us) = .ok (some (Token.span body), us) := by
  unfold groupText
  rw [bind_of_eq (group_append hopening hbody hclosing us)]
  rfl

section

variable {clauses : Clauses} {r : ColumnDraft} {t : Token} {ts : List Token}

/-- `CONSTRAINT name` at a column. -/
theorem passes_naming {name : Option String} {naming : List Token} (h : IsNaming d name naming)
    (d' : Dialect) (us : List Token) :
    Passes (columnStep (Clauses.ofDialect d')) d r (naming ++ us)
      { r with pending := name.or r.pending } us := by
  cases h with
  | unnamed => exact .refl r us
  | @named t u name ht hu hname hwords =>
      have hidentifier : Reader.optional identifier d (u :: us) = .ok (some (some name), us) := by
        rw [Reader.optional, identifier, if_pos hu, hname]
      have hless : us.length < (t :: u :: us).length := by
        rw [List.length_cons, List.length_cons]
        omega
      refine .step ?_ hless (.refl _ _)
      rw [columnStep_of_isKeyword (by decide) ht (columnClause_of_isKeyword (by decide) ht _ _ _)]
      change (do return { r with pending := ← Reader.optional identifier } : Reader _) d
        (u :: us) = _
      rw [bind_of_eq hidentifier]
      rfl

/-- A rule at a column is taken out of it. -/
theorem columnStep_of_moved {rule : Rule} {columns : List String} {clause element : List Token}
    (h : IsMoved d r.column.name after rule columns clause element) (d' : Dialect) :
    ∃ t ts, clause = t :: ts ∧ columnStep (Clauses.ofDialect d') r d (clause ++ after) =
      .ok (some (r.lifting ⟨r.pending, rule, columns, []⟩), after) := by
  cases h with
  | @primaryKey primary key direction list hprimary hkey hdirection =>
      refine ⟨primary, _, rfl, ?_⟩
      have hkeywords : atKeywords ["PRIMARY", "KEY"] (primary :: key :: (direction ++ after)) =
          true := by
        rw [atKeywords, atKeywords, hprimary, hkey]
        rfl
      obtain ⟨found, hfound⟩ :
          ∃ found, oneOf ["ASC", "DESC"] d (direction ++ after) = .ok (some found, after) := by
        rcases hdirection with ⟨rfl, hafter⟩ | ⟨t, k, hk, rfl, ht⟩
        · exact ⟨none, oneOf_of_not hafter⟩
        · obtain ⟨found, hfind⟩ := exists_find?_isKeyword hk ht
          exact ⟨some found, oneOf_of_find? hfind after⟩
      rw [List.cons_append, List.cons_append]
      unfold columnStep
      rw [bind_of_eq (columnClause_of_isKeyword (by decide) hprimary d' _ _)]
      change (peekUpper >>= _) d _ = _
      rw [bind_of_eq (p := peekUpper) rfl, upperWord?_of_isKeyword hprimary]
      change (keywords ["NOT", "NULL"] >>= _) d _ = _
      rw [keywords_bind, atKeywords_cons_of_ne hprimary (by decide), if_neg Bool.false_ne_true,
        if_neg Bool.false_ne_true, keywords_bind, if_pos hkeywords, if_pos rfl]
      change (oneOf ["ASC", "DESC"] >>= _) d (direction ++ after) = _
      rw [bind_of_eq hfound]
      rfl
  | @unique unique key list hunique hkey hafter =>
      refine ⟨unique, _, rfl, ?_⟩
      obtain ⟨found, hfound⟩ := keywords_of_optionally (d := d) hkey after
        fun hnone => atKeywords_of_not_atKeyword (hafter hnone) []
      rw [List.cons_append, columnStep_of_isKeyword (by decide) hunique
        (columnClause_of_isKeyword (by decide) hunique _ _ _)]
      change (keywords ["KEY"] >>= _) d (key ++ after) = _
      rw [bind_of_eq hfound]
      rfl
  | @references foreign key list _ k hforeign hkey hlist halone hafter =>
      cases clause with
      | nil => cases halone
      | cons t target =>
          refine ⟨t, target, rfl, ?_⟩
          have ht : t.isKeyword "REFERENCES" = true := by
            unfold references at halone
            change (keywords ["REFERENCES"] >>= _) d (t :: target) = _ at halone
            rw [keywords_bind] at halone
            split at halone
            · next h => exact (Bool.and_eq_true_iff.1 h).1
            · cases halone
          rw [List.cons_append] at hafter ⊢
          unfold columnStep
          rw [bind_of_eq (columnClause_of_isKeyword (by decide) ht d' _ _)]
          change (peekUpper >>= _) d _ = _
          rw [bind_of_eq (p := peekUpper) rfl, upperWord?_of_isKeyword ht]
          change (do return r.liftOwn (.foreignKey (← references)) : Reader _) d _ = _
          rw [bind_of_eq hafter]
          rfl
  | @check check opening closing body hcheck hopening hbody hclosing =>
      refine ⟨check, _, rfl, ?_⟩
      have hgroup : Reader.optional groupText d (opening :: (body ++ [closing]) ++ after) =
          .ok (some (some (Token.span body)), after) := by
        rw [Reader.optional, groupText_append hopening hbody hclosing]
      rw [List.cons_append, columnStep_of_isKeyword (by decide) hcheck
        (columnClause_of_isKeyword (by decide) hcheck _ _ _)]
      change (do return r.lift (.check (← canonicalExpression
        ((← Reader.optional groupText).getD []))) [] : Reader _) d _ = _
      rw [bind_of_eq hgroup]
      rfl

/-- A constraint at a column, with its name or with the one that waits, is taken out of it. -/
theorem passes_constraint {name : Option String} {rule : Rule} {columns : List String}
    {naming clause element : List Token} (hnaming : IsNaming d name naming)
    (h : IsMoved d r.column.name after rule columns clause element) (d' : Dialect) :
    Passes (columnStep (Clauses.ofDialect d')) d r (naming ++ (clause ++ after))
      (r.lifting ⟨name.or r.pending, rule, columns, []⟩) after := by
  obtain ⟨t, ts, rfl, hstep⟩ :=
    columnStep_of_moved (r := { r with pending := name.or r.pending }) h d'
  refine (passes_naming hnaming d' _).trans (.step hstep ?_ (.refl _ _))
  exact Nat.lt_succ_of_le (List.length_append ▸ Nat.le_add_left _ _)

end

theorem keyColumns_of_isColumnList {list : List Token} (h : IsColumnList d column list)
    (us : List Token) : keyColumns d (list ++ us) = .ok (some [column], us) := by
  obtain @⟨opening, t, closing, hopening, ht, hname, hclosing⟩ := h
  have hgroup : Reader.optional group d ([opening, t, closing] ++ us) =
      .ok (some (some [t]), us) := by
    have hgroup := group_append (d := d) hopening (Token.openAfter_of_isName ht 0 []) hclosing us
    rw [List.singleton_append] at hgroup
    rw [Reader.optional, hgroup]
  have hsplit : Token.splitCommas [t] = [[t]] := by
    rw [Token.splitCommas, Token.splitCommasFrom, Token.isSymbol_of_isName ht]
    rfl
  have hidentifier : identifier d [t] = .ok (some column, []) := by
    rw [identifier, if_pos ht, hname]
  have hplain : plainKeyColumn d [t] = .ok (some column, []) := by
    unfold plainKeyColumn
    rw [bind_of_eq hidentifier]
    rfl
  have hkeyColumn : within [t] keyColumn d us = .ok (some column, us) := by
    unfold keyColumn
    rw [within, bind_of_eq (attempt_eq_some.2 hplain)]
    rfl
  unfold keyColumns
  rw [bind_of_eq hgroup]
  dsimp only
  rw [hsplit, eachOf, bind_of_eq hkeyColumn]
  rfl

theorem IsColumnList.exists_cons {list : List Token} (h : IsColumnList d column list) :
    ∃ t ts, list = t :: ts ∧ t.isSymbol "(" = true := by
  obtain ⟨hopening, -, -, -⟩ := h
  exact ⟨_, _, rfl, hopening⟩

/-- What begins with a parenthesis begins with no word. -/
theorem IsColumnList.atKeywords_append {list : List Token} (h : IsColumnList d column list)
    (k : String) (ks : List String) (us : List Token) :
    atKeywords (k :: ks) (list ++ us) = false := by
  obtain ⟨t, ts, rfl, ht⟩ := h.exists_cons
  rw [List.cons_append, atKeywords, Token.isKeyword_of_isSymbol ht, Bool.false_and]

theorem skipIndexMethod_of_isColumnList {list : List Token} (h : IsColumnList d column list)
    (us : List Token) : skipIndexMethod d (list ++ us) = .ok (some (), list ++ us) := by
  unfold skipIndexMethod
  rw [keywords_bind, h.atKeywords_append, if_neg Bool.false_ne_true]
  change (keywords ["USING", "HASH"] >>= _) d _ = _
  rw [keywords_bind, h.atKeywords_append, if_neg Bool.false_ne_true]
  rfl

theorem indexName_of_isColumnList {list : List Token} (h : IsColumnList d column list)
    (isAbsent : List Token → Bool) (habsent : ∀ ts, atSymbol "(" ts = true → isAbsent ts = true)
    (us : List Token) : indexName isAbsent d (list ++ us) = .ok (some none, list ++ us) := by
  obtain ⟨t, ts, rfl, ht⟩ := h.exists_cons
  have hhead : isAbsent (t :: ts ++ us) = true := habsent _ ht
  unfold indexName
  rw [bind_of_eq (p := peek isAbsent) rfl, hhead, if_pos rfl]
  rfl

/-- The rule among the elements. -/
theorem rule_of_moved {rule : Rule} {columns : List String} {clause element : List Token}
    (h : IsMoved d column after rule columns clause element) :
    Grammar.rule d element = .ok (some (none, rule, columns), []) := by
  have hnot {t : Token} {k : String} (ht : t.isKeyword k = true) {k' : String}
      (hk : Text.asciiUpper k.toList ≠ Text.asciiUpper k'.toList) (ks : List String)
      (ts : List Token) {α : Type} (f : Bool → Reader α) :
      (keywords (k' :: ks) >>= f) d (t :: ts) = f false d (t :: ts) := by
    rw [keywords_bind, atKeywords_cons_of_ne ht hk, if_neg Bool.false_ne_true]
  unfold Grammar.rule
  cases h with
  | @primaryKey primary key direction list hprimary hkey hdirection hlist =>
      have hkeywords : atKeywords ["PRIMARY", "KEY"] (primary :: key :: list) = true := by
        rw [atKeywords, atKeywords, hprimary, hkey]
        rfl
      have hcolumns := keyColumns_of_isColumnList hlist []
      have hskip := skipIndexMethod_of_isColumnList hlist []
      rw [List.append_nil] at hcolumns hskip
      rw [keywords_bind, if_pos hkeywords, if_pos rfl]
      change (skipIndexMethod >>= _) d list = _
      rw [bind_of_eq hskip, bind_of_eq hcolumns]
      rfl
  | @unique unique key list hunique hkey hafter hlist =>
      have hkeywords : atKeywords ["UNIQUE"] (unique :: (key ++ list)) = true := by
        rw [atKeywords, hunique]
        rfl
      obtain ⟨found, hfound⟩ : ∃ found, oneOf ["KEY", "INDEX"] d (key ++ list) =
          .ok (some found, list) := by
        rcases hkey with rfl | ⟨hkey, hlength⟩
        · obtain ⟨t, ts, rfl, ht⟩ := hlist.exists_cons
          exact ⟨none, oneOf_of_not fun k _ => Token.isKeyword_of_isSymbol ht k⟩
        · obtain ⟨t, rfl⟩ := List.length_eq_one_iff.1 hlength
          rw [atKeywords, Bool.and_eq_true] at hkey
          obtain ⟨found, hfind⟩ :=
            exists_find?_isKeyword (show "KEY" ∈ ["KEY", "INDEX"] by decide) hkey.1
          exact ⟨some found, oneOf_of_find? hfind list⟩
      have hcolumns := keyColumns_of_isColumnList hlist []
      have hskip := skipIndexMethod_of_isColumnList hlist []
      have hindex := indexName_of_isColumnList hlist
        (fun ts => atSymbol "(" ts || atKeyword "USING" ts)
        (fun ts hts => by rw [hts, Bool.true_or]) []
      rw [List.append_nil] at hcolumns hskip hindex
      rw [hnot hunique (by decide), if_neg Bool.false_ne_true]
      change (keywords ["UNIQUE"] >>= _) d _ = _
      rw [keywords_bind, if_pos hkeywords, if_pos rfl]
      change (oneOf ["KEY", "INDEX"] >>= _) d (key ++ list) = _
      rw [bind_of_eq hfound, bind_of_eq hindex, bind_of_eq hskip, bind_of_eq hcolumns]
      rfl
  | @references foreign key list _ k hforeign hkey hlist halone hafter =>
      have hkeywords : atKeywords ["FOREIGN", "KEY"] (foreign :: key :: (list ++ clause)) =
          true := by
        rw [atKeywords, atKeywords, hforeign, hkey]
        rfl
      have hindex := indexName_of_isColumnList hlist (atSymbol "(")
        (fun _ hts => hts) clause
      rw [hnot hforeign (by decide), if_neg Bool.false_ne_true]
      change (keywords ["UNIQUE"] >>= _) d _ = _
      rw [hnot hforeign (by decide), if_neg Bool.false_ne_true, keywords_bind, if_pos hkeywords,
        if_pos rfl]
      change (indexName (atSymbol "(") >>= _) d (list ++ clause) = _
      rw [bind_of_eq hindex, bind_of_eq (keyColumns_of_isColumnList hlist clause),
        bind_of_eq halone]
      rfl
  | @check check opening closing body hcheck hopening hbody hclosing =>
      have hkeywords (ts : List Token) : atKeywords ["CHECK"] (check :: ts) = true := by
        rw [atKeywords, hcheck]
        rfl
      have hgroup := groupText_append (d := d) hopening hbody hclosing []
      rw [List.append_nil] at hgroup
      rw [hnot hcheck (by decide), if_neg Bool.false_ne_true]
      change (keywords ["UNIQUE"] >>= _) d _ = _
      rw [hnot hcheck (by decide), if_neg Bool.false_ne_true, hnot hcheck (by decide),
        if_neg Bool.false_ne_true]
      change (keywords ["CHECK"] >>= _) d _ = _
      rw [keywords_bind, if_pos (hkeywords _), if_pos rfl]
      change (groupText >>= _) d (opening :: (body ++ [closing])) = _
      rw [bind_of_eq hgroup]
      rfl

theorem startsConstraint_of_moved {rule : Rule} {columns : List String}
    {clause element : List Token} (h : IsMoved d column after rule columns clause element) :
    startsConstraint element = true ∧ atKeyword "EXCLUDE" element = false ∧
      atKeyword "CONSTRAINT" element = false := by
  cases h with
  | primaryKey hprimary hkey hdirection hlist =>
      refine ⟨?_, atKeyword_cons_of_ne hprimary (by decide) _,
        atKeyword_cons_of_ne hprimary (by decide) _⟩
      simp [startsConstraint, atKeywords, hprimary, hkey]
  | @unique unique key list hunique hkey hafter hlist =>
      refine ⟨?_, atKeyword_cons_of_ne hunique (by decide) _,
        atKeyword_cons_of_ne hunique (by decide) _⟩
      have hopens : headIs (fun t => t.text == ['(']) (key ++ list) = true ∨
          atKeyword "KEY" (key ++ list) = true := by
        rcases hkey with rfl | ⟨hkey, hlength⟩
        · obtain ⟨t, ts, rfl, ht⟩ := hlist.exists_cons
          exact .inl (Bool.and_eq_true_iff.1 ht).2
        · obtain ⟨t, rfl⟩ := List.length_eq_one_iff.1 hlength
          exact .inr (Bool.and_eq_true_iff.1 hkey).1
      have hword : atKeyword "UNIQUE" (unique :: (key ++ list)) = true := hunique
      rcases hopens with hopens | hopens <;> simp [startsConstraint, hword, hopens]
  | references hforeign hkey hlist halone hafter =>
      refine ⟨?_, atKeyword_cons_of_ne hforeign (by decide) _,
        atKeyword_cons_of_ne hforeign (by decide) _⟩
      simp [startsConstraint, atKeywords, hforeign, hkey]
  | check hcheck hopening hbody hclosing =>
      refine ⟨?_, atKeyword_cons_of_ne hcheck (by decide) _,
        atKeyword_cons_of_ne hcheck (by decide) _⟩
      simp [startsConstraint, atKeyword, headIs, hcheck]

/-- The constraint among the elements, with its name. -/
theorem tableConstraint_of_moved {name : Option String} {rule : Rule} {columns : List String}
    {naming clause element : List Token} (hnaming : IsNaming d name naming)
    (h : IsMoved d column after rule columns clause element) :
    startsConstraint (naming ++ element) = true ∧ atKeyword "EXCLUDE" (naming ++ element) = false ∧
      tableConstraint d (naming ++ element) = .ok (some ⟨name, rule, columns, []⟩, []) := by
  obtain ⟨hstarts, hexclude, hconstraint⟩ := startsConstraint_of_moved h
  have hunnamed : tableConstraint d element = .ok (some ⟨none, rule, columns, []⟩, []) := by
    unfold tableConstraint
    rw [bind_of_eq (givenName_of_not hconstraint), bind_of_eq (rule_of_moved h)]
    rfl
  cases hnaming with
  | unnamed => exact ⟨hstarts, hexclude, hunnamed⟩
  | @named t u name ht hu hname hwords =>
      refine ⟨?_, ?_, tableConstraint_named ht hu hname hwords hconstraint hunnamed⟩
      · simp [startsConstraint, atKeyword, headIs, ht]
      · exact atKeyword_cons_of_ne ht (by decide) (u :: element)

end Grammar

end SchemaDrift
