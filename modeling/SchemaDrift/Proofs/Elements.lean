import SchemaDrift.Proofs.Extents
import SchemaDrift.Proofs.Tables

namespace SchemaDrift

namespace Reader

variable {d : Dialect} {t : Token} {ts rest : List Token}

theorem upperWord?_of_isKeyword {k : String} (h : t.isKeyword k = true) (ts : List Token) :
    upperWord? (t :: ts) = some (String.ofList (Text.upper k.toList)) := by
  obtain ⟨hword, htext⟩ := Bool.and_eq_true_iff.1 h
  rw [upperWord?, if_pos hword, ← Text.upper_asciiUpper, beq_iff_eq.1 htext, Text.upper_asciiUpper]

theorem atKeywords_cons_of_ne {k k' : String} (h : t.isKeyword k = true)
    (hk : Text.asciiUpper k.toList ≠ Text.asciiUpper k'.toList) (ks : List String)
    (ts : List Token) : atKeywords (k' :: ks) (t :: ts) = false := by
  rw [atKeywords, Token.not_isKeyword_of_ne h hk, Bool.false_and]

theorem atKeyword_cons_of_ne {k k' : String} (h : t.isKeyword k = true)
    (hk : Text.asciiUpper k.toList ≠ Text.asciiUpper k'.toList) (ts : List Token) :
    atKeyword k' (t :: ts) = false := by
  have hnot := atKeywords_cons_of_ne h hk [] ts
  rwa [atKeywords, atKeywords, Bool.and_true] at hnot

theorem atKeywords_of_not_atKeyword {k : String} (h : atKeyword k ts = false) (ks : List String) :
    atKeywords (k :: ks) ts = false := by
  cases ts with
  | nil => rfl
  | cons t ts =>
      have ht : t.isKeyword k = false := h
      rw [atKeywords, ht, Bool.false_and]

theorem oneOf_of_find? {ks : List String} {k : String} (h : ks.find? t.isKeyword = some k)
    (ts : List Token) : oneOf ks d (t :: ts) = .ok (some (some k), ts) := by
  rw [oneOf, h]

theorem exists_find?_isKeyword {ks : List String} {k : String} (hk : k ∈ ks)
    (ht : t.isKeyword k = true) : ∃ found, ks.find? t.isKeyword = some found :=
  Option.isSome_iff_exists.1 (List.find?_isSome.2 ⟨k, hk, ht⟩)

theorem oneOf_of_not {ks : List String} (h : ∀ k ∈ ks, atKeyword k ts = false) :
    oneOf ks d ts = .ok (some none, ts) := by
  cases ts with
  | nil => rfl
  | cons t ts =>
      have hfind : ks.find? t.isKeyword = none :=
        List.find?_eq_none.2 fun k hk => Bool.eq_false_iff.1 (h k hk)
      rw [oneOf, hfind]

theorem sourceUntil_eq (stops : List String) (d : Dialect) (ts : List Token) :
    sourceUntil stops d ts = .ok
      (some (Token.span (ts.take (ts.length - (dropUntil stops ts).length))),
        dropUntil stops ts) :=
  rfl

section

variable {σ : Type} {step : σ → Reader σ} {s next : σ}

theorem untilEnd_nil : untilEnd step s d [] = .ok (some s, []) := by
  rw [untilEnd, iterate]
  rfl

/-- One step of a loop that ends with the tokens. -/
theorem untilEnd_cons (h : step s d (t :: ts) = .ok (some next, rest))
    (hrest : rest.length < (t :: ts).length) :
    untilEnd step s d (t :: ts) = untilEnd step next d rest := by
  have hstep : (do if ← atEnd then return none else return some (← step s) : Reader (Option σ)) d
      (t :: ts) = .ok (some (some next), rest) := by
    rw [bind_of_eq (p := atEnd) (a := false) rfl, if_neg Bool.false_ne_true, bind_of_eq h]
    rfl
  rw [untilEnd, iterate, hstep]
  exact if_pos hrest

end

end Reader

namespace Grammar

open Reader

variable {d : Dialect} {r : ColumnDraft} {t u : Token} {ts us rest : List Token}

/-- A word that no dialect takes for a clause of its own begins one that all dialects have. -/
theorem columnStep_of_isKeyword {clauses : Clauses} {k : String}
    (hk : k ∈ ["DEFAULT", "NULL", "CONSTRAINT", "UNIQUE", "CHECK"]) (ht : t.isKeyword k = true)
    (hnone : clauses.columnClause r.column d (t :: ts) = .ok (some none, t :: ts)) :
    columnStep clauses r d (t :: ts) = clauseAfter r k d ts := by
  have hword : upperWord? (t :: ts) = some k := by
    rw [upperWord?_of_isKeyword ht]
    simp only [List.mem_cons, List.not_mem_nil, or_false] at hk
    rcases hk with rfl | rfl | rfl | rfl | rfl <;> rfl
  have hnot {k' : String} (hk' : k' ∈ ["NOT", "PRIMARY", "ON"]) (ks : List String) :
      keywords (k' :: ks) d (t :: ts) = .ok (some false, t :: ts) := by
    have hne : ∀ k ∈ ["DEFAULT", "NULL", "CONSTRAINT", "UNIQUE", "CHECK"],
        ∀ k' ∈ ["NOT", "PRIMARY", "ON"],
          Text.asciiUpper k.toList ≠ Text.asciiUpper k'.toList := by decide
    exact keywords_of_not (atKeywords_cons_of_ne ht (hne k hk k' hk') ks ts)
  unfold columnStep
  rw [bind_of_eq hnone]
  change (peekUpper >>= _) d (t :: ts) = _
  rw [bind_of_eq (p := peekUpper) rfl, hword]
  simp only [List.mem_cons, List.not_mem_nil, or_false] at hk
  rcases hk with rfl | rfl | rfl | rfl | rfl
  all_goals
    change (keywords ["NOT", "NULL"] >>= _) d (t :: ts) = _
    rw [bind_of_eq (hnot (by decide) _), if_neg Bool.false_ne_true,
      bind_of_eq (hnot (by decide) _), if_neg Bool.false_ne_true,
      bind_of_eq (hnot (by decide) _), if_neg Bool.false_ne_true]
    exact bind_of_eq rfl

theorem columnStep_null (ht : t.isKeyword "NULL" = true) :
    columnStep Postgres.clauses r d (t :: ts) =
      .ok (some { r with column := { r.column with nullable := true } }, ts) := by
  rw [columnStep_of_isKeyword (by decide) ht rfl]
  rfl

theorem columnStep_notNull (ht : t.isKeyword "NOT" = true) (hu : u.isKeyword "NULL" = true) :
    columnStep Postgres.clauses r d (t :: u :: ts) =
      .ok (some { r with column := { r.column with nullable := false } }, ts) := by
  have hnot : atKeywords ["NOT", "NULL"] (t :: u :: ts) = true := by
    rw [atKeywords, atKeywords, ht, hu]
    rfl
  unfold columnStep
  rw [bind_of_eq (p := Postgres.clauses.columnClause r.column) (a := none) rfl]
  change (peekUpper >>= _) d _ = _
  rw [bind_of_eq (p := peekUpper) rfl, upperWord?_of_isKeyword ht]
  change (keywords ["NOT", "NULL"] >>= _) d _ = _
  rw [bind_of_eq (keywords_of_atKeywords hnot), if_pos rfl]
  rfl

def ColumnDraft.withDefault (r : ColumnDraft) (v : DefaultValue) : ColumnDraft :=
  { r with column :=
      { r.column with
        default := v.text?
        generation := if v = .identity then .identity else r.column.generation } }

theorem columnStep_default (ht : t.isKeyword "DEFAULT" = true)
    (hts : dropUntil columnClauseWords (ts ++ us) = us) :
    columnStep Postgres.clauses r d (t :: (ts ++ us)) =
      .ok (some (r.withDefault (.ofText d (Token.span ts))), us) := by
  have hsource : sourceUntil columnClauseWords d (ts ++ us) = .ok (some (Token.span ts), us) := by
    rw [sourceUntil_eq, hts, List.length_append, Nat.add_sub_cancel, List.take_left]
  rw [columnStep_of_isKeyword (by decide) ht rfl]
  change defaultClause r d (ts ++ us) = _
  unfold defaultClause
  rw [bind_of_eq (p := dialect) rfl, bind_of_eq hsource, ColumnDraft.withDefault]
  split <;> rfl

@[mk_iff]
structure IsWholeDefault (ts : List Token) : Prop where
  taken : dropUntil columnClauseWords ts = []
  typed : ∀ t ∈ ts.getLast?, t.isSymbol "::" = false

instance (ts : List Token) : Decidable (IsWholeDefault ts) :=
  decidable_of_iff' _ (isWholeDefault_iff ts)

inductive DefaultClause (d : Dialect) : DefaultValue → List Token → List Token → Prop
  | absent (us : List Token) : DefaultClause d .none us us
  | null {t u : Token} (ht : t.isKeyword "DEFAULT" = true) (hu : u.isKeyword "NULL" = true)
      (us : List Token) : DefaultClause d .none us (t :: u :: us)
  | whole {t : Token} {ts : List Token} (ht : t.isKeyword "DEFAULT" = true)
      (hparens : Token.openAfter 0 ts = some 0) (hts : IsWholeDefault ts) (us : List Token) :
      DefaultClause d (.ofText d (Token.span ts)) us (t :: (ts ++ us))

inductive NullabilityClause : Bool → List Token → Prop
  | nullable : NullabilityClause true []
  | notNull {t u : Token} (ht : t.isKeyword "NOT" = true) (hu : u.isKeyword "NULL" = true) :
      NullabilityClause false [t, u]

theorem NullabilityClause.startsClause {nullable : Bool} (h : NullabilityClause nullable us) :
    StartsClause us := by
  cases h with
  | nullable => exact fun t ht => absurd ht (by simp)
  | notNull ht hu =>
      intro t hhead
      cases hhead
      exact .inr ht

theorem DefaultClause.startsClause {v : DefaultValue} (h : DefaultClause d v us ts)
    (hus : StartsClause us) : StartsClause ts := by
  cases h with
  | absent => exact hus
  | null ht | whole ht =>
      intro t hhead
      cases hhead
      exact .inl ht

theorem ofText_nil (d : Dialect) : DefaultValue.ofText d [] = .none := by
  have htokens : Token.lex d [] = [] := by
    rw [Token.lex, Token.lexFrom]
  have htext : canonicalExpr d [] = "" := by
    simp [canonicalExpr, Token.canonicalExpr, htokens, Token.dropCasts, Token.unwrapOperands,
      Token.unwrapOperandsOnce, Token.unwrapAll, Token.unwrap?, Token.render]
  rw [DefaultValue.ofText, htext]
  rfl

theorem dropUntil_of_isKeyword {stops : List String} {k : String} (hk : k ∈ stops)
    (ht : t.isKeyword k = true) (ts : List Token) : dropUntil stops (t :: ts) = t :: ts := by
  have hsymbol := Token.isSymbol_of_isName (Token.isName_of_isWord (Token.isWord_of_isKeyword ht))
  rw [dropUntil, hsymbol, hsymbol, hsymbol, List.any_eq_true.2 ⟨k, hk, ht⟩]
  rfl

theorem dropUntil_of_startsClause (hus : StartsClause us) :
    dropUntil columnClauseWords us = us := by
  cases us with
  | nil => rw [dropUntil]
  | cons u us =>
      rcases hus u rfl with hu | hu
      · exact dropUntil_of_isKeyword (by decide) hu us
      · exact dropUntil_of_isKeyword (by decide) hu us

theorem untilEnd_nullability {nullable : Bool} (h : NullabilityClause nullable us)
    (hr : r.column.nullable = true) :
    untilEnd (columnStep Postgres.clauses) r d us =
      .ok (some { r with column := { r.column with nullable := nullable } }, []) := by
  cases h with
  | nullable =>
      rw [untilEnd_nil, ← hr]
  | notNull ht hu => rw [untilEnd_cons (columnStep_notNull ht hu) (by simp), untilEnd_nil]

theorem untilEnd_default {v : DefaultValue} (h : DefaultClause d v us ts) (hus : StartsClause us)
    (hr : r.column.nullable = true) (hplain : r.column.default = none) :
    untilEnd (columnStep Postgres.clauses) r d ts =
      untilEnd (columnStep Postgres.clauses) (r.withDefault v) d us := by
  have hstop := dropUntil_of_startsClause hus
  have hsame : { r.withDefault .none with column :=
      { (r.withDefault .none).column with nullable := true } } = r.withDefault .none ∧
      r.withDefault .none = r := by
    obtain ⟨⟨_, _, nullable, default, _, _, _⟩, _, _⟩ := r
    cases hr
    cases hplain
    exact ⟨rfl, rfl⟩
  cases h with
  | absent => rw [hsame.2]
  | @null t u ht hu =>
      have hnull : dropUntil columnClauseWords ([] ++ u :: us) = u :: us :=
        dropUntil_of_isKeyword (by decide) hu us
      have hstep := columnStep_default (d := d) (r := r) ht hnull
      rw [List.nil_append, Token.span, ofText_nil] at hstep
      rw [untilEnd_cons hstep (by simp), untilEnd_cons (columnStep_null hu) (by simp), hsame.1]
  | @whole t ts ht hparens hts =>
      have hlast (u : Token) (hu : [u] <:+ ts) : u.isSymbol "::" = false := by
        obtain ⟨before, rfl⟩ := hu
        exact hts.typed u (by simp)
      have htaken := dropUntil_append hus hparens hlast hts.taken
      rw [hstop] at htaken
      refine untilEnd_cons (columnStep_default ht htaken) ?_
      rw [List.length_cons, List.length_append]
      exact Nat.lt_succ_of_le (Nat.le_add_left us.length ts.length)

/-- A column, read from its name, its type and its clauses. -/
theorem column_eq {ordinal : Nat} {name : String} {p : ParsedType} {v : DefaultValue}
    {nullable : Bool} {mid : List Token} (ht : t.isName = true)
    (hname : Identifier.read d t.text = .ok name) (htyped : startsTypeless ts = false)
    (hparens : Token.openAfter 0 ts = some 0) (htype : typeName d ts = .ok (some p, []))
    (hserial : p.serial = false) (hdefault : DefaultClause d v us mid)
    (hnullable : NullabilityClause nullable us) :
    column Postgres.clauses ordinal d (t :: (ts ++ mid)) = .ok (some (settle d
      ⟨name, p.dataType, nullable, v.text?, if v = .identity then .identity else .plain, ordinal,
        []⟩, []), []) := by
  have hus := hnullable.startsClause
  have hmid := hdefault.startsClause hus
  have hidentifier : identifier d (t :: (ts ++ mid)) = .ok (some name, ts ++ mid) := by
    rw [identifier, if_pos ht, hname]
  have hcolumnType : columnType d (ts ++ mid) = .ok (some p, mid) := by
    have hstart : startsTypeless (ts ++ mid) = false := by
      cases ts with
      | nil => cases htyped
      | cons u ts => exact htyped
    unfold columnType
    rw [bind_of_eq (p := peek startsTypeless) rfl, hstart, if_neg Bool.false_ne_true]
    exact typeName_append hmid hparens htype
  unfold column
  rw [bind_of_eq hidentifier, bind_of_eq hcolumnType, hserial, if_neg Bool.false_ne_true]
  rw [bind_of_eq ((untilEnd_default hdefault hus rfl rfl).trans
    (untilEnd_nullability hnullable rfl))]
  exact bind_of_eq (p := dialect) rfl

def startsOther (ts : List Token) : Bool :=
  atKeyword "LIKE" ts || atKeywords ["PERIOD", "FOR", "SYSTEM_TIME"] ts || startsConstraint ts

theorem tableElement_column {table : Table} {c : Column} (hts : ts ≠ [])
    (hother : startsOther ts = false)
    (hcolumn : column Postgres.clauses (table.columns.length + 1) d ts = .ok (some (c, []), rest)) :
    tableElement Postgres.clauses table d ts =
      .ok (some { table with columns := table.columns ++ [c] }, rest) := by
  simp only [startsOther, Bool.or_eq_false_iff] at hother
  obtain ⟨⟨hlike, hperiod⟩, hconstraint⟩ := hother
  have hend : atEnd d ts = .ok (some false, ts) := by
    rw [atEnd, peek, List.isEmpty_eq_false_iff.2 hts]
  unfold tableElement
  rw [bind_of_eq hend, if_neg Bool.false_ne_true, bind_of_eq (p := peek (atKeyword "LIKE")) rfl,
    hlike, if_neg Bool.false_ne_true,
    bind_of_eq (p := Postgres.clauses.tableElement table) (a := none) rfl]
  change (keywords ["PERIOD", "FOR", "SYSTEM_TIME"] >>= _) d ts = _
  rw [bind_of_eq (keywords_of_not hperiod), if_neg Bool.false_ne_true,
    bind_of_eq (p := peek startsConstraint) rfl, hconstraint, if_neg Bool.false_ne_true,
    bind_of_eq hcolumn]
  change Except.ok (some { table with
    columns := table.columns ++ [c], constraints := table.constraints ++ [] }, rest) = _
  rw [List.append_nil]

def unnamedWords : List String := ["PRIMARY", "UNIQUE", "FOREIGN", "CHECK"]

theorem givenName_of_not (h : atKeyword "CONSTRAINT" ts = false) :
    givenName d ts = .ok (some none, ts) := by
  unfold givenName
  rw [bind_of_eq (p := keyword "CONSTRAINT") (keywords_of_not (atKeywords_of_not_atKeyword h [])),
    if_neg Bool.false_ne_true]
  rfl

/-- A constraint under a name. -/
theorem tableConstraint_named {c : Constraint} {name : String}
    (ht : t.isKeyword "CONSTRAINT" = true) (hu : u.isName = true)
    (hname : Identifier.read d u.text = .ok name)
    (hwords : ∀ k ∈ unnamedWords, u.isKeyword k = false)
    (hts : atKeyword "CONSTRAINT" ts = false) (h : tableConstraint d ts = .ok (some c, rest)) :
    tableConstraint d (t :: u :: ts) = .ok (some { c with name := some name }, rest) := by
  have hgiven : givenName d (t :: u :: ts) = .ok (some (some name), ts) := by
    have hkeyword : atKeywords ["CONSTRAINT"] (t :: u :: ts) = true := by
      rw [atKeywords, ht]
      rfl
    have hunnamed : unnamedWords.any (atKeyword · (u :: ts)) = false := by
      rw [List.any_eq_false]
      intro k hk
      rw [show atKeyword k (u :: ts) = u.isKeyword k from rfl, hwords k hk]
      exact Bool.false_ne_true
    have hidentifier : Reader.optional identifier d (u :: ts) = .ok (some (some name), ts) := by
      rw [Reader.optional, identifier, if_pos hu, hname]
    unfold givenName
    rw [bind_of_eq (p := keyword "CONSTRAINT") (keywords_of_atKeywords hkeyword), if_pos rfl]
    change (peek (fun ts => unnamedWords.any (atKeyword · ts)) >>= _) d (u :: ts) = _
    rw [bind_of_eq (p := peek _) rfl, hunnamed, if_neg Bool.false_ne_true]
    exact hidentifier
  unfold tableConstraint at h ⊢
  rw [bind_of_eq hgiven]
  rw [bind_of_eq (givenName_of_not hts)] at h
  obtain ⟨⟨index, rule, columns⟩, mid, hrule, h⟩ := bind_eq_some.1 h
  obtain ⟨_, mid', hskip, h⟩ := bind_eq_some.1 h
  obtain ⟨modifiers, mid'', hmodifiers, h⟩ := bind_eq_some.1 h
  obtain ⟨rfl, rfl⟩ := pure_eq_some.1 h
  rw [bind_of_eq hrule]
  change (skipIndexMethod >>= _) d mid = _
  rw [bind_of_eq hskip, bind_of_eq hmodifiers]
  rfl

theorem tableElement_constraint {table : Table} {c : Constraint}
    (ht : t.isKeyword "CONSTRAINT" = true)
    (h : tableConstraint d (t :: ts) = .ok (some c, rest)) :
    tableElement Postgres.clauses table d (t :: ts) =
      .ok (some { table with constraints := table.constraints ++ [c] }, rest) := by
  have hnot (k : String) (hk : Text.asciiUpper k.toList ≠ "CONSTRAINT".toList) (ks : List String) :
      atKeywords (k :: ks) (t :: ts) = false :=
    atKeywords_cons_of_ne ht (fun h => hk h.symm) ks ts
  have hkeyword {k : String} (hk : Text.asciiUpper k.toList ≠ "CONSTRAINT".toList) :
      atKeyword k (t :: ts) = false :=
    atKeyword_cons_of_ne ht (fun h => hk h.symm) ts
  have hstarts : startsConstraint (t :: ts) = true := by
    rw [startsConstraint, show atKeyword "CONSTRAINT" (t :: ts) = t.isKeyword "CONSTRAINT" from rfl,
      ht]
    rfl
  unfold tableElement
  rw [bind_of_eq (p := atEnd) (a := false) rfl, if_neg Bool.false_ne_true,
    bind_of_eq (p := peek (atKeyword "LIKE")) rfl, hkeyword (by decide), if_neg Bool.false_ne_true,
    bind_of_eq (p := Postgres.clauses.tableElement table) (a := none) rfl]
  change (keywords ["PERIOD", "FOR", "SYSTEM_TIME"] >>= _) d (t :: ts) = _
  rw [bind_of_eq (keywords_of_not (hnot _ (by decide) _)), if_neg Bool.false_ne_true,
    bind_of_eq (p := peek startsConstraint) rfl, hstarts, if_pos rfl,
    bind_of_eq (p := peek (atKeyword "EXCLUDE")) rfl, hkeyword (by decide),
    if_neg Bool.false_ne_true, bind_of_eq h]
  rfl

theorem tableElements_append {clauses : Clauses} {table mid : Table}
    {parts parts' : List (List Token)}
    (h : tableElements clauses table parts d us = .ok (some mid, us)) :
    tableElements clauses table (parts ++ parts') d us = tableElements clauses mid parts' d us := by
  induction parts generalizing table with
  | nil =>
      obtain ⟨rfl, -⟩ := pure_eq_some.1 h
      rfl
  | cons part parts ih =>
      rw [tableElements] at h
      obtain ⟨next, rest, hpart, h⟩ := bind_eq_some.1 h
      obtain ⟨-, rfl⟩ := within_eq_some.1 hpart
      rw [List.cons_append, tableElements, bind_of_eq hpart, ih h]

theorem tableElements_cons {clauses : Clauses} {table next : Table} {part rest : List Token}
    (h : tableElement clauses table d part = .ok (some next, rest)) (parts : List (List Token)) :
    tableElements clauses table (part :: parts) d us = tableElements clauses next parts d us := by
  have hwithin : within part (tableElement clauses table) d us = .ok (some next, us) := by
    rw [within, h]
  rw [tableElements, bind_of_eq hwithin]

end Grammar

end SchemaDrift
