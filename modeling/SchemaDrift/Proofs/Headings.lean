import SchemaDrift.Proofs.Elements
import SchemaDrift.Proofs.TableBodies

namespace SchemaDrift

open Reader

namespace Reader

variable {d : Dialect} {α : Type} {f : Bool → Reader α} {ks : List String} {t : Token}
  {ts us : List Token}

theorem keywords_bind (ks : List String) (f : Bool → Reader α) (d : Dialect) (ts : List Token) :
    (keywords ks >>= f) d ts =
      if atKeywords ks ts then f true d (ts.drop ks.length) else f false d ts := by
  split
  · next h => exact bind_of_eq (keywords_of_atKeywords h)
  · next h => exact bind_of_eq (keywords_of_not (Bool.eq_false_iff.2 h))

theorem bind_of_error {β : Type} {p : Reader α} {f : α → Reader β} {e : Fault}
    (h : p d ts = .error e) : (p >>= f) d ts = .error e := by
  change Reader.bind p f d ts = _
  rw [Reader.bind, h]

theorem atKeywords_append (h : atKeywords ks ts = true) (us : List Token) :
    atKeywords ks (ts ++ us) = true := by
  induction ks generalizing ts with
  | nil => simp [atKeywords]
  | cons k ks ih =>
      cases ts with
      | nil => cases h
      | cons t ts =>
          rw [atKeywords, Bool.and_eq_true] at h
          rw [List.cons_append, atKeywords, h.1, ih h.2, Bool.and_self]

def Optionally (ks : List String) (ts : List Token) : Prop :=
  ts = [] ∨ atKeywords ks ts = true ∧ ts.length = ks.length

instance (ks : List String) (ts : List Token) : Decidable (Optionally ks ts) :=
  inferInstanceAs (Decidable (_ ∨ _))

theorem keywords_of_optionally (h : Optionally ks ts) (us : List Token)
    (hus : ts = [] → atKeywords ks us = false) :
    ∃ found, keywords ks d (ts ++ us) = .ok (some found, us) := by
  rcases h with rfl | ⟨hts, hlength⟩
  · exact ⟨false, keywords_of_not (hus rfl)⟩
  · refine ⟨true, ?_⟩
    rw [keywords_of_atKeywords (atKeywords_append hts us), ← hlength, List.drop_left]

structure IsNamed (d : Dialect) (ts : List Token) (name : QualifiedName) : Prop where
  read : qualifiedName d ts = .ok (some name, [])
  last : ∀ t ∈ ts.getLast?, t.isSymbol "." = false

theorem symbol_of_not (h : atSymbol "." ts = false) : symbol "." d ts = .ok (some false, ts) :=
  if_neg (Bool.eq_false_iff.1 h)

theorem moreParts_of_not {parts : List String} (h : atSymbol "." ts = false) :
    moreParts parts d ts = .ok (some parts, ts) := by
  rw [moreParts, iterate, bind_of_eq (symbol_of_not h)]
  rfl

theorem symbol_of_isSymbol (ht : t.isSymbol "." = true) (ts : List Token) :
    symbol "." d (t :: ts) = .ok (some true, ts) :=
  if_pos ht

/-- A part after a dot. -/
theorem moreParts_part {parts : List String} {part : String} {rest : List Token}
    (ht : t.isSymbol "." = true) (hpart : identifier d ts = .ok (some part, rest))
    (hrest : rest.length ≤ ts.length) :
    moreParts parts d (t :: ts) = moreParts (parts ++ [part]) d rest := by
  have hoptional : Reader.optional identifier d ts = .ok (some (some part), rest) := by
    rw [Reader.optional, hpart]
  rw [moreParts, iterate, bind_of_eq (symbol_of_isSymbol ht ts), if_pos rfl, bind_of_eq hoptional]
  exact if_pos (Nat.lt_succ_of_le hrest)

/-- A dot that no part follows. -/
theorem moreParts_stop {parts : List String} {rest : List Token} (ht : t.isSymbol "." = true)
    (hnone : identifier d ts = .ok (none, rest)) :
    moreParts parts d (t :: ts) = .ok (some parts, rest) := by
  have hoptional : Reader.optional identifier d ts = .ok (some none, rest) := by
    rw [Reader.optional, hnone]
  rw [moreParts, iterate, bind_of_eq (symbol_of_isSymbol ht ts), if_pos rfl, bind_of_eq hoptional]
  rfl

theorem moreParts_fault {parts : List String} {e : Fault} (ht : t.isSymbol "." = true)
    (hfault : identifier d ts = .error e) : moreParts parts d (t :: ts) = .error e := by
  have hoptional : Reader.optional identifier d ts = .error e := by
    rw [Reader.optional, hfault]
  rw [moreParts, iterate, bind_of_eq (symbol_of_isSymbol ht ts), if_pos rfl,
    bind_of_error hoptional]

theorem identifier_append {part : String} {rest : List Token}
    (h : identifier d ts = .ok (some part, rest)) (us : List Token) :
    identifier d (ts ++ us) = .ok (some part, rest ++ us) ∧ ∃ t, ts = t :: rest := by
  cases ts with
  | nil => cases h
  | cons t ts =>
      rw [identifier] at h
      rw [List.cons_append, identifier]
      split at h
      · next hname =>
          rw [if_pos hname]
          split at h
          · cases h
          · cases h
            exact ⟨rfl, t, rfl⟩
      · cases h

theorem eq_of_identifier_eq_none {rest : List Token} (h : identifier d ts = .ok (none, rest)) :
    rest = ts := by
  cases ts with
  | nil =>
      cases h
      rfl
  | cons t ts =>
      rw [identifier] at h
      split at h
      · split at h <;> cases h
      · cases h
        rfl

theorem moreParts_append {parts all : List String} (h : moreParts parts d ts = .ok (some all, []))
    (hlast : ∀ t ∈ ts.getLast?, t.isSymbol "." = false) (hus : atSymbol "." us = false) :
    moreParts parts d (ts ++ us) = .ok (some all, us) := by
  induction hn : ts.length using Nat.strong_induction_on generalizing ts parts with
  | _ n ih =>
      subst hn
      cases ts with
      | nil =>
          rw [moreParts_of_not rfl] at h
          cases h
          exact moreParts_of_not hus
      | cons t ts =>
          by_cases ht : t.isSymbol "." = true
          · cases hid : identifier d ts with
            | error e =>
                rw [moreParts_fault ht hid] at h
                cases h
            | ok found =>
                obtain ⟨part, rest⟩ := found
                cases part with
                | none =>
                    rw [moreParts_stop ht hid] at h
                    cases h
                    obtain rfl := eq_of_identifier_eq_none hid
                    exact absurd ((hlast t rfl).symm.trans ht) Bool.false_ne_true
                | some part =>
                    obtain ⟨happend, u, rfl⟩ := identifier_append hid us
                    rw [moreParts_part ht hid (by simp)] at h
                    rw [List.cons_append, moreParts_part ht happend (by simp)]
                    refine ih rest.length (by simp only [List.length_cons]; omega) h
                      (fun v hv => hlast v ?_) rfl
                    exact List.mem_getLast?_cons (List.mem_getLast?_cons hv)
          · have hstop : atSymbol "." (t :: ts) = false := Bool.eq_false_iff.2 ht
            rw [moreParts_of_not hstop] at h
            cases h

theorem ofOption_eq_some {o : Option α} {a : α} {rest : List Token}
    (h : ofOption o d ts = .ok (some a, rest)) : o = some a ∧ rest = ts := by
  cases o with
  | none => cases h
  | some b =>
      cases h
      exact ⟨rfl, rfl⟩

theorem IsNamed.append {name : QualifiedName} (h : IsNamed d ts name)
    (hus : atSymbol "." us = false) : qualifiedName d (ts ++ us) = .ok (some name, us) := by
  obtain ⟨first, rest, hfirst, hread⟩ := bind_eq_some.1 h.read
  obtain ⟨parts, rest', hparts, hread⟩ := bind_eq_some.1 hread
  obtain ⟨d', rest'', hdialect, hread⟩ := bind_eq_some.1 hread
  cases hdialect
  obtain ⟨hqualify, rfl⟩ := ofOption_eq_some hread
  obtain ⟨happend, t, rfl⟩ := identifier_append hfirst us
  have hlast : ∀ u ∈ rest.getLast?, u.isSymbol "." = false :=
    fun u hu => h.last u (List.mem_getLast?_cons hu)
  unfold qualifiedName
  rw [bind_of_eq happend, bind_of_eq (moreParts_append hparts hlast hus),
    bind_of_eq (p := dialect) rfl, hqualify]
  rfl

theorem isNamed_of_isName {name : String} (ht : t.isName = true)
    (hname : Identifier.read d t.text = .ok name) : IsNamed d [t] (.unqualified name) where
  read := by
    have hidentifier : identifier d [t] = .ok (some name, []) := by
      rw [identifier, if_pos ht, hname]
    unfold qualifiedName
    rw [bind_of_eq hidentifier, bind_of_eq (moreParts_of_not rfl), bind_of_eq (p := dialect) rfl]
    rfl
  last := by
    intro u hu
    cases hu
    exact Token.isSymbol_of_isName ht "."

/-- What follows the first part of a name is a dot, if it is of the name. -/
theorem IsNamed.exists_cons {name : QualifiedName} (h : IsNamed d ts name) :
    ∃ t rest, ts = t :: rest ∧ (rest = [] ∨ atSymbol "." rest = true) := by
  obtain ⟨first, rest, hfirst, hread⟩ := bind_eq_some.1 h.read
  obtain ⟨parts, rest', hparts, hread⟩ := bind_eq_some.1 hread
  obtain ⟨d', rest'', hdialect, hread⟩ := bind_eq_some.1 hread
  cases hdialect
  obtain ⟨-, rfl⟩ := ofOption_eq_some hread
  obtain ⟨-, t, rfl⟩ := identifier_append hfirst []
  refine ⟨t, rest, rfl, ?_⟩
  by_cases hdot : atSymbol "." rest = true
  · exact .inr hdot
  · rw [moreParts_of_not (Bool.eq_false_iff.2 hdot)] at hparts
    cases hparts
    exact .inl rfl

/-- A name and what follows it begin with no two keywords. -/
theorem IsNamed.atKeywords_append {name : QualifiedName} (h : IsNamed d ts name)
    {k k' : String} (hus : atKeyword k' us = false) (ks : List String) :
    atKeywords (k :: k' :: ks) (ts ++ us) = false := by
  obtain ⟨t, rest, rfl, hrest⟩ := h.exists_cons
  have hnot : atKeywords (k' :: ks) (rest ++ us) = false := by
    rcases hrest with rfl | hdot
    · exact atKeywords_of_not_atKeyword hus ks
    · cases rest with
      | nil => cases hdot
      | cons u rest =>
          have hu : u.isSymbol "." = true := hdot
          rw [List.cons_append, atKeywords, Token.isKeyword_of_isSymbol hu, Bool.false_and]
  rw [List.cons_append, atKeywords, hnot, Bool.and_false]

end Reader

namespace Grammar

inductive IsCreateHeading (d : Dialect) (name : QualifiedName) : List Token → Prop
  | mk {create table : Token} {replace words guard ts : List Token}
      (hcreate : create.isKeyword "CREATE" = true)
      (hreplace : Optionally ["OR", "REPLACE"] replace)
      (hwords : ∀ t ∈ words, ∃ k ∈ idleWords, t.isKeyword k = true)
      (htable : table.isKeyword "TABLE" = true)
      (hguard : Optionally ["IF", "NOT", "EXISTS"] guard) (hname : IsNamed d ts name) :
      IsCreateHeading d name (create :: (replace ++ (words ++ table :: (guard ++ ts))))

inductive IsAlterHeading (d : Dialect) (name : QualifiedName) : List Token → Prop
  | mk {alter table add : Token} {guard only ts : List Token}
      (halter : alter.isKeyword "ALTER" = true) (htable : table.isKeyword "TABLE" = true)
      (hguard : Optionally ["IF", "EXISTS"] guard) (honly : Optionally ["ONLY"] only)
      (hname : IsNamed d ts name) (hbare : only = [] → atKeyword "ONLY" ts = false)
      (hadd : add.isKeyword "ADD" = true) :
      IsAlterHeading d name (alter :: table :: (guard ++ (only ++ (ts ++ [add]))))

variable {d : Dialect} {name : QualifiedName} {t : Token} {ts us rest : List Token}

structure Clauses.PassWords (clauses : Clauses) : Prop where
  createOption {k : String} {t : Token} (hk : k ∈ "TABLE" :: idleWords)
    (ht : t.isKeyword k = true) (d : Dialect) (ts : List Token) :
    clauses.createOption d (t :: ts) = .ok (some false, t :: ts)
  createForm {k : String} {t : Token} (hk : k ∈ "TABLE" :: idleWords)
    (ht : t.isKeyword k = true) (d : Dialect) {ts : List Token}
    (hts : k = "TABLE" ∨ atKeyword "VIRTUAL" ts = false) :
    attempt clauses.createForm d (t :: ts) = .ok (some none, t :: ts)

section

variable {k : String} (hk : k ∈ "TABLE" :: idleWords) (ht : t.isKeyword k = true)

include hk ht

theorem not_isKeyword_of_mem {k' : String}
    (hk' : ∀ k ∈ "TABLE" :: idleWords, Text.asciiUpper k.toList ≠ Text.asciiUpper k'.toList) :
    t.isKeyword k' = false :=
  Token.not_isKeyword_of_ne ht (hk' k hk)

theorem not_atKeywords_of_mem {k' : String}
    (hk' : ∀ k ∈ "TABLE" :: idleWords, Text.asciiUpper k.toList ≠ Text.asciiUpper k'.toList)
    (ks : List String) (ts : List Token) : atKeywords (k' :: ks) (t :: ts) = false :=
  atKeywords_cons_of_ne ht (hk' k hk) ks ts

end

theorem Postgres.passWords : Postgres.clauses.PassWords where
  createOption := fun _ _ _ _ => rfl
  createForm := fun _ _ _ _ _ => rfl

theorem MySql.passWords : MySql.clauses.PassWords where
  createOption := by
    intro k t hk ht d ts
    change (keywords ["DEFINER"] >>= _) d (t :: ts) = _
    rw [keywords_bind, not_atKeywords_of_mem hk ht (by decide), if_neg Bool.false_ne_true]
    change (keywords ["ALGORITHM"] >>= _) d (t :: ts) = _
    rw [keywords_bind, not_atKeywords_of_mem hk ht (by decide), if_neg Bool.false_ne_true]
    change (keywords ["SQL", "SECURITY"] >>= _) d (t :: ts) = _
    rw [keywords_bind, not_atKeywords_of_mem hk ht (by decide), if_neg Bool.false_ne_true]
    rfl
  createForm := fun _ _ _ _ _ => rfl

theorem attempt_of_eq_none {α : Type} {p : Reader α}
    (h : p d ts = .ok (none, rest)) : attempt p d ts = .ok (some none, ts) := by
  rw [attempt, h]

theorem Sqlite.passWords : Sqlite.clauses.PassWords where
  createOption := fun _ _ _ _ => rfl
  createForm := by
    intro k t hk ht d ts hts
    have hrest {found : Option String} {us : List Token}
        (hone : oneOf ["TEMP", "TEMPORARY"] d (t :: ts) = .ok (some found, us))
        (hus : atKeyword "VIRTUAL" us = false) :
        createForm d (t :: ts) = .ok (none, us) := by
      unfold createForm
      rw [bind_of_eq hone, keywords_bind, atKeywords_of_not_atKeyword hus,
        if_neg Bool.false_ne_true]
      rfl
    cases hfind : ["TEMP", "TEMPORARY"].find? t.isKeyword with
    | none =>
        have hone : oneOf ["TEMP", "TEMPORARY"] d (t :: ts) = .ok (some none, t :: ts) := by
          rw [oneOf, hfind]
        exact attempt_of_eq_none (hrest hone (not_isKeyword_of_mem hk ht (by decide)))
    | some word =>
        have hone : oneOf ["TEMP", "TEMPORARY"] d (t :: ts) = .ok (some (some word), ts) :=
          oneOf_of_find? hfind ts
        rcases hts with rfl | hts
        · have htemp : t.isKeyword word = true := List.find?_some hfind
          have hne : ∀ word ∈ ["TEMP", "TEMPORARY"],
              Text.asciiUpper "TABLE".toList ≠ Text.asciiUpper word.toList := by decide
          have hnot := atKeywords_cons_of_ne ht (hne word (List.mem_of_find?_eq_some hfind)) [] []
          rw [atKeywords, htemp] at hnot
          exact absurd hnot Bool.true_eq_false.mp
        · exact attempt_of_eq_none (hrest hone hts)

theorem Db2.passWords : Db2.clauses.PassWords where
  createOption := fun _ _ _ _ => rfl
  createForm := by
    intro k t hk ht d ts hts
    have hne : ∀ word ∈ ["AUX", "AUXILIARY", "LOB"], ∀ k ∈ "TABLE" :: idleWords,
        Text.asciiUpper k.toList ≠ Text.asciiUpper word.toList := by decide
    have hone : oneOf ["AUX", "AUXILIARY", "LOB"] d (t :: ts) = .ok (some none, t :: ts) :=
      oneOf_of_not fun word hword => not_isKeyword_of_mem hk ht (hne word hword)
    refine attempt_of_eq_none (?_ : createForm d (t :: ts) = .ok (none, t :: ts))
    unfold createForm
    rw [bind_of_eq hone]
    rfl

theorem Clauses.passWords_ofDialect (d : Dialect) : (Clauses.ofDialect d).PassWords := by
  cases d with
  | postgres => exact Postgres.passWords
  | mySql => exact MySql.passWords
  | sqlite => exact Sqlite.passWords
  | db2 => exact Db2.passWords

section

variable {words : List Token} {table : Token}
  (hwords : ∀ t ∈ words, ∃ k ∈ idleWords, t.isKeyword k = true)
  (htable : table.isKeyword "TABLE" = true)

include hwords htable

theorem exists_word (ts : List Token) : ∃ t rest k, words ++ table :: ts = t :: rest ∧
    k ∈ "TABLE" :: idleWords ∧ t.isKeyword k = true ∧
      (k = "TABLE" ∨ atKeyword "VIRTUAL" rest = false) := by
  cases words with
  | nil => exact ⟨table, ts, "TABLE", rfl, List.mem_cons_self, htable, .inl rfl⟩
  | cons t words =>
      obtain ⟨k, hk, ht⟩ := hwords t List.mem_cons_self
      refine ⟨t, _, k, rfl, List.mem_cons_of_mem _ hk, ht, .inr ?_⟩
      cases words with
      | nil => exact not_isKeyword_of_mem List.mem_cons_self htable (by decide)
      | cons u words =>
          obtain ⟨k', hk', hu⟩ := hwords u (List.mem_cons_of_mem t List.mem_cons_self)
          exact not_isKeyword_of_mem (List.mem_cons_of_mem _ hk') hu (by decide)

theorem iterate_createStep (o : CreateOptions) (ts : List Token) :
    iterate createStep o d (words ++ table :: ts) = .ok (some o, table :: ts) := by
  induction words with
  | nil =>
      have hstep : createStep o d (table :: ts) = .ok (some none, table :: ts) := by
        unfold createStep
        rw [bind_of_eq (p := peekUpper) rfl, upperWord?_of_isKeyword htable]
        rfl
      rw [List.nil_append, iterate, hstep]
  | cons t words ih =>
      obtain ⟨k, hk, ht⟩ := hwords t List.mem_cons_self
      have hstep : createStep o d (t :: (words ++ table :: ts)) =
          .ok (some (some o), words ++ table :: ts) := by
        unfold createStep
        rw [bind_of_eq (p := peekUpper) rfl, upperWord?_of_isKeyword ht]
        simp only [idleWords, List.mem_cons, List.not_mem_nil, or_false] at hk
        rcases hk with rfl | rfl | rfl | rfl | rfl | rfl | rfl | rfl <;> rfl
      rw [List.cons_append, iterate, hstep]
      dsimp only
      rw [if_pos (by simp)]
      exact ih fun u hu => hwords u (List.mem_cons_of_mem t hu)

/-- The words between `CREATE` and `TABLE` are passed over. -/
theorem create_of_words {clauses : Clauses} (hclauses : clauses.PassWords)
    {replace : List Token} (hreplace : Optionally ["OR", "REPLACE"] replace) (ts : List Token) :
    create clauses d (replace ++ (words ++ table :: ts)) =
      (do return .table (← Grammar.table clauses) : Reader Object) d ts := by
  obtain ⟨t, rest, k, hcons, hk, ht, hrest⟩ := exists_word hwords htable ts
  obtain ⟨found, hor⟩ := keywords_of_optionally (d := d) hreplace (words ++ table :: ts)
    fun _ => hcons ▸ not_atKeywords_of_mem hk ht (by decide) _ _
  have hoptions : dialectOptions clauses () d (words ++ table :: ts) =
      .ok (some (), words ++ table :: ts) := by
    rw [hcons, dialectOptions, iterate, bind_of_eq (hclauses.createOption hk ht d rest)]
    rfl
  have hform : attempt clauses.createForm d (words ++ table :: ts) =
      .ok (some none, words ++ table :: ts) := by
    rw [hcons]
    exact hclauses.createForm hk ht d hrest
  have hone : oneOf ["TABLE", "INDEX", "VIEW", "TRIGGER", "PROCEDURE", "FUNCTION", "ALIAS",
      "SYNONYM"] d (table :: ts) = .ok (some (some "TABLE"), ts) :=
    oneOf_of_find? (List.find?_cons_of_pos htable) ts
  unfold create
  rw [bind_of_eq hor, bind_of_eq hoptions, bind_of_eq hform]
  change (iterate createStep ⟨false, .default, false⟩ >>= _) d _ = _
  rw [bind_of_eq (iterate_createStep hwords htable _ ts), bind_of_eq hone]
  rfl

end

def declared (clauses : Clauses) (name : QualifiedName) (elements : List (List Token)) :
    Reader Table := do
  let t ← tableElements clauses (.new name) elements
  untilEnd (tableStep clauses) t.enforcePrimaryKey

section

variable {opening closing : Token} {body : List Token} (hname : IsNamed d ts name)
  (hopening : opening.isSymbol "(" = true) (hclosing : closing.isSymbol ")" = true)
  (hbody : Token.openAfter 0 body = some 0)

include hname hopening hclosing hbody

theorem table_of_named (clauses : Clauses) {guard : List Token}
    (hguard : Optionally ["IF", "NOT", "EXISTS"] guard) (rest : List Token) :
    Grammar.table clauses d (guard ++ (ts ++ opening :: (body ++ closing :: rest))) =
      declared clauses name (Token.splitCommas body) d rest := by
  have hword (k : String) : atKeyword k (opening :: (body ++ closing :: rest)) = false :=
    Token.isKeyword_of_isSymbol hopening k
  have hdot : atSymbol "." (opening :: (body ++ closing :: rest)) = false := by
    have htext := beq_iff_eq.1 (Bool.and_eq_true_iff.1 hopening).2
    change opening.isSymbol "." = false
    rw [Token.isSymbol, htext, Bool.and_eq_false_iff]
    exact .inr rfl
  obtain ⟨found, hif⟩ := keywords_of_optionally (d := d) hguard _ fun _ =>
    hname.atKeywords_append (k := "IF") (hword "NOT") ["EXISTS"]
  have hgroup : group d (opening :: (body ++ closing :: rest)) = .ok (some body, rest) := by
    rw [group, if_pos hopening, Token.groupFrom_append hbody, Token.groupFrom, if_pos hclosing,
      if_pos (by decide), List.append_nil]
  unfold Grammar.table
  rw [bind_of_eq hif, bind_of_eq (hname.append hdot), bind_of_eq hgroup]
  rfl

end

theorem addition_constraint {c : Constraint} (ht : t.isKeyword "ADD" = true)
    (hstarts : startsConstraint ts = true) (hc : tableConstraint d ts = .ok (some c, rest))
    (clauses : Clauses) : addition clauses d (t :: ts) = .ok (some [.addConstraint c], rest) := by
  have hadd : atKeywords ["ADD"] (t :: ts) = true := by
    rw [atKeywords, ht]
    rfl
  unfold addition
  change (keywords ["ADD"] >>= _) d (t :: ts) = _
  rw [keywords_bind, if_pos hadd]
  change (peek startsConstraint >>= _) d ts = _
  rw [bind_of_eq (p := peek _) rfl, if_pos hstarts, bind_of_eq hc]
  rfl

/-- One addition to the table of a name. -/
theorem alter_of_addition {clauses : Clauses} {table add : Token} {guard only named : List Token}
    {change : TableChange} {changes : List TableChange} (htable : table.isKeyword "TABLE" = true)
    (hguard : Optionally ["IF", "EXISTS"] guard) (honly : Optionally ["ONLY"] only)
    (hname : IsNamed d named name) (hbare : only = [] → atKeyword "ONLY" named = false)
    (hadd : add.isKeyword "ADD" = true) (hitem : Token.IsItem ts)
    (hread : addition clauses d (add :: ts) = .ok (some (change :: changes), rest)) :
    alter clauses d (table :: (guard ++ (only ++ (named ++ add :: ts)))) =
      .ok (some (name, change :: changes), add :: ts) := by
  have htable' : atKeywords ["TABLE"] (table :: (guard ++ (only ++ (named ++ add :: ts)))) =
      true := by
    rw [atKeywords, htable]
    rfl
  obtain ⟨first, hif⟩ := keywords_of_optionally (d := d) hguard
    (only ++ (named ++ add :: ts)) fun _ => by
      have hexists : atKeyword "EXISTS" (add :: ts) = false :=
        atKeyword_cons_of_ne hadd (by decide) ts
      have hnamed := hname.atKeywords_append (k := "IF") hexists []
      rcases honly with rfl | ⟨honly, hlength⟩
      · exact hnamed
      · obtain ⟨t, rfl⟩ := List.length_eq_one_iff.1 hlength
        rw [atKeywords, Bool.and_eq_true] at honly
        exact atKeywords_cons_of_ne honly.1 (by decide) _ _
  obtain ⟨second, honly⟩ := keywords_of_optionally (d := d) honly (named ++ add :: ts)
    fun hnone => by
      obtain ⟨t, others, rfl, -⟩ := hname.exists_cons
      have ht : t.isKeyword "ONLY" = false := hbare hnone
      rw [List.cons_append, atKeywords, ht, Bool.false_and]
  have hdot : atSymbol "." (add :: ts) = false :=
    Token.isSymbol_of_isName (Token.isName_of_isWord (Token.isWord_of_isKeyword hadd)) "."
  have hsplit : Token.splitCommas (id (add :: ts)) = [add :: ts] := by
    have hword := Token.isItem_of_isWord (Token.isWord_of_isKeyword hadd)
    exact Token.splitCommas_of_isItem (hword.append hitem) (List.cons_ne_nil _ _)
  have heach : eachOf (addition clauses) [add :: ts] d (add :: ts) =
      .ok (some [change :: changes], add :: ts) := by
    have hwithin : within (add :: ts) (addition clauses) d (add :: ts) =
        .ok (some (change :: changes), add :: ts) := by
      rw [within, hread]
    rw [eachOf, bind_of_eq hwithin]
    rfl
  unfold alter
  change (keywords ["TABLE"] >>= _) d _ = _
  rw [keywords_bind, if_pos htable']
  change (keywords ["IF", "EXISTS"] >>= _) d (guard ++ (only ++ (named ++ add :: ts))) = _
  rw [bind_of_eq hif]
  change (keywords ["ONLY"] >>= _) d (only ++ (named ++ add :: ts)) = _
  rw [bind_of_eq honly, bind_of_eq (hname.append hdot), bind_of_eq (p := peek id) rfl]
  simp only [hsplit]
  rw [bind_of_eq heach]
  exact congrArg (fun changes => Except.ok (some (name, changes), add :: ts)) (List.append_nil _)

end Grammar

namespace Definition

open Grammar

variable {d : Dialect} {name : QualifiedName} {s : List Char} {opening closing : Token}
  {heading body ts rest : List Token}

/-- What a statement that creates a table comes to. -/
theorem ofChars?_create (h : IsCreateHeading d name heading)
    (hopening : opening.isSymbol "(" = true) (hclosing : closing.isSymbol ")" = true)
    (hbody : Token.openAfter 0 body = some 0)
    (hs : Token.lex d s = heading ++ opening :: (body ++ closing :: rest)) :
    ofChars? d s = do
      match ← (declared (Clauses.ofDialect d) name (Token.splitCommas body) d rest).map
          Prod.fst with
      | some t => return some (.object (.table t))
      | none => return some (.object (.raw (← rawStatement d s))) := by
  obtain ⟨hcreate, hreplace, hwords, htable, hguard, hname⟩ := h
  have hword : upperWord? (Token.lex d s) = some "CREATE" := by
    rw [hs, List.cons_append, upperWord?_of_isKeyword hcreate]
    rfl
  have hrun : run? (do skip; create (Clauses.ofDialect d)) d s =
      ((declared (Clauses.ofDialect d) name (Token.splitCommas body) d rest).map Prod.fst).map
        (Option.map Object.table) := by
    rw [run?, hs, bind_of_eq (p := skip) rfl, List.cons_append, List.tail_cons,
      List.append_assoc, List.append_assoc, List.cons_append, List.append_assoc,
      create_of_words hwords htable (Clauses.passWords_ofDialect d) hreplace,
      ← table_of_named hname hopening hclosing hbody (Clauses.ofDialect d) hguard rest]
    change ((Reader.bind (Grammar.table _) _) d _).map Prod.fst = _
    unfold Reader.bind
    split
    · next h => rw [h]; rfl
    · next h => rw [h]; rfl
    · next h => rw [h]; rfl
  unfold ofChars?
  rw [hword]
  change (run? (do skip; create (Clauses.ofDialect d)) d s >>= _) = _
  rw [hrun]
  cases (declared (Clauses.ofDialect d) name (Token.splitCommas body) d rest).map Prod.fst with
  | error e => rfl
  | ok found => cases found <;> rfl

/-- What a statement that adds a constraint comes to. -/
theorem ofChars?_add {c : Constraint} (h : IsAlterHeading d name heading)
    (hs : Token.lex d s = heading ++ ts) (hitem : Token.IsItem ts)
    (hstarts : startsConstraint ts = true) (hc : tableConstraint d ts = .ok (some c, rest)) :
    ∃ raw, ofChars? d s = .ok (some (.change name [.addConstraint c] raw)) := by
  obtain ⟨halter, htable, hguard, honly, hname, hbare, hadd⟩ := h
  have hword : upperWord? (Token.lex d s) = some "ALTER" := by
    rw [hs, List.cons_append, upperWord?_of_isKeyword halter]
    rfl
  obtain ⟨raw, hraw⟩ : ∃ raw, rawStatement d s = .ok raw := by
    unfold rawStatement
    rw [hword]
    exact ⟨_, rfl⟩
  have hrun : run? (do skip; alter (Clauses.ofDialect d)) d s =
      .ok (some (name, [.addConstraint c])) := by
    rw [run?, hs, bind_of_eq (p := skip) rfl, List.cons_append, List.tail_cons, List.cons_append,
      List.append_assoc, List.append_assoc, List.append_assoc, List.singleton_append,
      alter_of_addition htable hguard honly hname hbare hadd hitem
        (addition_constraint hadd hstarts hc (Clauses.ofDialect d))]
    rfl
  refine ⟨raw, ?_⟩
  unfold ofChars?
  rw [hword]
  change (rawStatement d s >>= _) = _
  rw [hraw]
  change (run? (do skip; alter (Clauses.ofDialect d)) d s >>= _) = _
  rw [hrun]
  rfl

end Definition

end SchemaDrift
