import SchemaDrift.Proofs.ConstraintStatements
import SchemaDrift.Proofs.MovedConstraints
import SchemaDrift.Proofs.Pairing
import SchemaDrift.Proofs.SelfCompare

namespace SchemaDrift

open Reader Grammar

theorem Details.table_reordered (detectRenames : Bool) {t : Table} (ht : t.Unambiguous)
    {as bs : List Constraint} (hpaired : Constraint.Paired as bs)
    (hclear : Constraint.Clear as bs) :
    table detectRenames (t.withBody t.columns as) (t.withBody t.columns bs) = [] := by
  have hself := (table_self_eq_nil_iff detectRenames t).2 ht
  have hconstraints : constraints as bs = [] := by
    rw [constraints, unpaired_of_paired hpaired hclear]
    rfl
  unfold table at hself ⊢
  simp only [List.append_eq_nil_iff] at hself ⊢
  obtain ⟨⟨⟨⟨⟨hcolumns, -⟩, hindexes⟩, hstorage⟩, hversioning⟩, hoptions⟩ := hself
  exact ⟨⟨⟨⟨⟨hcolumns, hconstraints⟩, hindexes⟩, hstorage⟩, hversioning⟩, hoptions⟩

theorem Plan.operations_eq_nil_of_tables {detectRenames : Bool} {m m' : Model} {t u : Table}
    (hm : m.objects = [.table t]) (hm' : m'.objects = [.table u]) (hname : t.name = u.name)
    (h : Details.table detectRenames t u = []) :
    (between detectRenames m m').operations = [] := by
  rw [operations_eq_nil_iff]
  intro k
  rw [operationsOn_eq_nil_iff]
  have hkeys : m.keys = m'.keys := by
    rw [Model.keys, Model.keys, hm, hm', List.map_singleton, List.map_singleton]
    exact congrArg (fun name => [(⟨.table, name⟩ : ObjectKey)]) hname
  refine ⟨by rw [hkeys], fun a b ha hb => ?_⟩
  have ha := (Model.get?_eq_some_iff.1 ha).1
  have hb := (Model.get?_eq_some_iff.1 hb).1
  rw [hm, List.mem_singleton] at ha
  rw [hm', List.mem_singleton] at hb
  subst ha hb
  exact h

namespace Declaration

variable {d : Dialect} {name : QualifiedName} {x : Declaration}

theorem reading_eq (d : Dialect) (name : QualifiedName) (x : Declaration) :
    x.reading d name = declared (Clauses.ofDialect d) name
      (x.elements.map fun e => Token.lex d e.toList) d
        (Token.lexFrom d (some ')') [] x.tail.toList).1 := by
  unfold reading declared
  rw [tableElements_elementTokens, List.map_map]
  rfl

end Declaration

/-- A constraint at a column, moved to the elements of the table. Both statements are read, and the
tables are the same but for the order of the constraints and for a name that waited for one. -/
theorem inline_constraint_as_element {d : Dialect} {name : QualifiedName} {x : Declaration}
    {left right left' right' : List String} {inline plain element : String}
    {waiting : Option String} {k : Constraint} {t : Table} (hx : x.IsRegular d name)
    (hinline : x.elements = left ++ inline :: right)
    (hplain : Token.IsElement d plain.toList) (helement : Token.IsElement d element.toList)
    (hmoved : IsRelocation d waiting k (Token.lex d inline.toList) (Token.lex d plain.toList)
      (Token.lex d element.toList))
    (horder : left' ++ right' = left ++ plain :: right)
    (ht : Definition.ofStatement? d x.text = .ok (some (.object (.table t))))
    {atColumn amongElements : List Script}
    (hcolumn : (atColumn.flatMap fun s => Statement.split d s.sql).map Statement.Item.text? =
      [some x.text])
    (helements : (amongElements.flatMap fun s => Statement.split d s.sql).map
        Statement.Item.text? =
      [some { x with elements := left' ++ element :: right' : Declaration }.text]) :
    ∃ ks m m', Constraint.Paired t.constraints ks ∧ (waiting = none → ks.Perm t.constraints) ∧
      k.orNamed waiting ∈ t.constraints ∧ k ∈ ks ∧
      Model.ofScripts d atColumn = .ok m ∧ m.objects = [.table t] ∧
      Model.ofScripts d amongElements = .ok m' ∧
      m'.objects = [.table { t with constraints := ks }] ∧
      (t.Unambiguous → Constraint.Clear t.constraints ks → ∀ detectRenames,
        (Plan.between detectRenames m m').operations = [] ∧
        (Plan.between detectRenames m' m).operations = []) := by
  generalize hy : { x with elements := left' ++ element :: right' : Declaration } = y at helements
  have hyRegular : y.IsRegular d name := by
    subst hy
    refine hx.withElements fun e he => ?_
    rw [List.perm_middle.mem_iff, horder, List.mem_cons, List.perm_middle.mem_iff,
      List.mem_cons] at he
    rw [hinline, List.perm_middle.mem_iff]
    rcases he with rfl | rfl | he
    · exact .inr helement
    · exact .inr hplain
    · exact .inl (List.mem_cons_of_mem inline he)
  obtain ⟨rest, hread⟩ := hx.ofStatement?_iff.1 ht
  rw [Declaration.reading_eq, hinline, List.map_append, List.map_cons] at hread
  have horder := congrArg (List.map fun e => Token.lex d e.toList) horder
  rw [List.map_append, List.map_append, List.map_cons] at horder
  obtain ⟨renamed, ks, hrenamed, hperm, hk, hk', hmovedRead⟩ :=
    declared_of_relocation hmoved horder hread
  have hpaired : Constraint.Paired t.constraints ks := ⟨renamed, hperm.symm,
    hrenamed.imp fun _ _ hsame => equivalent_of_renamed hsame⟩
  have hu : Definition.ofStatement? d y.text =
      .ok (some (.object (.table (t.withBody t.columns ks)))) := by
    rw [hyRegular.ofStatement?_iff]
    subst hy
    refine ⟨rest, ?_⟩
    rw [Declaration.reading_eq, List.map_append, List.map_cons]
    exact hmovedRead
  have hm := Model.objects_define Model.empty "" (.table t)
  have hm' := Model.objects_define Model.empty "" (.table (t.withBody t.columns ks))
  refine ⟨ks, _, _, hpaired, ?_, hk, hk', Model.ofScripts_table hcolumn ht "", hm,
    Model.ofScripts_table helements hu "", hm', fun hunambiguous hclear detectRenames => ⟨?_, ?_⟩⟩
  · rintro rfl
    rw [eq_of_renamed_unnamed hrenamed]
    exact hperm
  · exact Plan.operations_eq_nil_of_tables hm hm' rfl
      (Details.table_reordered detectRenames hunambiguous hpaired hclear)
  · exact Plan.operations_eq_nil_of_tables hm' hm rfl
      (Details.table_reordered detectRenames hunambiguous hpaired.symm hclear.symm)

def keyedColumn : String :=
  "id int CONSTRAINT notes_id NOT NULL CONSTRAINT notes_pkey PRIMARY KEY CHECK (id > 0)"

def plainColumn : String := "id int CONSTRAINT notes_id NOT NULL CHECK (id > 0)"

def keyedDeclaration : Declaration :=
  { notesDeclaration with elements := [keyedColumn, "body text UNIQUE"] }

def movedDeclaration : Declaration :=
  { keyedDeclaration with elements := [plainColumn, notesKey.element, "body text UNIQUE"] }

theorem keyedDeclaration_isRegular :
    keyedDeclaration.IsRegular .postgres ⟨some "app", "notes"⟩ where
  closed := notesDeclaration_isRegular.closed
  heading := notesDeclaration_isRegular.heading
  elements := by decide +kernel

def keyedBefore : List Token :=
  [⟨.word, [], "id".toList⟩, ⟨.word, [' '], "int".toList⟩, ⟨.word, [' '], "CONSTRAINT".toList⟩,
    ⟨.word, [' '], "notes_id".toList⟩, ⟨.word, [' '], "NOT".toList⟩,
    ⟨.word, [' '], "NULL".toList⟩]

def keyedNaming : List Token :=
  [⟨.word, [' '], "CONSTRAINT".toList⟩, ⟨.word, [' '], "notes_pkey".toList⟩]

def keyedClause : List Token :=
  [⟨.word, [' '], "PRIMARY".toList⟩, ⟨.word, [' '], "KEY".toList⟩]

def keyedAfter : List Token :=
  [⟨.word, [' '], "CHECK".toList⟩, ⟨.symbol, [' '], ['(']⟩, ⟨.word, [], "id".toList⟩,
    ⟨.symbol, [' '], ['>']⟩, ⟨.number, [' '], ['0']⟩, ⟨.symbol, [], [')']⟩]

def keyedBlank : ColumnDraft :=
  ⟨⟨"id", ⟨.integer, [], "int"⟩, true, none, .plain, 1, []⟩, [], none⟩

def keyedDraft : ColumnDraft :=
  { keyedBlank with
    column := { keyedBlank.column with nullable := false }, pending := some "notes_id" }

theorem readsTo_keyedDraft {ts : List Token}
    (hts : ts ∈ [keyedNaming ++ (keyedClause ++ keyedAfter), keyedAfter]) :
    ReadsTo .postgres (keyedBefore ++ ts) keyedDraft ts := by
  have hall : ∀ ts ∈ [keyedNaming ++ (keyedClause ++ keyedAfter), keyedAfter],
      startsOther (keyedBefore ++ ts) = false ∧
      columnStart 1 .postgres (keyedBefore ++ ts) =
        .ok (some keyedBlank, keyedBefore.drop 2 ++ ts) ∧
      columnStep Postgres.clauses keyedBlank .postgres (keyedBefore.drop 2 ++ ts) =
        .ok (some { keyedBlank with pending := some "notes_id" }, keyedBefore.drop 4 ++ ts) ∧
      columnStep Postgres.clauses { keyedBlank with pending := some "notes_id" } .postgres
        (keyedBefore.drop 4 ++ ts) = .ok (some keyedDraft, ts) := by
    decide +kernel
  obtain ⟨hother, hstart, hname, hnull⟩ := hall ts hts
  have hless : (keyedBefore.drop 4 ++ ts).length < (keyedBefore.drop 2 ++ ts).length ∧
      ts.length < (keyedBefore.drop 4 ++ ts).length := by
    simp only [List.length_append]
    exact ⟨Nat.add_lt_add_right (by decide) _, Nat.lt_add_of_pos_left (by decide)⟩
  refine ⟨⟨List.cons_ne_nil _ _, hother, fun h => by cases h⟩, _, _, hstart, ?_⟩
  exact .step hname hless.1 (.step hnull hless.2 (.refl _ _))

theorem keyedColumn_isRelocation : IsRelocation .postgres (some "notes_id") notesPrimaryKey
    (Token.lex .postgres keyedColumn.toList) (Token.lex .postgres plainColumn.toList)
    (Token.lex .postgres notesKey.element.toList) := by
  have hinline : Token.lex .postgres keyedColumn.toList =
      keyedBefore ++ (keyedNaming ++ (keyedClause ++ keyedAfter)) := by
    decide +kernel
  have hplain : Token.lex .postgres plainColumn.toList = keyedBefore ++ keyedAfter := by
    decide +kernel
  have helement : Token.regap [' '] (Token.lex .postgres notesKey.element.toList) =
      keyedNaming ++ (keyedClause ++
        [⟨.symbol, [' '], ['(']⟩, ⟨.word, [], "id".toList⟩, ⟨.symbol, [], [')']⟩]) := by
    decide +kernel
  rw [hinline, hplain]
  refine .mk (r := keyedDraft) (readsTo_keyedDraft (by decide)) (readsTo_keyedDraft (by decide))
    (.named (by decide) (by decide) (by decide +kernel) (by decide)) ?_ helement
    (fun _ => by decide +kernel)
  exact .primaryKey (by decide) (by decide) (.inl ⟨rfl, by decide⟩)
    (.mk (by decide) (by decide) (by decide +kernel) (by decide))

theorem inline_constraint_as_element_notes : ∃ t ks m m',
    keyedDeclaration.IsRegular .postgres ⟨some "app", "notes"⟩ ∧
    IsRelocation .postgres (some "notes_id") notesPrimaryKey
      (Token.lex .postgres keyedColumn.toList) (Token.lex .postgres plainColumn.toList)
      (Token.lex .postgres notesKey.element.toList) ∧
    Definition.ofStatement? .postgres keyedDeclaration.text = .ok (some (.object (.table t))) ∧
    t.Unambiguous ∧ Constraint.Clear t.constraints ks ∧
    Constraint.Paired t.constraints ks ∧ notesPrimaryKey ∈ t.constraints ∧ notesPrimaryKey ∈ ks ∧
    Model.ofScripts .postgres [⟨"a.sql", keyedDeclaration.text⟩] = .ok m ∧
    m.objects = [.table t] ∧
    Model.ofScripts .postgres [⟨"b.sql", movedDeclaration.text⟩] = .ok m' ∧
    m'.objects = [.table { t with constraints := ks }] ∧
    (Plan.between true m m').operations = [] ∧ (Plan.between true m' m).operations = [] := by
  -- The texts are evaluated as lists of characters, so that no string has to be decoded.
  have hread : ((Definition.ofStatement? .postgres keyedDeclaration.text).map
      (Definition.holdsTable fun t =>
        t.Unambiguous ∧ t.constraints.Pairwise fun a b => ¬ a.SameBody b)) = .ok true := by
    unfold Definition.ofStatement?
    rw [Declaration.toList_text]
    unfold keyedDeclaration notesDeclaration keyedColumn
    dsimp only [List.map]
    repeat rw [String.toList_ofList]
    decide +kernel
  obtain ⟨found, ht, hholds⟩ := Outcome.exists_of_map hread
  obtain ⟨t, rfl, htested⟩ := Definition.holdsTable_eq_true hholds
  obtain ⟨hunambiguous, hdistinct⟩ := of_decide_eq_true htested
  have hcolumn : ([⟨"a.sql", keyedDeclaration.text⟩].flatMap
      fun s : Script => Statement.split .postgres s.sql).map Statement.Item.text? =
        [some keyedDeclaration.text] := by
    rw [List.flatMap_singleton]
    unfold Statement.split Statement.Splitter.start
    dsimp only
    rw [Declaration.toList_text]
    unfold keyedDeclaration notesDeclaration keyedColumn
    dsimp only [List.map]
    repeat rw [String.toList_ofList]
    decide +kernel
  have helements : ([⟨"b.sql", movedDeclaration.text⟩].flatMap
      fun s : Script => Statement.split .postgres s.sql).map Statement.Item.text? =
        [some movedDeclaration.text] := by
    rw [List.flatMap_singleton]
    unfold Statement.split Statement.Splitter.start
    dsimp only
    rw [Declaration.toList_text]
    unfold movedDeclaration keyedDeclaration notesDeclaration notesKey plainColumn
    dsimp only [List.map]
    repeat rw [String.toList_ofList]
    decide +kernel
  have hinline : keyedDeclaration.elements = [] ++ keyedColumn :: ["body text UNIQUE"] := rfl
  have horder : [plainColumn] ++ ["body text UNIQUE"] =
      [] ++ plainColumn :: ["body text UNIQUE"] := rfl
  obtain ⟨ks, m, m', hpaired, -, hmem, hmem', hm, hobjects, hm', hobjects', hplans⟩ :=
    inline_constraint_as_element keyedDeclaration_isRegular hinline (by decide +kernel)
      notesKey_isRegular.element keyedColumn_isRelocation horder ht hcolumn helements
  have hclear := hpaired.clear_of_distinct hdistinct
  obtain ⟨hthere, hback⟩ := hplans hunambiguous hclear true
  exact ⟨t, ks, m, m', keyedDeclaration_isRegular, keyedColumn_isRelocation, ht, hunambiguous,
    hclear, hpaired, hmem, hmem', hm, hobjects, hm', hobjects', hthere, hback⟩

/-- What follows a constraint at its column is taken for clauses of the column, and what follows it
among the elements is taken for modifiers of the constraint. -/
theorem modifier_at_column :
    (do
      let a ← Definition.ofStatement? .postgres
        "CREATE TABLE t (a int REFERENCES u (a) DEFERRABLE)"
      let b ← Definition.ofStatement? .postgres
        "CREATE TABLE t (a int, FOREIGN KEY (a) REFERENCES u (a) DEFERRABLE)"
      match a, b with
      | some (.object a), some (.object b) => return Details.object true a b
      | _, _ => return [] : Except Fault (List String)) =
      .ok ["column a attributes changed from [DEFERRABLE] to []",
        "constraint dropped: FOREIGN KEY (a) REFERENCES u (a)",
        "constraint added: FOREIGN KEY (a) REFERENCES u (a) DEFERRABLE"] := by
  unfold Definition.ofStatement?
  rw [String.toList_ofList, String.toList_ofList]
  decide +kernel

end SchemaDrift
