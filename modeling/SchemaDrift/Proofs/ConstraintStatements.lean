import SchemaDrift.Proofs.AddedConstraints
import SchemaDrift.Proofs.Concatenation

namespace SchemaDrift

open Reader Grammar

theorem Grammar.yields_declared {clauses : Clauses} (hclauses : clauses.KeepBodies)
    (name : QualifiedName) (parts : List (List Token)) :
    Yields (fun t => t.name = name) (declared clauses name parts) := by
  refine (yields_tableElements hclauses (.new name) parts).bind fun t ht => ?_
  intro d ts rest u h
  have hbody := Yields.untilEnd (fun u hu => yields_tableStep hclauses hu) .rfl _ _ _ _ h
  exact hbody.name.trans ht

def Definition.holdsTable (test : Table → Bool) : Option Definition → Bool
  | some (.object (.table t)) => test t
  | _ => false

theorem Definition.holdsTable_eq_true {test : Table → Bool} {found : Option Definition}
    (h : holdsTable test found = true) :
    ∃ t, found = some (.object (.table t)) ∧ test t = true := by
  unfold holdsTable at h
  split at h
  · next t => exact ⟨t, rfl, h⟩
  · cases h

structure Declaration where
  heading : String
  elements : List String
  tail : String
deriving DecidableEq, Repr

namespace Declaration

def text (x : Declaration) : String := x.heading ++ " (" ++ commaList x.elements ++ ")" ++ x.tail

def add (x : Declaration) (element : String) : Declaration :=
  { x with elements := x.elements ++ [element] }

/-- The heading names the table, and each element is one element. -/
structure IsRegular (d : Dialect) (name : QualifiedName) (x : Declaration) : Prop where
  closed : Token.closedFrom d none x.heading.toList = true
  heading : IsCreateHeading d name (Token.lex d x.heading.toList)
  elements : ∀ e ∈ x.elements, Token.IsElement d e.toList

variable {d : Dialect} {name : QualifiedName} {x : Declaration}

/-- Other elements below the same heading. -/
theorem IsRegular.withElements (hx : x.IsRegular d name) {es : List String}
    (hes : ∀ e ∈ es, e ∈ x.elements ∨ Token.IsElement d e.toList) :
    { x with elements := es : Declaration }.IsRegular d name where
  closed := hx.closed
  heading := hx.heading
  elements := fun e he => (hes e he).elim (hx.elements e) id

theorem toList_text (x : Declaration) : x.text.toList = x.heading.toList ++ ' ' :: '(' ::
    (", ".toList.intercalate (x.elements.map String.toList) ++ ')' :: x.tail.toList) := by
  unfold text commaList
  simp [String.toList_intercalate]

theorem IsRegular.add (h : x.IsRegular d name) {element : String}
    (helement : Token.IsElement d element.toList) : (x.add element).IsRegular d name where
  closed := h.closed
  heading := h.heading
  elements := by
    intro e he
    rcases List.mem_append.1 he with he | he
    · exact h.elements e he
    · rw [List.mem_singleton.1 he]
      exact helement

def reading (d : Dialect) (name : QualifiedName) (x : Declaration) :
    Except Fault (Option Table × List Token) :=
  declared (Clauses.ofDialect d) name (Token.elementTokens d (x.elements.map String.toList)) d
    (Token.lexFrom d (some ')') [] x.tail.toList).1

/-- The statement defines what its elements make, with the clauses after them. -/
theorem IsRegular.ofStatement?_iff (h : x.IsRegular d name) {t : Table} :
    Definition.ofStatement? d x.text = .ok (some (.object (.table t))) ↔
      ∃ rest, x.reading d name = .ok (some t, rest) := by
  have helements : ∀ s ∈ x.elements.map String.toList, Token.IsElement d s := by
    intro s hs
    obtain ⟨e, he, rfl⟩ := List.mem_map.1 hs
    exact h.elements e he
  obtain ⟨body, gap, hbody, hsplit, hopen⟩ := Token.exists_body helements x.tail.toList
  obtain ⟨before, hlex⟩ := Token.lexFrom_append_of_closed (b := ' ') h.closed (by decide)
    (by decide) []
    ('(' :: (", ".toList.intercalate (x.elements.map String.toList) ++ ')' :: x.tail.toList))
  rw [Token.lexFrom_blank, Token.lexFrom_sign (by decide), hbody, ← toList_text] at hlex
  have hcreate := Definition.ofChars?_create h.heading rfl rfl hopen hlex
  rw [hsplit] at hcreate
  change Definition.ofStatement? d x.text = (x.reading d name).map Prod.fst >>= _ at hcreate
  rw [hcreate]
  constructor
  · intro ht
    obtain ⟨found, hfound, ht⟩ := Outcome.bind_eq_ok.1 ht
    obtain ⟨⟨found, rest⟩, hread, rfl⟩ := Outcome.exists_of_map hfound
    cases found with
    | none =>
        obtain ⟨raw, -, ht⟩ := Outcome.bind_eq_ok.1 ht
        cases ht
    | some u =>
        cases ht
        exact ⟨rest, hread⟩
  · rintro ⟨rest, hread⟩
    rw [hread]
    rfl

theorem IsRegular.name_eq (h : x.IsRegular d name) {t : Table}
    (ht : Definition.ofStatement? d x.text = .ok (some (.object (.table t)))) : t.name = name := by
  obtain ⟨rest, hread⟩ := h.ofStatement?_iff.1 ht
  exact yields_declared (Clauses.keepBodies_ofDialect d) name _ _ _ _ _ hread

end Declaration

/-- A statement that begins a change to the table of a name, and the constraint that it adds. -/
structure Addition where
  heading : String
  element : String
deriving DecidableEq, Repr

namespace Addition

def text (a : Addition) : String := a.heading ++ " " ++ a.element

structure IsRegular (d : Dialect) (name : QualifiedName) (c : Constraint) (a : Addition) :
    Prop where
  closed : Token.closedFrom d none a.heading.toList = true
  heading : IsAlterHeading d name (Token.lex d a.heading.toList)
  element : Token.IsElement d a.element.toList
  starts : startsConstraint (Token.lex d a.element.toList) = true
  notExclude : atKeyword "EXCLUDE" (Token.lex d a.element.toList) = false
  read : run? tableConstraint d a.element.toList = .ok (some c)

variable {d : Dialect} {name : QualifiedName} {c : Constraint} {a : Addition}

theorem toList_text (a : Addition) :
    a.text.toList = a.heading.toList ++ ' ' :: a.element.toList := by
  unfold text
  simp

theorem IsRegular.tableConstraint (h : a.IsRegular d name c) :
    ∃ rest, ∀ gap, Grammar.tableConstraint d (Token.regap gap (Token.lex d a.element.toList)) =
      .ok (some c, rest) := by
  obtain ⟨⟨found, rest⟩, hread, hfound⟩ := Outcome.exists_of_map h.read
  obtain rfl : found = some c := hfound
  exact ⟨rest, tableConstraint_regap hread⟩

/-- The statement adds the constraint. -/
theorem IsRegular.ofStatement? (h : a.IsRegular d name c) :
    ∃ raw, Definition.ofStatement? d a.text = .ok (some (.change name [.addConstraint c] raw)) := by
  obtain ⟨rest, hread⟩ := h.tableConstraint
  obtain ⟨before, hlex⟩ := Token.lexFrom_append_of_closed (b := ' ') h.closed (by decide)
    (by decide) [] a.element.toList
  rw [Token.lexFrom_blank, Token.lexFrom_eq_regap_lex
    (show some ' ' ∉ [some 'E', some 'e'] by decide)] at hlex
  rw [← toList_text] at hlex
  exact Definition.ofChars?_add h.heading hlex (h.element.item.regap _)
    ((startsConstraint_regap _ _).trans h.starts) (hread _)

/-- The constraint may be written among the elements. -/
theorem IsRegular.tableElement (h : a.IsRegular d name c) (gap : List Char) (u : Table) :
    ∃ rest, Grammar.tableElement (Clauses.ofDialect d) u d
        (Token.regap gap (Token.lex d a.element.toList)) =
      .ok (some { u with constraints := u.constraints ++ [c] }, rest) := by
  obtain ⟨rest, hread⟩ := h.tableConstraint
  refine ⟨rest, tableElement_of_constraint ?_ ?_ (hread gap) d u⟩
  · rw [startsConstraint_regap, h.starts]
  · have hexclude := h.notExclude
    cases hlex : Token.lex d a.element.toList with
    | nil => rfl
    | cons t ts =>
        rw [hlex] at hexclude
        exact hexclude

/-- Written as the last element, the constraint is added to the table that the others make. -/
theorem IsRegular.ofStatement?_add (h : a.IsRegular d name c) {x : Declaration}
    (hx : x.IsRegular d name) {t : Table}
    (ht : Definition.ofStatement? d x.text = .ok (some (.object (.table t))))
    (hnew : t.constraints.any (·.equivalent c) = false) :
    Definition.ofStatement? d (x.add a.element).text =
      .ok (some (.object (.table (t.applyAll [.addConstraint c])))) := by
  obtain ⟨rest, hread⟩ := hx.ofStatement?_iff.1 ht
  obtain ⟨gap, htokens⟩ := Token.elementTokens_concat d (x.elements.map String.toList)
    a.element.toList
  refine (hx.add h.element).ofStatement?_iff.2 ⟨rest, ?_⟩
  rw [Declaration.reading, Declaration.add, List.map_append, List.map_singleton, htokens]
  exact declared_concat (Clauses.passBodies_ofDialect d) hread (h.tableElement gap) hnew

end Addition

namespace Finding

variable {f : Finding}

theorem exists_defined {definition : Definition} (h : f.said = .inl definition) :
    ∃ place, f = .defined place definition := by
  cases f with
  | defined place found => exact ⟨place, congrArg (defined place) (Sum.inl.inj h)⟩
  | unfinished => cases h

end Finding

namespace Model

theorem eq_of_toStore {m n : Model} (h : m.toStore = n.toStore) : m = n := by
  cases m
  cases n
  cases h
  rfl

/-- An object that is there alone, changed where it stands. -/
theorem modify_define_empty (place place' : String) (o : Object) (f : Object → Object)
    (hf : ∀ o, (f o).key = o.key) :
    (empty.define place o).modify o.key f hf = empty.define place' (f o) := by
  have hposition : (empty.define place o).toStore.position? o.key = some 0 :=
    List.lookup_cons_self
  refine eq_of_toStore ((Store.modify_of_some hposition f).trans ?_)
  exact congrArg (fun k => (⟨[f o], [(k, 0)], []⟩ : Store)) (hf o).symm

theorem ofFindings_table {t : Table} {fs : List Finding}
    (h : fs.map Finding.said = [.inl (.object (.table t))]) (place : String) :
    ofFindings fs = empty.define place (.table t) := by
  obtain ⟨f, rfl, hf⟩ := List.map_eq_singleton_iff.1 h
  obtain ⟨place', rfl⟩ := Finding.exists_defined hf
  exact eq_of_toStore rfl

/-- A change is made to the table wherever the two stand. -/
theorem ofFindings_table_change {t : Table} {changes : List TableChange} {raw : RawStatement}
    {fs : List Finding}
    (h : fs.map Finding.said = [.inl (.object (.table t)), .inl (.change t.name changes raw)] ∨
      fs.map Finding.said = [.inl (.change t.name changes raw), .inl (.object (.table t))])
    (place : String) :
    ofFindings fs = empty.define place (.table (t.applyAll changes)) := by
  have hchange (place' place'' : String) :
      (empty.define place' (.table t)).addChange (.defined place'' (.change t.name changes raw)) =
        empty.define place (.table (t.applyAll changes)) := by
    have hfound : (empty.define place' (.table t)).get? ⟨.table, t.name⟩ = some (.table t) :=
      get?_key (o := .table t) (by rw [objects_define]; exact List.mem_singleton_self _)
    unfold addChange
    dsimp only
    rw [hfound]
    exact modify_define_empty place' place (.table t) (Object.changed changes)
      (Object.key_changed changes)
  rcases h with h | h
  · obtain ⟨f, fs, rfl, hf, h⟩ := List.map_eq_cons_iff.1 h
    obtain ⟨g, rfl, hg⟩ := List.map_eq_singleton_iff.1 h
    obtain ⟨place', rfl⟩ := Finding.exists_defined hf
    obtain ⟨place'', rfl⟩ := Finding.exists_defined hg
    exact hchange place' place''
  · obtain ⟨f, fs, rfl, hf, h⟩ := List.map_eq_cons_iff.1 h
    obtain ⟨g, rfl, hg⟩ := List.map_eq_singleton_iff.1 h
    obtain ⟨place', rfl⟩ := Finding.exists_defined hf
    obtain ⟨place'', rfl⟩ := Finding.exists_defined hg
    exact hchange place'' place'

theorem ofScripts_eq_of_readings {d : Dialect} {scripts : List Script}
    {said : List (Definition ⊕ RawStatement)}
    (h : Finding.readings d (scripts.flatMap fun s => Statement.split d s.sql) = .ok said) :
    ∃ fs, ofScripts d scripts = .ok (ofFindings fs) ∧ fs.map Finding.said = said := by
  rw [← Finding.map_said_ofScripts] at h
  obtain ⟨fs, hfs, hsaid⟩ := Outcome.exists_of_map h
  refine ⟨fs, ?_, hsaid⟩
  rw [ofScripts, hfs]
  rfl

end Model

theorem Finding.readings_of_text? {d : Dialect} {items : List Statement.Item}
    (texts : List String) {said : List Definition}
    (htexts : items.map Statement.Item.text? = texts.map some)
    (hsaid : List.Forall₂ (fun text definition =>
      Definition.ofStatement? d text = .ok (some definition)) texts said) :
    readings d items = .ok (said.map .inl) := by
  induction hsaid generalizing items with
  | nil =>
      rw [List.map_eq_nil_iff.1 htexts]
      rfl
  | cons hfirst _ ih =>
      obtain ⟨item, items, rfl, hitem, hitems⟩ := List.map_eq_cons_iff.1 htexts
      rw [readings, reading_of_text? hitem, hfirst, ih hitems]
      rfl

/-- The scripts of one table hold the table, wherever it stands. -/
theorem Model.ofScripts_table {d : Dialect} {scripts : List Script} {text : String} {t : Table}
    (hscripts : (scripts.flatMap fun s => Statement.split d s.sql).map Statement.Item.text? =
      [some text])
    (ht : Definition.ofStatement? d text = .ok (some (.object (.table t)))) (place : String) :
    ofScripts d scripts = .ok (empty.define place (.table t)) := by
  obtain ⟨fs, hfs, hsaid⟩ := ofScripts_eq_of_readings
    (Finding.readings_of_text? [_] hscripts (.cons ht .nil))
  rw [hfs, ofFindings_table hsaid place]

/-- A constraint that is written after the elements of a table, and one that is added to the table
without it, come to one model: that of the table with the constraint as the last of its
constraints, and no column of a primary key nullable. -/
theorem added_constraint_as_declared {d : Dialect} {name : QualifiedName} {x : Declaration}
    {a : Addition} {t : Table} {c : Constraint} (hx : x.IsRegular d name)
    (ht : Definition.ofStatement? d x.text = .ok (some (.object (.table t))))
    (ha : a.IsRegular d name c) (hnew : t.constraints.any (·.equivalent c) = false)
    {whole parts : List Script}
    (hwhole : (whole.flatMap fun s => Statement.split d s.sql).map Statement.Item.text? =
      [some (x.add a.element).text])
    (hparts : (parts.flatMap fun s => Statement.split d s.sql).map Statement.Item.text? =
        [some x.text, some a.text] ∨
      (parts.flatMap fun s => Statement.split d s.sql).map Statement.Item.text? =
        [some a.text, some x.text]) :
    ∃ m, Model.ofScripts d whole = .ok m ∧ Model.ofScripts d parts = .ok m ∧
      m.objects = [.table (t.applyAll [.addConstraint c])] := by
  have hwith : Definition.ofStatement? d (x.add a.element).text =
      .ok (some (.object (.table (t.applyAll [.addConstraint c])))) :=
    ha.ofStatement?_add hx ht hnew
  obtain ⟨raw, hadd⟩ := ha.ofStatement?
  rw [← hx.name_eq ht] at hadd
  refine ⟨_, Model.ofScripts_table hwhole hwith "", ?_, Model.objects_define _ _ _⟩
  rcases hparts with hparts | hparts
  · obtain ⟨gs, hgs, hsaid⟩ := Model.ofScripts_eq_of_readings
      (Finding.readings_of_text? [_, _] hparts (.cons ht (.cons hadd .nil)))
    rw [hgs, Model.ofFindings_table_change (.inl hsaid) ""]
  · obtain ⟨gs, hgs, hsaid⟩ := Model.ofScripts_eq_of_readings
      (Finding.readings_of_text? [_, _] hparts (.cons hadd (.cons ht .nil)))
    rw [hgs, Model.ofFindings_table_change (.inr hsaid) ""]

def notesDeclaration : Declaration :=
  ⟨"CREATE TABLE IF NOT EXISTS app.notes", ["id int", "body text"], " TABLESPACE fast"⟩

def notesKey : Addition :=
  ⟨"ALTER TABLE ONLY app.notes ADD", "CONSTRAINT notes_pkey PRIMARY KEY (id)"⟩

def notesPrimaryKey : Constraint := ⟨some "notes_pkey", .primaryKey, ["id"], []⟩

theorem notesDeclaration_isRegular :
    notesDeclaration.IsRegular .postgres ⟨some "app", "notes"⟩ where
  closed := by decide +kernel
  heading := by
    have hlex : Token.lex .postgres notesDeclaration.heading.toList =
        ⟨.word, [], "CREATE".toList⟩ :: ([] ++ ([] ++ ⟨.word, [' '], "TABLE".toList⟩ ::
          ([⟨.word, [' '], "IF".toList⟩, ⟨.word, [' '], "NOT".toList⟩,
            ⟨.word, [' '], "EXISTS".toList⟩] ++ [⟨.word, [' '], "app".toList⟩,
              ⟨.symbol, [], ['.']⟩, ⟨.word, [], "notes".toList⟩]))) := by
      decide +kernel
    rw [hlex]
    refine .mk (by decide) (.inl rfl) ?_ (by decide) (.inr (by decide))
      ⟨by decide +kernel, by decide⟩
    exact fun t ht => absurd ht List.not_mem_nil
  elements := by decide +kernel

theorem notesKey_isRegular :
    notesKey.IsRegular .postgres ⟨some "app", "notes"⟩ notesPrimaryKey where
  closed := by decide +kernel
  heading := by
    have hlex : Token.lex .postgres notesKey.heading.toList =
        ⟨.word, [], "ALTER".toList⟩ :: ⟨.word, [' '], "TABLE".toList⟩ ::
          ([] ++ ([⟨.word, [' '], "ONLY".toList⟩] ++ ([⟨.word, [' '], "app".toList⟩,
            ⟨.symbol, [], ['.']⟩, ⟨.word, [], "notes".toList⟩] ++
              [⟨.word, [' '], "ADD".toList⟩]))) := by
      decide +kernel
    rw [hlex]
    refine .mk (by decide) (by decide) (.inl rfl) (.inr (by decide)) ⟨by decide +kernel, by decide⟩
      ?_ (by decide)
    exact fun h => absurd h (List.cons_ne_nil _ _)
  element := by decide +kernel
  starts := by decide +kernel
  notExclude := by decide +kernel
  read := by decide +kernel

theorem added_constraint_as_declared_notes : ∃ t m,
    notesDeclaration.IsRegular .postgres ⟨some "app", "notes"⟩ ∧
    Definition.ofStatement? .postgres notesDeclaration.text =
      .ok (some (.object (.table t))) ∧
    notesKey.IsRegular .postgres ⟨some "app", "notes"⟩ notesPrimaryKey ∧
    t.constraints.any (·.equivalent notesPrimaryKey) = false ∧
    Model.ofScripts .postgres [⟨"a.sql", (notesDeclaration.add notesKey.element).text⟩] = .ok m ∧
    Model.ofScripts .postgres [⟨"a.sql", notesKey.text⟩, ⟨"b.sql", notesDeclaration.text⟩] =
      .ok m ∧
    m.objects = [.table (t.applyAll [.addConstraint notesPrimaryKey])] := by
  -- The texts are evaluated as lists of characters, so that no string has to be decoded.
  have hread : ((Definition.ofStatement? .postgres notesDeclaration.text).map
      (Definition.holdsTable fun t => !t.constraints.any (·.equivalent notesPrimaryKey))) =
        .ok true := by
    unfold Definition.ofStatement?
    rw [Declaration.toList_text]
    unfold notesDeclaration
    dsimp only [List.map]
    repeat rw [String.toList_ofList]
    decide +kernel
  obtain ⟨found, ht, hholds⟩ := Outcome.exists_of_map hread
  obtain ⟨t, rfl, htested⟩ := Definition.holdsTable_eq_true hholds
  have hnew : t.constraints.any (·.equivalent notesPrimaryKey) = false := by
    rwa [Bool.not_eq_true'] at htested
  have hwhole : ([⟨"a.sql", (notesDeclaration.add notesKey.element).text⟩].flatMap
      fun s : Script => Statement.split .postgres s.sql).map Statement.Item.text? =
        [some (notesDeclaration.add notesKey.element).text] := by
    rw [List.flatMap_singleton]
    unfold Statement.split Statement.Splitter.start
    dsimp only
    rw [Declaration.toList_text]
    unfold Declaration.add notesDeclaration notesKey
    dsimp only [List.map, List.append]
    repeat rw [String.toList_ofList]
    decide +kernel
  have hparts : ([⟨"a.sql", notesKey.text⟩, ⟨"b.sql", notesDeclaration.text⟩].flatMap
      fun s : Script => Statement.split .postgres s.sql).map Statement.Item.text? =
        [some notesKey.text, some notesDeclaration.text] := by
    rw [List.flatMap_cons, List.flatMap_singleton]
    unfold Statement.split Statement.Splitter.start
    dsimp only
    rw [Declaration.toList_text, Addition.toList_text]
    unfold notesDeclaration notesKey
    dsimp only [List.map]
    repeat rw [String.toList_ofList]
    decide +kernel
  obtain ⟨m, hwhole, hparts, hobjects⟩ := added_constraint_as_declared
    notesDeclaration_isRegular ht notesKey_isRegular hnew hwhole (.inr hparts)
  exact ⟨t, m, notesDeclaration_isRegular, ht, notesKey_isRegular, hnew, hwhole, hparts, hobjects⟩

/-- The name of a table is taken for the word `ONLY`, so that what is added to it is lost. -/
theorem constraint_added_to_only :
    run? tableConstraint .mySql "CHECK (a > 0)".toList =
      .ok (some ⟨none, .check "a > 0", [], []⟩) ∧
    (Model.ofScripts .mySql [⟨"a.sql", "CREATE TABLE only (a int, CHECK (a > 0))"⟩]).map
      (fun m => m.keys.map ObjectKey.text) = .ok ["Table: only"] ∧
    (Model.ofScripts .mySql [⟨"a.sql", "CREATE TABLE only (a int)"⟩,
        ⟨"b.sql", "ALTER TABLE only ADD CHECK (a > 0)"⟩]).map
      (fun m => m.keys.map ObjectKey.text) =
        .ok ["Table: only", "Raw SQL: alter table only add check(a > 0)"] := by
  decide +kernel

end SchemaDrift
