import SchemaDrift.Proofs.Blame
import SchemaDrift.Proofs.Ordinals

namespace SchemaDrift

namespace Outcome

variable {ε α σ τ : Type}

/-- Two runs over one list whose steps keep them related. -/
theorem foldlM_related {R : σ → τ → Prop} {step : σ → α → Except ε σ} {step' : τ → α → Except ε τ}
    {l : List α}
    (hstep : ∀ s t, R s t → ∀ a u, step s a = .ok u → ∃ v, step' t a = .ok v ∧ R u v)
    {s u : σ} {t : τ} (h : l.foldlM step s = .ok u) (hst : R s t) :
    ∃ v, l.foldlM step' t = .ok v ∧ R u v := by
  induction l generalizing s t with
  | nil => exact ⟨t, rfl, Except.ok.inj h ▸ hst⟩
  | cons a l ih =>
      rw [List.foldlM_cons] at h
      obtain ⟨mid, hmid, h⟩ := bind_eq_ok.1 h
      obtain ⟨mid', hmid', hrelated⟩ := hstep s t hst a mid hmid
      obtain ⟨v, hv, huv⟩ := ih h hrelated
      refine ⟨v, ?_, huv⟩
      rw [List.foldlM_cons]
      exact bind_eq_ok.2 ⟨mid', hmid', hv⟩

end Outcome

/-- A type has no names, so that every text is read as one. -/
theorem Grammar.exists_typeOfText (d : Dialect) (s : String) : ∃ t, typeOfText d s = .ok t := by
  have hsound : Reader.Sound d (fun _ => True) (fun _ => False) typeName := sound_typeName
  unfold typeOfText
  cases h : Reader.run? typeName d s.toList with
  | error f => exact (hsound.run? (fun _ _ => trivial) h).elim
  | ok found => cases found <;> exact ⟨_, rfl⟩

namespace Catalog

variable {d : Dialect} {es fs : List Entry} {rows : List ColumnRow} {r : ColumnRow}

def ownRows (schema table : String) (rows : List ColumnRow) : List ColumnRow :=
  rows.filter fun r => r.schema == schema && r.table == table

def columnAt (d : Dialect) (r : ColumnRow) (ordinal : Nat) : Column :=
  let generation := columnGeneration d r
  ⟨r.name, (Grammar.typeOfText d r.dataType).toOption.getD .none, r.nullable, generation.1,
    generation.2, ordinal, []⟩

def appendRow (d : Dialect) (t : Table) (r : ColumnRow) : Table :=
  { t with columns := t.columns ++ [columnAt d r (t.columns.length + 1)] }

def Entry.filled (d : Dialect) (rows : List ColumnRow) (e : Entry) : Entry :=
  { e with table := (ownRows e.schema e.name rows).foldl (appendRow d) e.table }

def fillLast (d : Dialect) (rows : List ColumnRow) : List Entry → List Entry
  | [] => []
  | e :: es =>
      (if es.any (named e.schema e.name) then e else e.filled d rows) :: fillLast d rows es

theorem columnOfRow_eq (d : Dialect) (r : ColumnRow) (ordinal : Nat) :
    columnOfRow d r ordinal = .ok (columnAt d r ordinal) := by
  obtain ⟨t, ht⟩ := Grammar.exists_typeOfText d r.dataType
  simp only [columnOfRow, columnAt, ht]
  rfl

theorem changeLast_of_unnamed {meant : Entry → Bool} (h : es.any meant = false)
    (f : Table → Table) : changeLast meant f es = es := by
  cases es with
  | nil => rfl
  | cons e es =>
      rw [List.any_cons, Bool.or_eq_false_iff] at h
      rw [changeLast, h.1, h.2, if_neg Bool.false_ne_true, if_neg Bool.false_ne_true]

theorem addColumn_eq (d : Dialect) (es : List Entry) (r : ColumnRow) :
    addColumn d es r = .ok (changeLast (named r.schema r.table) (appendRow d · r) es) := by
  unfold addColumn
  split
  · rw [columnOfRow_eq]
    rfl
  · next h => rw [changeLast_of_unnamed (Bool.eq_false_iff.2 h)]; rfl

theorem any_fillLast (schema name : String) :
    (fillLast d rows es).any (named schema name) = es.any (named schema name) := by
  induction es with
  | nil => rfl
  | cons e es ih =>
      rw [fillLast, List.any_cons, List.any_cons, ih]
      split <;> rfl

theorem ownRows_concat_of_named {schema table : String} (h : r.schema = schema ∧ r.table = table) :
    ownRows schema table (rows ++ [r]) = ownRows schema table rows ++ [r] := by
  simp [ownRows, h.1, h.2]

theorem ownRows_concat_of_other {schema table : String}
    (h : ¬ (r.schema = schema ∧ r.table = table)) :
    ownRows schema table (rows ++ [r]) = ownRows schema table rows := by
  have hother : (r.schema == schema && r.table == table) = false := by
    simpa using fun hs ht => h ⟨hs, ht⟩
  simp [ownRows, hother]

theorem named_iff {e : Entry} {schema name : String} :
    named schema name e = true ↔ schema = e.schema ∧ name = e.name := by
  rw [named, Bool.and_eq_true_iff, beq_iff_eq, beq_iff_eq]
  exact and_congr eq_comm eq_comm

theorem filled_concat_of_other {e : Entry} (h : ¬ named r.schema r.table e = true) :
    e.filled d (rows ++ [r]) = e.filled d rows := by
  rw [Entry.filled, ownRows_concat_of_other (h ∘ named_iff.2), Entry.filled]

theorem filled_concat_of_named {e : Entry} (h : named r.schema r.table e = true) :
    e.filled d (rows ++ [r]) =
      { e.filled d rows with table := appendRow d (e.filled d rows).table r } := by
  rw [Entry.filled, ownRows_concat_of_named (named_iff.1 h), List.foldl_concat]
  rfl

/-- A row more is a row more for the table that it names, and for no other. -/
theorem changeLast_fillLast (d : Dialect) (rows : List ColumnRow) (r : ColumnRow)
    (es : List Entry) :
    changeLast (named r.schema r.table) (appendRow d · r) (fillLast d rows es) =
      fillLast d (rows ++ [r]) es := by
  induction es with
  | nil => rfl
  | cons e es ih =>
      rw [fillLast, changeLast, any_fillLast, fillLast, ← ih]
      by_cases hlater : es.any (named r.schema r.table) = true
      · -- The row is for a table further on, and this one is hidden or has another name.
        rw [if_pos hlater]
        congr 1
        split
        · rfl
        · next hlast =>
            refine (filled_concat_of_other fun he => hlast ?_).symm
            obtain ⟨hschema, hname⟩ := named_iff.1 he
            rw [← hschema, ← hname]
            exact hlater
      · rw [if_neg hlater,
          changeLast_of_unnamed ((any_fillLast _ _).trans (Bool.eq_false_iff.2 hlater))]
        by_cases he : named r.schema r.table e = true
        · have hlast : ¬ es.any (named e.schema e.name) = true := by
            obtain ⟨hschema, hname⟩ := named_iff.1 he
            rw [← hschema, ← hname]
            exact hlater
          rw [if_neg hlast, if_neg hlast, if_pos (show named _ _ (e.filled d rows) = true from he),
            filled_concat_of_named he]
        · rw [filled_concat_of_other he, if_neg]
          split <;> exact he

/-- However the rows of the tables mix, each table ends with its own. -/
theorem foldlM_addColumn (d : Dialect) (es : List Entry) (rows : List ColumnRow) :
    rows.foldlM (addColumn d) es = .ok (fillLast d rows es) := by
  have hstart : fillLast d [] es = es := by
    induction es with
    | nil => rfl
    | cons e es ih =>
        rw [fillLast, ih]
        split <;> rfl
  have hrun (done todo : List ColumnRow) :
      todo.foldlM (addColumn d) (fillLast d done es) = .ok (fillLast d (done ++ todo) es) := by
    induction todo generalizing done with
    | nil =>
        rw [List.append_nil]
        rfl
    | cons r todo ih =>
        rw [List.foldlM_cons, addColumn_eq, changeLast_fillLast]
        exact (ih (done ++ [r])).trans (by rw [List.append_assoc, List.singleton_append])
  have hall := hrun [] rows
  rwa [hstart, List.nil_append] at hall

/-- With the rows mixed in another way, the model is the same. -/
theorem model_eq_of_ownRows {c : Catalog} {others : List ColumnRow}
    (h : ∀ schema table, ownRows schema table others = ownRows schema table c.columns) :
    ({ c with columns := others } : Catalog).model d = c.model d := by
  have hfill (es : List Entry) : fillLast d others es = fillLast d c.columns es := by
    induction es with
    | nil => rfl
    | cons e es ih => rw [fillLast, fillLast, ih, Entry.filled, h, Entry.filled]
  have hentries : ({ c with columns := others } : Catalog).entries d = c.entries d := by
    simp only [entries, foldlM_addColumn, hfill]
  simp only [model, hentries]

structure Entry.Beside (q : QualifiedName) (e f : Entry) : Prop where
  schema : f.schema = e.schema
  name : f.name = e.name
  tableName : f.table.name = e.table.name
  table : e.table.name = q → f.table = e.table

section

variable {q : QualifiedName}

theorem any_of_beside {schema name : String} (h : List.Forall₂ (Entry.Beside q) es fs) :
    fs.any (named schema name) = es.any (named schema name) := by
  induction h with
  | nil => rfl
  | cons h _ ih => rw [List.any_cons, List.any_cons, ih, named, named, h.schema, h.name]

theorem names_of_beside (h : List.Forall₂ (Entry.Beside q) es fs) :
    fs.map (·.table.name) = es.map (·.table.name) := by
  induction h with
  | nil => rfl
  | cons h _ ih => rw [List.map_cons, List.map_cons, ih, h.tableName]

theorem changeLast_beside {schema name : String} {f : Table → Table}
    (hf : ∀ t, (f t).name = t.name) (h : List.Forall₂ (Entry.Beside q) es fs) :
    List.Forall₂ (Entry.Beside q) (changeLast (named schema name) f es)
      (changeLast (named schema name) f fs) := by
  induction h with
  | nil => exact .nil
  | @cons e e' es fs h hs ih =>
      have hmeant : named schema name e' = named schema name e := by
        rw [named, named, h.schema, h.name]
      rw [changeLast, changeLast, any_of_beside hs, hmeant]
      split
      · exact .cons h ih
      split
      · refine .cons ⟨h.schema, h.name, ?_, fun hq => ?_⟩ hs
        · rw [hf, hf, h.tableName]
        · rw [hf] at hq
          dsimp only
          rw [h.table hq]
      · exact .cons h hs

def StateBeside (q : QualifiedName) (s t : List Entry × List String) : Prop :=
  List.Forall₂ (Entry.Beside q) s.1 t.1 ∧ t.2 = s.2

theorem addConstraint_beside {s t u : List Entry × List String} (h : StateBeside q s t)
    {k : ConstraintRow} (hu : addConstraint d s k = .ok u) :
    ∃ v, addConstraint d t k = .ok v ∧ StateBeside q u v := by
  unfold addConstraint at hu ⊢
  rw [any_of_beside h.1]
  split at hu
  · next hany =>
      obtain ⟨found, hfound, hu⟩ := Outcome.bind_eq_ok.1 hu
      rw [if_pos hany, hfound]
      cases found with
      | none =>
          cases hu
          exact ⟨_, rfl, h.1, congrArg (· ++ [unreadConstraint k]) h.2⟩
      | some c =>
          cases hu
          exact ⟨_, rfl, changeLast_beside (fun _ => rfl) h.1, h.2⟩
  · next hany =>
      cases hu
      rw [if_neg hany]
      exact ⟨_, rfl, h⟩

theorem name_foldl_appendRow (t : Table) : (rows.foldl (appendRow d) t).name = t.name := by
  induction rows generalizing t with
  | nil => rfl
  | cons r rows ih => exact ih (appendRow d t r)

theorem fillLast_beside {others : List ColumnRow}
    (h : ∀ e ∈ es, e.table.name = q →
      ownRows e.schema e.name others = ownRows e.schema e.name rows) :
    List.Forall₂ (Entry.Beside q) (fillLast d rows es) (fillLast d others es) := by
  induction es with
  | nil => exact .nil
  | cons e es ih =>
      refine .cons ?_ (ih fun f hf => h f (List.mem_cons_of_mem e hf))
      split
      · exact ⟨rfl, rfl, rfl, fun _ => rfl⟩
      · refine ⟨rfl, rfl, ?_, fun hq => ?_⟩
        · rw [Entry.filled, Entry.filled, name_foldl_appendRow, name_foldl_appendRow]
        · rw [Entry.filled, name_foldl_appendRow] at hq
          rw [Entry.filled, h e List.mem_cons_self hq, Entry.filled]

theorem ofRow_names {t : TableRow} {e : Entry} (h : Entry.ofRow d t = .ok e) :
    e.schema = t.schema ∧ e.name = t.name ∧ e.table.name = qualify d t.schema t.name := by
  rw [Entry.ofRow] at h
  cases hkey : t.partitionKey with
  | none =>
      rw [hkey] at h
      cases h
      exact ⟨rfl, rfl, rfl⟩
  | some key =>
      rw [hkey] at h
      obtain ⟨partition, -, h⟩ := Outcome.bind_eq_ok.1 h
      cases h
      exact ⟨rfl, rfl, rfl⟩

theorem get?_insert (m : Model) (o : Object) (k : ObjectKey) :
    (m.insert o).get? k = if k = o.key then some o else m.get? k :=
  Store.get?_insert m.indexed o k

/-- The tables of the entries, put into a model one after the other. -/
theorem get?_foldl_insert (h : List.Forall₂ (Entry.Beside q) es fs) {m n : Model}
    (hmn : n.get? ⟨.table, q⟩ = m.get? ⟨.table, q⟩) :
    (fs.foldl (fun m e => m.insert (.table e.table.enforcePrimaryKey)) n).get? ⟨.table, q⟩ =
      (es.foldl (fun m e => m.insert (.table e.table.enforcePrimaryKey)) m).get? ⟨.table, q⟩ := by
  induction h generalizing m n with
  | nil => exact hmn
  | @cons e f es fs h hs ih =>
      refine ih ?_
      rw [get?_insert, get?_insert]
      by_cases hq : e.table.name = q
      · rw [h.table hq, hmn]
      · have hkey : (⟨.table, q⟩ : ObjectKey) ≠ (Object.table e.table.enforcePrimaryKey).key :=
          fun hkey => hq (congrArg ObjectKey.name hkey).symm
        have hkey' : (⟨.table, q⟩ : ObjectKey) ≠ (Object.table f.table.enforcePrimaryKey).key :=
          fun hkey => hq (h.tableName.symm.trans (congrArg ObjectKey.name hkey).symm)
        rw [if_neg hkey, if_neg hkey', hmn]

theorem addIndex_get? {names : List QualifiedName} {m n u : Model} {i : IndexRow}
    (hmn : n.get? ⟨.table, q⟩ = m.get? ⟨.table, q⟩) (hu : addIndex d names m i = .ok u) :
    ∃ v, addIndex d names n i = .ok v ∧ v.get? ⟨.table, q⟩ = u.get? ⟨.table, q⟩ := by
  obtain ⟨o, ho, hu⟩ := Outcome.bind_eq_ok.1 hu
  unfold addIndex
  rw [ho]
  cases o with
  | none =>
      cases hu
      exact ⟨_, rfl, hmn⟩
  | some o =>
      cases o with
      | index j =>
          cases hu
          refine ⟨_, rfl, ?_⟩
          split
          · have hkey : (⟨.table, q⟩ : ObjectKey) ≠ (Object.index j).key := by
              intro hkey
              cases congrArg ObjectKey.kind hkey
            rw [get?_insert, get?_insert, if_neg hkey, if_neg hkey, hmn]
          · exact hmn
      | _ =>
          cases hu
          exact ⟨_, rfl, hmn⟩

/-- A table takes its own rows, whatever the rows of other tables. -/
theorem get?_model_of_ownRows {c : Catalog} {others : List ColumnRow} {m : Model}
    (hm : c.model d = .ok m)
    (h : ∀ t ∈ c.tables, qualify d t.schema t.name = q →
      ownRows t.schema t.name others = ownRows t.schema t.name c.columns) :
    ∃ n, ({ c with columns := others } : Catalog).model d = .ok n ∧
      n.get? ⟨.table, q⟩ = m.get? ⟨.table, q⟩ := by
  obtain ⟨⟨es, unread⟩, hentries, hm⟩ := Outcome.bind_eq_ok.1 hm
  obtain ⟨made, hmade, hentries⟩ := Outcome.bind_eq_ok.1 hentries
  obtain ⟨filled, hfilled, hentries⟩ := Outcome.bind_eq_ok.1 hentries
  rw [foldlM_addColumn] at hfilled
  cases hfilled
  have hown : ∀ e ∈ made, e.table.name = q →
      ownRows e.schema e.name others = ownRows e.schema e.name c.columns := by
    intro e he hq
    obtain ⟨t, ht, hrow⟩ := Outcome.exists_of_mem_mapM hmade he
    obtain ⟨hschema, hname, htable⟩ := ofRow_names hrow
    rw [hschema, hname]
    exact h t ht (htable ▸ hq)
  have hstart : StateBeside q (fillLast d c.columns made, []) (fillLast d others made, []) :=
    ⟨fillLast_beside hown, rfl⟩
  have hconstraints (s t : List Entry × List String) (hst : StateBeside q s t) (k : ConstraintRow)
      (u : List Entry × List String) (hu : addConstraint d s k = .ok u) :
      ∃ v, addConstraint d t k = .ok v ∧ StateBeside q u v :=
    addConstraint_beside hst hu
  obtain ⟨⟨fs, unread'⟩, hfs, hbeside, hunread⟩ :=
    Outcome.foldlM_related hconstraints hentries hstart
  obtain rfl : unread' = unread := hunread
  have hindexes (m n : Model) (hmn : n.get? ⟨.table, q⟩ = m.get? ⟨.table, q⟩) (i : IndexRow)
      (u : Model) (hu : addIndex d (es.map (·.table.name)) m i = .ok u) :
      ∃ v, addIndex d (es.map (·.table.name)) n i = .ok v ∧
        v.get? ⟨.table, q⟩ = u.get? ⟨.table, q⟩ :=
    addIndex_get? hmn hu
  obtain ⟨n, hn, hget⟩ :=
    Outcome.foldlM_related hindexes hm (get?_foldl_insert hbeside (Eq.refl _))
  rw [← names_of_beside hbeside] at hn
  refine ⟨n, Outcome.bind_eq_ok.2 ⟨(fs, unread'), ?_, hn⟩, hget⟩
  refine Outcome.bind_eq_ok.2 ⟨made, hmade, ?_⟩
  exact Outcome.bind_eq_ok.2 ⟨_, foldlM_addColumn d made others, hfs⟩

end

end Catalog

/-- The columns of every table are numbered by their places, from scripts that add columns and
write them anew as well as from a catalog. The tables of a catalog are the same however their rows
of columns mix, and the rows of one table are all that its columns depend on. -/
theorem columns_in_place (d : Dialect) :
    (∀ scripts m, Model.ofScripts d scripts = .ok m → m.Tables Table.Numbered) ∧
    (∀ rows m, Catalog.model d rows = .ok m → m.Tables Table.Numbered) ∧
    (∀ (rows : Catalog) (others : List Catalog.ColumnRow),
      (∀ schema table, Catalog.ownRows schema table others =
        Catalog.ownRows schema table rows.columns) →
      ({ rows with columns := others } : Catalog).model d = rows.model d) ∧
    ∀ (rows : Catalog) (others : List Catalog.ColumnRow) (table : QualifiedName) (m : Model),
      rows.model d = .ok m →
      (∀ r ∈ rows.tables, Catalog.qualify d r.schema r.name = table →
        Catalog.ownRows r.schema r.name others = Catalog.ownRows r.schema r.name rows.columns) →
      ∃ n, ({ rows with columns := others } : Catalog).model d = .ok n ∧
        n.get? ⟨.table, table⟩ = m.get? ⟨.table, table⟩ :=
  ⟨fun _ _ => Model.numbered_ofScripts, fun _ _ => Catalog.numbered_model,
    fun _ _ => Catalog.model_eq_of_ownRows, fun _ _ _ _ => Catalog.get?_model_of_ownRows⟩

def Model.places (m : Model) : List (List (String × Nat)) :=
  m.objects.filterMap fun
    | .table t => some (t.columns.map fun c => (c.name, c.ordinal))
    | _ => none

def regrown : List Script :=
  [⟨"grow.sql", "ALTER TABLE t ADD b text, ADD COLUMN c int;\nALTER TABLE t ADD a int, ADD e int;"⟩,
    ⟨"table.sql", "CREATE TABLE t (a int, b int);"⟩]

def mixedRows : Catalog where
  tables := [⟨"public", "t", none, none, []⟩, ⟨"public", "u", none, none, []⟩]
  columns := [⟨"public", "t", "a", "integer", true, none, false, false⟩,
    ⟨"public", "u", "x", "integer", true, none, false, false⟩,
    ⟨"public", "t", "b", "text", true, none, false, false⟩,
    ⟨"public", "u", "y", "text", true, none, false, false⟩]
  constraints := []
  indexes := []

def sortedColumns : List Catalog.ColumnRow :=
  Catalog.ownRows "public" "u" mixedRows.columns ++ Catalog.ownRows "public" "t" mixedRows.columns

theorem columns_in_place_mixed :
    (∃ m, Model.ofScripts .postgres regrown = .ok m ∧ m.Tables Table.Numbered ∧
      m.places = [[("a", 1), ("b", 2), ("c", 3), ("e", 4)]]) ∧
    ∃ m, mixedRows.model .postgres = .ok m ∧ m.Tables Table.Numbered ∧
      m.places = [[("a", 1), ("b", 2)], [("x", 1), ("y", 2)]] ∧
      ({ mixedRows with columns := sortedColumns } : Catalog).model .postgres = .ok m ∧
      ∃ n, ({ mixedRows with columns := Catalog.ownRows "public" "t" mixedRows.columns } :
        Catalog).model .postgres = .ok n ∧
        n.get? ⟨.table, .unqualified "t"⟩ = m.get? ⟨.table, .unqualified "t"⟩ := by
  obtain ⟨hscripts, hrows, hmixed, hown⟩ := columns_in_place .postgres
  have hgrown : (Model.ofScripts .postgres regrown).map Model.places =
      .ok [[("a", 1), ("b", 2), ("c", 3), ("e", 4)]] := by
    decide +kernel
  have hread : (mixedRows.model .postgres).map Model.places =
      .ok [[("a", 1), ("b", 2)], [("x", 1), ("y", 2)]] := by
    decide +kernel
  obtain ⟨m, hm, hplaces⟩ := Outcome.exists_of_map hgrown
  obtain ⟨n, hn, hcolumns⟩ := Outcome.exists_of_map hread
  refine ⟨⟨m, hm, hscripts _ _ hm, hplaces⟩, n, hn, hrows _ _ hn, hcolumns, ?_, ?_⟩
  · rw [← hn]
    refine hmixed mixedRows sortedColumns fun schema table => ?_
    by_cases hschema : "public" = schema
    · by_cases ht : "t" = table
      · subst hschema ht
        decide
      · by_cases hu : "u" = table
        · subst hschema hu
          decide
        · simp [sortedColumns, Catalog.ownRows, mixedRows, ht, hu]
    · simp [sortedColumns, Catalog.ownRows, mixedRows, hschema]
  · refine hown mixedRows _ _ n hn fun r hr htable => ?_
    simp only [mixedRows, List.mem_cons, List.not_mem_nil, or_false] at hr
    rcases hr with rfl | rfl
    · decide
    · exact absurd htable (by decide)

end SchemaDrift
