import SchemaDrift.Catalog
import SchemaDrift.Proofs.Lookup
import SchemaDrift.Proofs.TableBodies
import SchemaDrift.Script

namespace SchemaDrift

namespace Text

theorem wordsFrom_append {word : List Char} (h : ∀ c ∈ word, isSpace c = false)
    (run rest : List Char) :
    wordsFrom run (word ++ rest) = wordsFrom (word.reverse ++ run) rest := by
  induction word generalizing run with
  | nil => rfl
  | cons c word ih =>
      have hc : isSpace c = false := h c List.mem_cons_self
      rw [List.cons_append, wordsFrom, if_neg (by rw [hc]; exact Bool.false_ne_true),
        ih (fun e he => h e (List.mem_cons_of_mem c he)), List.reverse_cons, List.append_assoc]
      rfl

end Text

/-- A name that an entry of a key cannot be taken to end in, or to go on after. -/
def PlainName (name : String) : Prop :=
  name ≠ "" ∧ ∀ c ∈ name.toList, Text.isSpace c = false ∧ c ≠ '('

def KeyEntry (name entry : String) : Prop :=
  ∃ size direction, (size = "" ∨ ∃ length, size = "(" ++ length ++ ")") ∧
    (direction = "" ∨ direction = " DESC") ∧ entry = name ++ size ++ direction

namespace PlainName

variable {name : String}

theorem words_append (h : PlainName name) (rest : List Char) :
    Text.words (name.toList ++ rest) = Text.wordsFrom name.toList.reverse rest := by
  rw [Text.words, Text.wordsFrom_append (fun c hc => (h.2 c hc).1), List.append_nil]

theorem isEmpty_reverse (h : PlainName name) : name.toList.reverse.isEmpty = false := by
  have hne : name.toList ≠ [] := fun hnil => h.1 (String.toList_eq_nil_iff.1 hnil)
  rw [List.isEmpty_reverse, List.isEmpty_eq_false_iff]
  exact hne

theorem keyWord_eq (h : PlainName name) : Table.keyWord name = some name := by
  have hwords := h.words_append []
  rw [List.append_nil, Text.wordsFrom, if_neg (by rw [h.isEmpty_reverse]; exact Bool.false_ne_true),
    List.reverse_reverse] at hwords
  rw [Table.keyWord, hwords, List.head?_cons, Option.map_some, String.ofList_toList]

theorem keyWord_descending (h : PlainName name) : Table.keyWord (name ++ " DESC") = some name := by
  have hspace : Text.isSpace ' ' = true := by decide
  have hwords := h.words_append " DESC".toList
  rw [show " DESC".toList = ' ' :: "DESC".toList from rfl, Text.wordsFrom, if_pos hspace,
    if_neg (by rw [h.isEmpty_reverse]; exact Bool.false_ne_true), List.reverse_reverse] at hwords
  rw [Table.keyWord, String.toList_append, show " DESC".toList = ' ' :: "DESC".toList from rfl,
    hwords, List.head?_cons, Option.map_some, String.ofList_toList]

theorem open_not_mem (h : PlainName name) : '(' ∉ name.toList := fun hmem => (h.2 '(' hmem).2 rfl

end PlainName

def PlainEntry (entry : String) : Prop :=
  ∃ name, PlainName name ∧ (entry = name ∨ entry = name ++ " DESC")

namespace PlainEntry

variable {name entry : String}

theorem open_not_mem (h : PlainEntry entry) : '(' ∉ entry.toList := by
  obtain ⟨w, hw, rfl | rfl⟩ := h
  · exact hw.open_not_mem
  · rw [String.toList_append, List.mem_append]
    rintro (hmem | hmem)
    · exact hw.open_not_mem hmem
    · exact absurd hmem (by decide)

/-- The first word of a plain entry is the one name that the entry is an entry of. -/
theorem keyWord_eq_some_iff (h : PlainEntry entry) (hname : PlainName name) :
    Table.keyWord entry = some name ↔ KeyEntry name entry := by
  constructor
  · intro hword
    obtain ⟨w, hw, rfl | rfl⟩ := h
    · rw [hw.keyWord_eq] at hword
      obtain rfl := Option.some.inj hword
      exact ⟨"", "", .inl rfl, .inl rfl, by rw [String.append_empty, String.append_empty]⟩
    · rw [hw.keyWord_descending] at hword
      obtain rfl := Option.some.inj hword
      exact ⟨"", " DESC", .inl rfl, .inr rfl, by rw [String.append_empty]⟩
  · rintro ⟨size, direction, hsize, hdirection, hentry⟩
    have hempty : size = "" := by
      refine hsize.resolve_right ?_
      rintro ⟨length, rfl⟩
      refine h.open_not_mem ?_
      rw [hentry]
      simp
    rw [hempty, String.append_empty] at hentry
    rcases hdirection with rfl | rfl
    · rw [String.append_empty] at hentry
      rw [hentry]
      exact hname.keyWord_eq
    · rw [hentry]
      exact hname.keyWord_descending

end PlainEntry

namespace Table

variable {t u : Table}

def Lists (t : Table) (name : String) : Prop :=
  ∃ k ∈ t.constraints, k.rule = .primaryKey ∧ ∃ entry ∈ k.columns, KeyEntry name entry

def PlainKeys (t : Table) : Prop :=
  ∀ k ∈ t.constraints, k.rule = .primaryKey → ∀ entry ∈ k.columns, PlainEntry entry

theorem mem_primaryKeyColumns_iff {name : String} : name ∈ t.primaryKeyColumns ↔
    ∃ k ∈ t.constraints, k.rule = .primaryKey ∧
      ∃ entry ∈ k.columns, keyWord entry = some name := by
  simp only [primaryKeyColumns, List.mem_filterMap, List.mem_flatMap, List.mem_filter,
    decide_eq_true_eq]
  constructor
  · rintro ⟨entry, ⟨k, ⟨hk, hrule⟩, hentry⟩, hword⟩
    exact ⟨k, hk, hrule, entry, hentry, hword⟩
  · rintro ⟨k, hk, hrule, entry, hentry, hword⟩
    exact ⟨entry, ⟨k, ⟨hk, hrule⟩, hentry⟩, hword⟩

theorem PlainKeys.mem_iff (h : t.PlainKeys) {name : String} (hname : PlainName name) :
    name ∈ t.primaryKeyColumns ↔ t.Lists name := by
  rw [mem_primaryKeyColumns_iff]
  constructor
  · rintro ⟨k, hk, hrule, entry, hentry, hword⟩
    have hplain := h k hk hrule entry hentry
    exact ⟨k, hk, hrule, entry, hentry, (hplain.keyWord_eq_some_iff hname).1 hword⟩
  · rintro ⟨k, hk, hrule, entry, hentry, hword⟩
    have hplain := h k hk hrule entry hentry
    exact ⟨k, hk, hrule, entry, hentry, (hplain.keyWord_eq_some_iff hname).2 hword⟩

theorem mem_replaceFirst {b c : Column} {cs : List Column}
    (h : b ∈ addColumn.replaceFirst c cs) : b = c ∨ b ∈ cs := by
  induction cs with
  | nil => cases h
  | cons a cs ih =>
      rw [addColumn.replaceFirst] at h
      split at h
      · exact (List.mem_cons.1 h).imp_right (List.mem_cons_of_mem a)
      · rcases List.mem_cons.1 h with rfl | h
        · exact .inr List.mem_cons_self
        · exact (ih h).imp_right (List.mem_cons_of_mem a)

theorem primaryKeyColumns_mono (h : t.constraints ⊆ u.constraints) :
    t.primaryKeyColumns ⊆ u.primaryKeyColumns := by
  intro name hname
  obtain ⟨k, hk, hentry⟩ := mem_primaryKeyColumns_iff.1 hname
  exact mem_primaryKeyColumns_iff.2 ⟨k, h hk, hentry⟩

end Table

structure Column.Follows (keys : List String) (declared c : Column) : Prop where
  same : c = { declared with ordinal := c.ordinal, nullable := c.nullable }
  nullable : c.nullable = declared.nullable ∨ c.nullable = false ∧ c.name ∈ keys

namespace Column.Follows

variable {keys keys' : List String} {declared c : Column}

theorem refl : Follows keys c c := ⟨rfl, .inl rfl⟩

theorem mono (h : Follows keys declared c) (hkeys : keys ⊆ keys') : Follows keys' declared c :=
  ⟨h.same, h.nullable.imp_right fun h => ⟨h.1, hkeys h.2⟩⟩

theorem moved (h : Follows keys declared c) (ordinal : Nat) :
    Follows keys declared { c with ordinal := ordinal } := by
  obtain ⟨hsame, hnullable⟩ := h
  refine ⟨?_, hnullable⟩
  rw [hsame]

/-- Columns of a key are made not nullable. -/
theorem enforced (h : Follows keys declared c) : Follows keys declared
    (if keys.contains c.name then { c with nullable := false } else c) := by
  split
  · next hkey =>
      refine ⟨?_, .inr ⟨rfl, List.contains_iff_mem.1 hkey⟩⟩
      rw [h.same]
  · exact h

end Column.Follows

namespace Table

variable {declares : Column → Prop} {t u : Table}

def Follows (declares : Column → Prop) (t : Table) : Prop :=
  ∀ c ∈ t.columns, ∃ declared, declares declared ∧
    Column.Follows t.primaryKeyColumns declared c

structure Keyed (declares : Column → Prop) (t : Table) : Prop where
  follows : t.Follows declares
  not_nullable : ∀ c ∈ t.columns, c.name ∈ t.primaryKeyColumns → c.nullable = false

theorem Follows.addColumn (h : t.Follows declares) {c : Column} (hc : declares c) :
    (t.addColumn c).Follows declares := by
  have hkept : ∀ b ∈ t.columns, ∃ declared, declares declared ∧
      Column.Follows (t.addColumn c).primaryKeyColumns declared b := by
    have hkeys : (t.addColumn c).primaryKeyColumns = t.primaryKeyColumns := by
      unfold Table.addColumn
      split <;> rfl
    rw [hkeys]
    exact h
  have hnew (ordinal : Nat) : ∃ declared, declares declared ∧ Column.Follows
      (t.addColumn c).primaryKeyColumns declared { c with ordinal := ordinal } :=
    ⟨c, hc, Column.Follows.refl.moved ordinal⟩
  intro b hb
  have hmem : b ∈ t.columns ∨ ∃ ordinal, b = { c with ordinal := ordinal } := by
    unfold Table.addColumn at hb
    split at hb
    · next old _ =>
        refine (mem_replaceFirst hb).symm.imp_right fun h => ⟨old.ordinal, h⟩
    · refine (List.mem_append.1 hb).imp_right fun h => ⟨_, List.mem_singleton.1 h⟩
  rcases hmem with hb | ⟨ordinal, rfl⟩
  · exact hkept b hb
  · exact hnew ordinal

theorem Follows.addConstraint (h : t.Follows declares) (k : Constraint) :
    (t.addConstraint k).Follows declares := by
  unfold Table.addConstraint
  split
  · exact h
  · intro c hc
    obtain ⟨declared, hdeclared, hfollows⟩ := h c hc
    refine ⟨declared, hdeclared, hfollows.mono (primaryKeyColumns_mono ?_)⟩
    exact List.subset_append_left _ _

theorem Follows.enforced (h : t.Follows declares) : t.enforcePrimaryKey.Keyed declares := by
  constructor
  · intro c hc
    obtain ⟨b, hb, rfl⟩ := List.mem_map.1 hc
    obtain ⟨declared, hdeclared, hfollows⟩ := h b hb
    exact ⟨declared, hdeclared, hfollows.enforced⟩
  · intro c hc hkey
    obtain ⟨b, hb, rfl⟩ := List.mem_map.1 hc
    change _ ∈ t.primaryKeyColumns at hkey
    by_cases hlisted : t.primaryKeyColumns.contains b.name = true
    · rw [if_pos hlisted]
    · rw [if_neg hlisted] at hkey
      exact absurd (List.contains_iff_mem.2 hkey) hlisted

/-- Changes that a statement makes are declarations, too. -/
theorem Follows.applyAll (h : t.Follows declares) {changes : List TableChange}
    (hchanges : ∀ c, .addColumn c ∈ changes → declares c) :
    (t.applyAll changes).Keyed declares := by
  have hfold : (changes.foldl Table.apply t).Follows declares := by
    induction changes generalizing t with
    | nil => exact h
    | cons change changes ih =>
        refine ih ?_ (fun c hc => hchanges c (List.mem_cons_of_mem change hc))
        cases change with
        | addColumn c => exact h.addColumn (hchanges c List.mem_cons_self)
        | addConstraint k => exact h.addConstraint k
  exact hfold.enforced

theorem Keyed.of_sameBody (h : t.Keyed declares) (hbody : t.SameBody u) : u.Keyed declares := by
  have hkeys : u.primaryKeyColumns = t.primaryKeyColumns := by
    rw [primaryKeyColumns, primaryKeyColumns, hbody.constraints]
  constructor
  · intro c hc
    rw [hkeys]
    exact h.follows c (hbody.columns ▸ hc)
  · intro c hc
    rw [hkeys]
    exact h.not_nullable c (hbody.columns ▸ hc)

/-- Nullability is as declared and as the primary keys say, where their entries are plain names. -/
def NullableByKeys (declares : Column → Prop) (t : Table) : Prop :=
  ∀ c ∈ t.columns, ∃ declared, declares declared ∧
    c = { declared with ordinal := c.ordinal, nullable := c.nullable } ∧
    (t.PlainKeys → PlainName c.name →
      (c.nullable = false ↔ t.Lists c.name ∨ declared.nullable = false))

theorem Keyed.nullableByKeys (h : t.Keyed declares) : t.NullableByKeys declares := by
  intro c hc
  obtain ⟨declared, hdeclared, hfollows⟩ := h.follows c hc
  refine ⟨declared, hdeclared, hfollows.same, fun hkeys hname => ?_⟩
  rw [← hkeys.mem_iff hname]
  constructor
  · intro hnull
    rcases hfollows.nullable with hsame | ⟨-, hkey⟩
    · exact .inr (hsame ▸ hnull)
    · exact .inl hkey
  · rintro (hkey | hnull)
    · exact h.not_nullable c hc hkey
    · rcases hfollows.nullable with hsame | ⟨hnull, -⟩
      · rw [hsame, hnull]
      · exact hnull

end Table

namespace Model

def Tables (P : Table → Prop) (m : Model) : Prop := ∀ t, .table t ∈ m.objects → P t

variable {P : Table → Prop} {m : Model}

theorem mem_place {o p : Object} {os : List Object} (h : p ∈ place o os) : p = o ∨ p ∈ os := by
  induction os with
  | nil => exact .inl (List.mem_singleton.1 h)
  | cons q os ih =>
      rw [place] at h
      split at h
      · exact (List.mem_cons.1 h).imp_right (List.mem_cons_of_mem q)
      · rcases List.mem_cons.1 h with rfl | h
        · exact .inr List.mem_cons_self
        · exact (ih h).imp_right (List.mem_cons_of_mem q)

theorem Tables.place (h : m.Tables P) {o : Object} (ho : ∀ t, o = .table t → P t) {n : Model}
    (hn : n.objects = place o m.objects) : n.Tables P := by
  intro t ht
  rcases mem_place (hn ▸ ht) with hto | ht
  · exact ho t hto.symm
  · exact h t ht

theorem Tables.insert (h : m.Tables P) {o : Object} (ho : ∀ t, o = .table t → P t) :
    (m.insert o).Tables P :=
  h.place ho (m.objects_insert o)

theorem Tables.define (h : m.Tables P) {o : Object} (ho : ∀ t, o = .table t → P t)
    (location : String) : (m.define location o).Tables P :=
  h.place ho (m.objects_define location o)

theorem Tables.warn (h : m.Tables P) (source message : String) : (m.warn source message).Tables P :=
  h

end Model

/-- A column as a statement declares it: among the elements of the table that it defines, or as an
addition to the table. -/
inductive Definition.Declares (d : Dialect) (statement : String) (table : QualifiedName)
    (c : Column) : Prop
  | element {t written : Table}
      (hdefines : Definition.ofStatement? d statement = .ok (some (.object (.table t))))
      (hname : t.name = table) (hwritten : written.WrittenIn d (Token.lex d statement.toList))
      (hsame : written.name = table) (hc : c ∈ written.columns) : Declares d statement table c
  | addition {changes : List TableChange} {raw : RawStatement}
      (hchanges : Definition.ofStatement? d statement = .ok (some (.change table changes raw)))
      (hc : .addColumn c ∈ changes) : Declares d statement table c

def Script.Declares (d : Dialect) (scripts : List Script) (table : QualifiedName)
    (c : Column) : Prop :=
  ∃ script ∈ scripts, ∃ s, .ok s ∈ Statement.split d script.sql ∧
    Definition.Declares d s.text table c

namespace Finding

variable {d : Dialect}

def OfScripts (d : Dialect) (scripts : List Script) (f : Finding) : Prop :=
  ∀ location found, f = .defined location found → ∃ script ∈ scripts, ∃ s,
    .ok s ∈ Statement.split d script.sql ∧ Definition.ofStatement? d s.text = .ok (some found)

theorem exists_of_ofItems {label : String} {items : List Statement.Item} {fs : List Finding}
    (h : ofItems d label items = .ok fs) {location : String} {found : Definition}
    (hf : .defined location found ∈ fs) :
    ∃ s, .ok s ∈ items ∧ Definition.ofStatement? d s.text = .ok (some found) := by
  induction items generalizing fs with
  | nil =>
      cases h
      cases hf
  | cons item items ih =>
      obtain ⟨first, hfirst, h⟩ := Outcome.bind_eq_ok.1 h
      obtain ⟨others, hothers, h⟩ := Outcome.bind_eq_ok.1 h
      cases h
      rcases List.mem_append.1 hf with hf | hf
      · cases item with
        | ok s =>
            obtain ⟨o, ho, hfirst⟩ := Outcome.bind_eq_ok.1 hfirst
            cases hfirst
            cases o with
            | none => cases hf
            | some o =>
                cases List.mem_singleton.1 hf
                exact ⟨s, List.mem_cons_self, ho⟩
        | error u =>
            obtain ⟨raw, -, hfirst⟩ := Outcome.bind_eq_ok.1 hfirst
            cases hfirst
            cases List.mem_singleton.1 hf
      · obtain ⟨s, hs, ho⟩ := ih hothers hf
        exact ⟨s, List.mem_cons_of_mem item hs, ho⟩

theorem ofScripts_mem {scripts : List Script} {fs : List Finding}
    (h : ofScripts d scripts = .ok fs) {f : Finding} (hf : f ∈ fs) : f.OfScripts d scripts := by
  induction scripts generalizing fs with
  | nil =>
      cases h
      cases hf
  | cons script scripts ih =>
      obtain ⟨first, hfirst, h⟩ := Outcome.bind_eq_ok.1 h
      obtain ⟨others, hothers, h⟩ := Outcome.bind_eq_ok.1 h
      cases h
      intro location found hdefined
      subst hdefined
      rcases List.mem_append.1 hf with hf | hf
      · obtain ⟨s, hs, ho⟩ := exists_of_ofItems hfirst hf
        exact ⟨script, List.mem_cons_self, s, hs, ho⟩
      · obtain ⟨script', hscript, hs⟩ := ih hothers hf location found rfl
        exact ⟨script', List.mem_cons_of_mem script hscript, hs⟩

end Finding

namespace Model

variable {d : Dialect} {scripts : List Script} {m : Model} {f : Finding} {P : Table → Prop}

def OfScripts (d : Dialect) (scripts : List Script) (t : Table) : Prop :=
  t.Keyed (Script.Declares d scripts t.name)

theorem Tables.addFinding (h : m.Tables P)
    (hdefined : ∀ location t, f = .defined location (.object (.table t)) → P t) :
    (m.addFinding f).Tables P := by
  cases f with
  | unfinished location u raw =>
      refine (h.warn location u.message).define (fun t ht => ?_) location
      cases ht
  | defined location found =>
      cases found with
      | change => exact h
      | object o => exact h.define (fun t ht => hdefined location t (by rw [ht])) _

theorem Tables.addChange (h : m.Tables P)
    (hchanged : ∀ location t changes raw, f = .defined location (.change t.name changes raw) →
      P t → P (t.applyAll changes)) :
    (m.addChange f).Tables P := by
  cases f with
  | unfinished => exact h
  | defined location found =>
      cases found with
      | object => exact h
      | change name changes raw =>
          by_cases hknown : ∃ t, m.get? ⟨.table, name⟩ = some (.table t)
          · obtain ⟨t, hget⟩ := hknown
            obtain ⟨ht, hkey⟩ := get?_eq_some_iff.1 hget
            have hname : t.name = name := congrArg ObjectKey.name hkey
            refine h.place (fun u hu => ?_) (objects_addChange_of_table hget location changes raw)
            cases hu
            exact hchanged location t changes raw (by rw [hname]) (h t ht)
          · rw [addChange_of_unknown (not_exists.1 hknown)]
            refine h.define (fun t ht => ?_) location
            cases ht

theorem Tables.foldl {step : Model → Finding → Model} {fs : List Finding}
    (hstep : ∀ m, ∀ f ∈ fs, m.Tables P → (step m f).Tables P) (h : m.Tables P) :
    (fs.foldl step m).Tables P := by
  induction fs generalizing m with
  | nil => exact h
  | cons f fs ih =>
      exact ih (fun m g hg => hstep m g (List.mem_cons_of_mem f hg))
        (hstep m f List.mem_cons_self h)

/-- What each statement gives its table, and each change keeps, all tables have. -/
theorem Tables.ofScripts
    (hdefined : ∀ script ∈ scripts, ∀ s t, .ok s ∈ Statement.split d script.sql →
      Definition.ofStatement? d s.text = .ok (some (.object (.table t))) → P t)
    (hchanged : ∀ script ∈ scripts, ∀ s t changes raw, .ok s ∈ Statement.split d script.sql →
      Definition.ofStatement? d s.text = .ok (some (.change t.name changes raw)) →
      P t → P (t.applyAll changes))
    (h : Model.ofScripts d scripts = .ok m) : m.Tables P := by
  obtain ⟨fs, hfs, h⟩ := Outcome.bind_eq_ok.1 h
  cases h
  have hfound : ∀ f ∈ fs, f.OfScripts d scripts := fun f => Finding.ofScripts_mem hfs
  refine Tables.foldl (fun m f hf h => h.addChange fun location t changes raw hsaid => ?_) ?_
  · obtain ⟨script, hscript, s, hs, ho⟩ := hfound f hf _ _ hsaid
    exact hchanged script hscript s t changes raw hs ho
  refine Tables.foldl (fun m f hf h => h.addFinding fun location t hsaid => ?_) ?_
  · obtain ⟨script, hscript, s, hs, ho⟩ := hfound f hf _ _ hsaid
    exact hdefined script hscript s t hs ho
  · exact fun t ht => absurd ht List.not_mem_nil

theorem tables_ofScripts (h : Model.ofScripts d scripts = .ok m) :
    m.Tables (OfScripts d scripts) := by
  refine Tables.ofScripts (fun script hscript s t hs ho => ?_)
    (fun script hscript s t changes raw hs ho ht => ?_) h
  · obtain ⟨written, hwritten, hbody⟩ := Definition.exists_writtenIn ho
    have hname : t.name = written.name := hbody.name
    refine (Table.Follows.enforced fun c hc => ?_).of_sameBody hbody
    exact ⟨c, ⟨script, hscript, s, hs, .element ho rfl hwritten hname.symm hc⟩, .refl⟩
  · rw [OfScripts, Table.name_applyAll]
    refine ht.follows.applyAll fun c hc => ?_
    exact ⟨script, hscript, s, hs, .addition ho hc⟩

end Model

namespace Catalog

variable {d : Dialect} {rows : Catalog}

def Declares (d : Dialect) (rows : Catalog) (table : QualifiedName) (c : Column) : Prop :=
  ∃ r ∈ rows.columns, qualify d r.schema r.table = table ∧ columnOfRow d r 0 = .ok c

def Entry.OfRows (d : Dialect) (rows : Catalog) (e : Entry) : Prop :=
  e.table.name = qualify d e.schema e.name ∧ e.table.Follows (rows.Declares d e.table.name)

theorem mem_changeLast {meant : Entry → Bool} {f : Table → Table} {e : Entry} {es : List Entry}
    (h : e ∈ changeLast meant f es) :
    e ∈ es ∨ ∃ old ∈ es, meant old = true ∧ e = { old with table := f old.table } := by
  induction es with
  | nil => cases h
  | cons first es ih =>
      rw [changeLast] at h
      split at h
      · rcases List.mem_cons.1 h with rfl | h
        · exact .inl List.mem_cons_self
        · rcases ih h with h | ⟨old, hold, hmeant, rfl⟩
          · exact .inl (List.mem_cons_of_mem first h)
          · exact .inr ⟨old, List.mem_cons_of_mem first hold, hmeant, rfl⟩
      split at h
      · next hmeant =>
          rcases List.mem_cons.1 h with rfl | h
          · exact .inr ⟨first, List.mem_cons_self, hmeant, rfl⟩
          · exact .inl (List.mem_cons_of_mem first h)
      · exact .inl h

theorem ofRows_ofRow {r : TableRow} {e : Entry} (h : Entry.ofRow d r = .ok e) :
    e.OfRows d rows := by
  have hnone {t : Table} (ht : t.columns = []) : t.Follows (rows.Declares d t.name) := by
    intro c hc
    rw [ht] at hc
    cases hc
  rw [Entry.ofRow] at h
  cases hkey : r.partitionKey with
  | none =>
      rw [hkey] at h
      cases h
      exact ⟨rfl, hnone rfl⟩
  | some key =>
      rw [hkey] at h
      obtain ⟨partition, -, h⟩ := Outcome.bind_eq_ok.1 h
      cases h
      exact ⟨rfl, hnone rfl⟩

theorem ofRows_addColumn {es fs : List Entry} {r : ColumnRow} (hr : r ∈ rows.columns)
    (h : addColumn d es r = .ok fs) (hes : ∀ e ∈ es, e.OfRows d rows) :
    ∀ e ∈ fs, e.OfRows d rows := by
  unfold addColumn at h
  split at h
  · obtain ⟨c, hc, h⟩ := Outcome.bind_eq_ok.1 h
    cases h
    intro e he
    rcases mem_changeLast he with he | ⟨old, hold, hmeant, rfl⟩
    · exact hes e he
    · obtain ⟨hname, hfollows⟩ := hes old hold
      obtain ⟨hschema, htable⟩ := Bool.and_eq_true_iff.1 hmeant
      rw [beq_iff_eq.1 hschema, beq_iff_eq.1 htable] at hname
      refine ⟨?_, fun b hb => ?_⟩
      · rw [beq_iff_eq.1 hschema, beq_iff_eq.1 htable]
        exact hname
      · rcases List.mem_append.1 hb with hb | hb
        · exact hfollows b hb
        · obtain rfl := List.mem_singleton.1 hb
          exact ⟨c, ⟨r, hr, hname.symm, hc⟩, Column.Follows.refl.moved _⟩
  · cases h
    exact hes

theorem ofRows_addConstraint {s t : List Entry × List String} {r : ConstraintRow}
    (h : addConstraint d s r = .ok t) (hs : ∀ e ∈ s.1, e.OfRows d rows) :
    ∀ e ∈ t.1, e.OfRows d rows := by
  unfold addConstraint at h
  split at h
  · obtain ⟨k, -, h⟩ := Outcome.bind_eq_ok.1 h
    cases k with
    | none =>
        cases h
        exact hs
    | some k =>
        cases h
        intro e he
        rcases mem_changeLast he with he | ⟨old, hold, -, rfl⟩
        · exact hs e he
        · obtain ⟨hname, hfollows⟩ := hs old hold
          refine ⟨hname, fun c hc => ?_⟩
          obtain ⟨declared, hdeclared, hc⟩ := hfollows c hc
          refine ⟨declared, hdeclared, hc.mono (Table.primaryKeyColumns_mono ?_)⟩
          exact List.subset_append_left _ _
  · cases h
    exact hs

theorem ofRows_entries {es : List Entry} {unread : List String}
    (h : rows.entries d = .ok (es, unread)) : ∀ e ∈ es, e.OfRows d rows := by
  obtain ⟨made, hmade, h⟩ := Outcome.bind_eq_ok.1 h
  obtain ⟨filled, hfilled, h⟩ := Outcome.bind_eq_ok.1 h
  have hempty : ∀ e ∈ made, e.OfRows d rows := by
    intro e he
    obtain ⟨r, -, hr⟩ := Outcome.exists_of_mem_mapM hmade he
    exact ofRows_ofRow hr
  have hcolumns : ∀ e ∈ filled, e.OfRows d rows :=
    Outcome.foldlM_keeps (P := fun es => ∀ e ∈ es, Entry.OfRows d rows e)
      (fun es r hr fs hstep hes => ofRows_addColumn hr hstep hes) hfilled hempty
  exact Outcome.foldlM_keeps (P := fun s => ∀ e ∈ s.1, Entry.OfRows d rows e)
    (fun s r _ t hstep hs => ofRows_addConstraint hstep hs) h hcolumns

def TableOfRows (d : Dialect) (rows : Catalog) (t : Table) : Prop :=
  t.Keyed (rows.Declares d t.name)

theorem tables_addIndex {names : List QualifiedName} {m n : Model} {r : IndexRow}
    (h : addIndex d names m r = .ok n) {P : Table → Prop} (hm : m.Tables P) : n.Tables P := by
  obtain ⟨o, -, h⟩ := Outcome.bind_eq_ok.1 h
  split at h
  · cases h
    split
    · refine hm.insert fun t ht => ?_
      cases ht
    · exact hm
  · cases h
    exact hm.warn _ _

/-- The tables of a catalog are those of its entries, with the columns of their keys made not
nullable. -/
theorem tables_of_entries {P : Table → Prop} {m : Model} (h : rows.model d = .ok m)
    (hes : ∀ es unread, rows.entries d = .ok (es, unread) →
      ∀ e ∈ es, P e.table.enforcePrimaryKey) : m.Tables P := by
  obtain ⟨⟨es, unread⟩, hentries, h⟩ := Outcome.bind_eq_ok.1 h
  have hentry := hes es unread hentries
  have hwarned (unread : List String) (m : Model) (hm : m.objects = []) :
      (unread.foldl (fun m s => m.warn liveSource s) m).objects = [] := by
    induction unread generalizing m with
    | nil => exact hm
    | cons s unread ih => exact ih (m.warn liveSource s) hm
  have hfilled (es : List Entry) (hes : ∀ e ∈ es, P e.table.enforcePrimaryKey) (m : Model)
      (hm : m.Tables P) :
      (es.foldl (fun m e => m.insert (.table e.table.enforcePrimaryKey)) m).Tables P := by
    induction es generalizing m with
    | nil => exact hm
    | cons e es ih =>
        refine ih (fun f hf => hes f (List.mem_cons_of_mem e hf)) _ (hm.insert fun t ht => ?_)
        cases ht
        exact hes e List.mem_cons_self
  refine Outcome.foldlM_keeps (fun m r _ n hstep hm => tables_addIndex hstep hm) h ?_
  refine hfilled es hentry _ fun t ht => ?_
  rw [hwarned unread Model.empty rfl] at ht
  cases ht

theorem tables_model {m : Model} (h : rows.model d = .ok m) : m.Tables (TableOfRows d rows) :=
  tables_of_entries h fun _ _ hentries e he => (ofRows_entries hentries e he).2.enforced

end Catalog

/-- Columns of a model are as declared, apart from their places and from the nullability that
primary keys take from them. -/
theorem nullability (d : Dialect) :
    (∀ scripts m, Model.ofScripts d scripts = .ok m →
      m.Tables fun t => t.NullableByKeys (Script.Declares d scripts t.name)) ∧
    ∀ rows m, Catalog.model d rows = .ok m →
      m.Tables fun t => t.NullableByKeys (rows.Declares d t.name) :=
  ⟨fun _ _ h t ht => (Model.tables_ofScripts h t ht).nullableByKeys,
    fun _ _ h t ht => (Catalog.tables_model h t ht).nullableByKeys⟩

def Table.outline (t : Table) : List Constraint × List (String × Bool) :=
  (t.constraints, t.columns.map fun c => (c.name, c.nullable))

def Model.outlines (m : Model) : List (List Constraint × List (String × Bool)) :=
  m.objects.filterMap fun
    | .table t => some t.outline
    | _ => none

theorem Model.exists_of_outlines {r : Except Fault Model}
    {outline : List Constraint × List (String × Bool)} (h : r.map outlines = .ok [outline]) :
    ∃ m t, r = .ok m ∧ .table t ∈ m.objects ∧ t.outline = outline := by
  obtain ⟨m, hm, houtlines⟩ := Outcome.exists_of_map h
  have hmem : outline ∈ m.outlines := houtlines ▸ List.mem_singleton_self outline
  obtain ⟨o, ho, houtline⟩ := List.mem_filterMap.1 hmem
  cases o with
  | table t => exact ⟨m, t, hm, ho, Option.some.inj houtline⟩
  | _ => cases houtline

theorem Table.exists_column (t : Table) (name : String) (nullable : Bool)
    (h : (name, nullable) ∈ t.columns.map fun c => (c.name, c.nullable)) :
    ∃ c ∈ t.columns, c.name = name ∧ c.nullable = nullable := by
  obtain ⟨c, hc, hpair⟩ := List.mem_map.1 h
  exact ⟨c, hc, Prod.mk.inj hpair⟩

def keyedLater : List Script :=
  [⟨"keys.sql", "ALTER TABLE t ADD PRIMARY KEY (b DESC, \"Id\");\nALTER TABLE t ADD b int;"⟩,
    ⟨"table.sql", "CREATE TABLE t (\"Id\" int, b text, c int NOT NULL, e int);"⟩]

def keyedRows : Catalog where
  tables := [⟨"public", "t", none, none, []⟩]
  columns := [⟨"public", "t", "id", "integer", true, none, false, false⟩,
    ⟨"public", "t", "note", "text", true, none, false, false⟩]
  constraints := [⟨"public", "t", "t_pkey", "PRIMARY KEY (id)"⟩]
  indexes := []

theorem nullability_keyedLater :
    (∃ m t, Model.ofScripts .sqlite keyedLater = .ok m ∧ .table t ∈ m.objects ∧ t.PlainKeys ∧
      t.NullableByKeys (Script.Declares .sqlite keyedLater t.name) ∧
      t.columns.map (fun c => (c.name, c.nullable)) =
        [("Id", false), ("b", false), ("c", false), ("e", true)]) ∧
    ∃ m t, keyedRows.model .postgres = .ok m ∧ .table t ∈ m.objects ∧ t.PlainKeys ∧
      t.NullableByKeys (keyedRows.Declares .postgres t.name) ∧
      t.columns.map (fun c => (c.name, c.nullable)) = [("id", false), ("note", true)] := by
  have hplain {name : String} (hne : name ≠ "")
      (hall : name.toList.all (fun c => !Text.isSpace c && c != '(') = true) : PlainName name := by
    refine ⟨hne, fun c hc => ?_⟩
    simpa using List.all_eq_true.1 hall c hc
  have hentry {name : String} (h : PlainName name) : PlainEntry name := ⟨name, h, .inl rfl⟩
  constructor
  · have hread : (Model.ofScripts .sqlite keyedLater).map Model.outlines =
        .ok [([⟨none, .primaryKey, ["b DESC", "Id"], []⟩],
          [("Id", false), ("b", false), ("c", false), ("e", true)])] := by
      decide +kernel
    obtain ⟨m, t, hm, ht, houtline⟩ := Model.exists_of_outlines hread
    obtain ⟨hconstraints, hcolumns⟩ := Prod.mk.inj houtline
    refine ⟨m, t, hm, ht, ?_, (nullability .sqlite).1 _ _ hm t ht, hcolumns⟩
    intro k hk _ entry hmem
    rw [hconstraints, List.mem_singleton] at hk
    subst hk
    simp only [List.mem_cons, List.not_mem_nil, or_false] at hmem
    rcases hmem with rfl | rfl
    · exact ⟨"b", hplain (by decide) (by decide), .inr rfl⟩
    · exact hentry (hplain (by decide) (by decide))
  · have hread : (keyedRows.model .postgres).map Model.outlines =
        .ok [([⟨some "t_pkey", .primaryKey, ["id"], []⟩], [("id", false), ("note", true)])] := by
      decide +kernel
    obtain ⟨m, t, hm, ht, houtline⟩ := Model.exists_of_outlines hread
    obtain ⟨hconstraints, hcolumns⟩ := Prod.mk.inj houtline
    refine ⟨m, t, hm, ht, ?_, (nullability .postgres).2 _ _ hm t ht, hcolumns⟩
    intro k hk _ entry hmem
    rw [hconstraints, List.mem_singleton] at hk
    subst hk
    obtain rfl := List.mem_singleton.1 hmem
    exact hentry (hplain (by decide) (by decide))

def keyOnLength : Script :=
  ⟨"length.sql", "CREATE TABLE t (a varchar(20), b int, PRIMARY KEY (a(10)));"⟩

def keyWithBlank : Script :=
  ⟨"blank.sql", "CREATE TABLE t (\"order id\" int, \"order\" int, PRIMARY KEY (\"order id\"));"⟩

/-- A key misses a column that it lists with a length or by a name with blanks, and takes another
column for it. -/
theorem key_misses_column :
    (∃ m t c, Model.ofScripts .mySql [keyOnLength] = .ok m ∧ .table t ∈ m.objects ∧
      c ∈ t.columns ∧ t.Lists c.name ∧ c.nullable = true) ∧
    ∃ m t c e, Model.ofScripts .sqlite [keyWithBlank] = .ok m ∧ .table t ∈ m.objects ∧
      c ∈ t.columns ∧ t.Lists c.name ∧ c.nullable = true ∧
      e ∈ t.columns ∧ ¬ t.Lists e.name ∧ e.nullable = false := by
  constructor
  · have hread : (Model.ofScripts .mySql [keyOnLength]).map Model.outlines =
        .ok [([⟨none, .primaryKey, ["a(10)"], []⟩], [("a", true), ("b", true)])] := by
      decide +kernel
    obtain ⟨m, t, hm, ht, houtline⟩ := Model.exists_of_outlines hread
    obtain ⟨hconstraints, hcolumns⟩ := Prod.mk.inj houtline
    obtain ⟨c, hc, hname, hnull⟩ := t.exists_column "a" true
      (by rw [hcolumns]; decide)
    refine ⟨m, t, c, hm, ht, hc, ?_, hnull⟩
    rw [Table.Lists, hconstraints, hname]
    exact ⟨_, List.mem_singleton_self _, rfl, _, List.mem_singleton_self _, "(10)", "",
      .inr ⟨"10", by decide⟩, .inl rfl, by decide⟩
  · have hread : (Model.ofScripts .sqlite [keyWithBlank]).map Model.outlines =
        .ok [([⟨none, .primaryKey, ["order id"], []⟩], [("order id", true), ("order", false)])] := by
      decide +kernel
    obtain ⟨m, t, hm, ht, houtline⟩ := Model.exists_of_outlines hread
    obtain ⟨hconstraints, hcolumns⟩ := Prod.mk.inj houtline
    obtain ⟨c, hc, hname, hnull⟩ := t.exists_column "order id" true
      (by rw [hcolumns]; decide)
    obtain ⟨e, he, hother, hnotNull⟩ := t.exists_column "order" false
      (by rw [hcolumns]; decide)
    refine ⟨m, t, c, e, hm, ht, hc, ?_, hnull, he, ?_, hnotNull⟩
    · rw [Table.Lists, hconstraints, hname]
      exact ⟨_, List.mem_singleton_self _, rfl, _, List.mem_singleton_self _, "", "", .inl rfl,
        .inl rfl, by decide⟩
    · rw [hother]
      rintro ⟨k, hk, -, entry, hentry, size, direction, hsize, hdirection, heq⟩
      rw [hconstraints, List.mem_singleton] at hk
      subst hk
      obtain rfl := List.mem_singleton.1 hentry
      rcases hsize with rfl | ⟨length, rfl⟩
      · rcases hdirection with rfl | rfl
        · exact absurd heq (by decide)
        · exact absurd heq (by decide)
      · have hfifth := congrArg (fun s => s.toList[5]?) heq
        simp at hfifth

end SchemaDrift
