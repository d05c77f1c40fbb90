import SchemaDrift.Proofs.ElementGaps
import SchemaDrift.Proofs.InlineConstraints
import SchemaDrift.Proofs.Ordinals

namespace SchemaDrift

open Reader

namespace Constraint

variable {E : Option String → Option String → Prop} {js js' : List Constraint}

def orNamed (k : Constraint) (waiting : Option String) : Constraint :=
  { k with name := k.name.or waiting }

theorem renamed_refl (hE : ∀ n, E n n) (ks : List Constraint) :
    List.Forall₂ (Renamed E) ks ks :=
  List.forall₂_same.2 fun k _ => ⟨hE k.name, rfl, rfl, rfl⟩

theorem eq_of_renamed (h : List.Forall₂ (Renamed Eq) js js') : js = js' := by
  induction h with
  | nil => rfl
  | @cons k k' js js' hk _ ih =>
      obtain ⟨name, rule, columns, modifiers⟩ := k
      obtain ⟨rfl, rfl, rfl, rfl⟩ := hk
      rw [ih]

end Constraint

/-- The names of constraints have no part in which columns the primary keys list. -/
theorem mem_primaryKeyColumns_of_renamed {E : Option String → Option String → Prop} {t u : Table}
    {renamed : List Constraint} (h : List.Forall₂ (Constraint.Renamed E) t.constraints renamed)
    (hperm : u.constraints.Perm renamed) (name : String) :
    name ∈ t.primaryKeyColumns ↔ name ∈ u.primaryKeyColumns := by
  rw [Table.mem_primaryKeyColumns_iff, Table.mem_primaryKeyColumns_iff]
  simp only [hperm.mem_iff]
  clear hperm
  generalize t.constraints = ks at h
  induction h with
  | nil => rfl
  | cons hk _ ih =>
      rw [List.exists_mem_cons_iff, List.exists_mem_cons_iff, ih, hk.2.1, hk.2.2.1]

namespace Grammar

variable {d : Dialect}

structure IsColumn (d : Dialect) (ts : List Token) : Prop where
  ne_nil : ts ≠ []
  notOther : startsOther ts = false
  notKey : d = .mySql → MySql.keyKind ts = none

structure ReadsTo (d : Dialect) (ts : List Token) (r : ColumnDraft) (rest : List Token) :
    Prop where
  isColumn : IsColumn d ts
  reads : ∃ s mid, columnStart 1 d ts = .ok (some s, mid) ∧
    Passes (columnStep (Clauses.ofDialect d)) d s mid r rest

theorem tableElement_of_isColumn {ts : List Token} (h : IsColumn d ts) (t : Table) :
    tableElement (Clauses.ofDialect d) t d ts = (do
      let (c, lifted) ← column (Clauses.ofDialect d) (t.columns.length + 1)
      return { t with columns := t.columns ++ [c], constraints := t.constraints ++ lifted } :
        Reader Table) d ts := by
  have hother := h.notOther
  simp only [startsOther, Bool.or_eq_false_iff] at hother
  obtain ⟨⟨hlike, hperiod⟩, hconstraint⟩ := hother
  have hend : atEnd d ts = .ok (some false, ts) := by
    rw [atEnd, peek, List.isEmpty_eq_false_iff.2 h.ne_nil]
  have hclause : (Clauses.ofDialect d).tableElement t d ts = .ok (some none, ts) := by
    cases d with
    | postgres | sqlite | db2 => rfl
    | mySql =>
        change MySql.tableElement t .mySql ts = _
        unfold MySql.tableElement
        rw [bind_of_eq (p := peek MySql.keyKind) rfl, h.notKey rfl]
        rfl
  unfold tableElement
  rw [bind_of_eq hend, if_neg Bool.false_ne_true, bind_of_eq (p := peek (atKeyword "LIKE")) rfl,
    hlike, if_neg Bool.false_ne_true, bind_of_eq hclause]
  change (keywords ["PERIOD", "FOR", "SYSTEM_TIME"] >>= _) d ts = _
  rw [bind_of_eq (keywords_of_not hperiod), if_neg Bool.false_ne_true,
    bind_of_eq (p := peek startsConstraint) rfl, hconstraint, if_neg Bool.false_ne_true]

def ColumnDraft.at (r : ColumnDraft) (ordinal : Nat) : ColumnDraft :=
  { r with column := { r.column with ordinal := ordinal } }

def columnRest (clauses : Clauses) (r : ColumnDraft) : Reader (Column × List Constraint) := do
  let r ← untilEnd (columnStep clauses) r
  return (settle (← dialect) r.column, r.lifted)

/-- The column is read to the same place wherever it stands in the table. -/
theorem ReadsTo.column_eq {ts rest : List Token} {r : ColumnDraft} (h : ReadsTo d ts r rest)
    (ordinal : Nat) : column (Clauses.ofDialect d) ordinal d ts =
      columnRest (Clauses.ofDialect d) (r.at ordinal) d rest := by
  obtain ⟨s, mid, hstart, hpasses⟩ := h.reads
  obtain ⟨s', hstart', hs⟩ :=
    (together_columnStart (fun b => Eq.refl b) (fun n => Eq.refl n) 1 ordinal d ts).of_eq_some
      hstart
  obtain ⟨r', hpasses', hr⟩ := hpasses.together (fun _ _ h => together_columnStep h
    (Clauses.passMarks_ofDialect d) (fun b => Eq.refl b) fun n => Eq.refl n) hs
  have hplace : r' = r.at ordinal := by
    obtain ⟨⟨v, b, _, rfl, hcolumn, hcolumn'⟩, ⟨ks, ks', hks, hlifted, hlifted'⟩, hpending⟩ := hr
    obtain rfl := Constraint.eq_of_renamed hks
    obtain ⟨c, lifted, pending⟩ := r
    obtain ⟨c', lifted', pending'⟩ := r'
    dsimp only at hcolumn hcolumn' hlifted hlifted' hpending
    rw [hcolumn, hcolumn', hlifted, hlifted', hpending]
    rfl
  rw [column_eq_columnStart, bind_of_eq hstart']
  exact bind_congr_of_eq (hplace ▸ hpasses'.untilEnd_eq) _

def SameOrKeyed (rule : Rule) (b b' : Bool) : Prop := rule = .primaryKey ∨ b = b'

theorem SameOrKeyed.refl (rule : Rule) (b : Bool) : SameOrKeyed rule b b := .inr rfl

def SameOrUnnamed (waiting n n' : Option String) : Prop :=
  n = n' ∨ waiting ≠ none ∧ (n = none ∨ n' = none)

theorem SameOrUnnamed.refl (waiting n : Option String) : SameOrUnnamed waiting n n := .inl rfl

theorem equivalent_of_renamed {waiting : Option String} {k k' : Constraint}
    (h : k.Renamed (SameOrUnnamed waiting) k') : k.equivalent k' = true := by
  refine Constraint.equivalent_iff.2 ⟨h.2, ?_⟩
  rcases h.1 with hname | ⟨-, hnone | hnone⟩
  · exact .inr (.inr hname)
  · exact .inl hnone
  · exact .inr (.inl hnone)

theorem eq_of_renamed_unnamed {js js' : List Constraint}
    (h : List.Forall₂ (Constraint.Renamed (SameOrUnnamed none)) js js') : js = js' :=
  Constraint.eq_of_renamed (h.imp fun _ _ hsame =>
    ⟨hsame.1.resolve_right fun hwaits => hwaits.1 rfl, hsame.2⟩)

theorem together_columnRest {clauses : Clauses} (hclauses : clauses.PassMarks)
    {N : Bool → Bool → Prop} (hN : ∀ b, N b b) {E : Option String → Option String → Prop}
    (hE : ∀ n, E n n) {o o' : Nat} {ks ks' : List Constraint} {r s : ColumnDraft}
    (h : r.Beside N E o o' ks ks' s) :
    Together (fun a b => a.1.Beside N o o' b.1 ∧ ∃ js js',
      List.Forall₂ (Constraint.Renamed E) js js' ∧ a.2 = ks ++ js ∧ b.2 = ks' ++ js')
      (columnRest clauses r) (columnRest clauses s) := by
  refine (Together.untilEnd (fun _ _ h => together_columnStep h hclauses hN hE) h).bind
    fun r s h => .after fun d => .pure ⟨h.column.settle hN d, h.lifted⟩

theorem beside_lifting (r : ColumnDraft) (k : Constraint) :
    (r.lifting k).Beside (SameOrKeyed k.rule) (SameOrUnnamed r.pending) r.column.ordinal
      r.column.ordinal (r.lifted ++ [k]) r.lifted r where
  column := by
    unfold ColumnDraft.lifting
    dsimp only
    split
    · next hrule => exact ⟨r.column, false, r.column.nullable, .inl hrule, rfl, rfl⟩
    · exact ⟨r.column, r.column.nullable, r.column.nullable, .refl _ _, rfl, rfl⟩
  lifted := ⟨[], [], .nil, (List.append_nil _).symm, (List.append_nil _).symm⟩
  pending := by
    by_cases hnone : r.pending = none
    · exact .inl hnone.symm
    · exact .inr ⟨hnone, .inl rfl⟩

/-- A loop over the clauses of a column keeps its name. -/
theorem yields_columnRest_name {clauses : Clauses} (hclauses : clauses.KeepPlaces)
    (r : ColumnDraft) : Yields (fun p => p.1.name = r.column.name) (columnRest clauses r) := by
  refine (Yields.untilEnd (P := fun s => r.column.SamePlace s.column)
    (fun s hs => yields_columnStep hclauses hs) (.refl r.column)).bind
    fun s hs => .after fun d => .pure ?_
  unfold settle
  split <;> exact hs.name

/-- The tokens of a column with a constraint, of the column without it, and of the constraint as an
element. Without the constraint the column is read alike, up to where it stood, where a name may
wait for a constraint; and a primary key names the column by its first word. What is skipped before
the constraint does not count. -/
inductive IsRelocation (d : Dialect) :
    Option String → Constraint → List Token → List Token → List Token → Prop
  | mk {r : ColumnDraft} {name : Option String} {rule : Rule} {columns : List String}
      {before naming clause after moved element : List Token} {gap : List Char}
      (hinline : ReadsTo d (before ++ (naming ++ (clause ++ after))) r
        (naming ++ (clause ++ after)))
      (hplain : ReadsTo d (before ++ after) r after) (hnaming : IsNaming d name naming)
      (hmoved : IsMoved d r.column.name after rule columns clause moved)
      (helement : Token.regap gap element = naming ++ moved)
      (hkey : rule = .primaryKey → Table.keyWord r.column.name = some r.column.name) :
      IsRelocation d r.pending ⟨name, rule, columns, []⟩ (before ++ (naming ++ (clause ++ after)))
        (before ++ after) element

variable {waiting : Option String} {k : Constraint} {inline plain element us : List Token}
  {clauses : Clauses}

theorem renamed_orNamed (k : Constraint) (waiting : Option String) :
    (k.orNamed waiting).Renamed (SameOrUnnamed waiting) k := by
  refine ⟨?_, rfl, rfl, rfl⟩
  by_cases hnone : waiting = none
  · exact .inl (by rw [hnone, Constraint.orNamed, Option.or_none])
  · cases hname : k.name with
    | none => exact .inr ⟨hnone, .inr rfl⟩
    | some name => exact .inl (by rw [Constraint.orNamed, hname, Option.some_or])

def Keys (k : Constraint) (c : Column) : Prop :=
  k.rule = .primaryKey → ∃ entry ∈ k.columns, Table.keyWord entry = some c.name

theorem column_of_relocation (h : IsRelocation d waiting k inline plain element) {ordinal : Nat}
    {c : Column} {lifted : List Constraint} {rest : List Token}
    (hc : column (Clauses.ofDialect d) ordinal d inline = .ok (some (c, lifted), rest)) :
    ∃ c' front back back', lifted = front ++ k.orNamed waiting :: back ∧
      column (Clauses.ofDialect d) ordinal d plain = .ok (some (c', front ++ back'), rest) ∧
      List.Forall₂ (Constraint.Renamed (SameOrUnnamed waiting)) back back' ∧
      c.Beside (SameOrKeyed k.rule) ordinal ordinal c' ∧ Keys k c := by
  obtain @⟨r, name, rule, columns, before, naming, clause, after, moved, _, gap, hinline, hplain,
    hnaming, hmoved, helement, hkey⟩ := h
  have hpasses := passes_constraint (r := r.at ordinal) hnaming hmoved d
  rw [hinline.column_eq ordinal] at hc
  have hrest : columnRest (Clauses.ofDialect d)
      ((r.at ordinal).lifting ⟨name.or r.pending, rule, columns, []⟩) d after =
        .ok (some (c, lifted), rest) := by
    rw [← hc]
    exact (bind_congr_of_eq hpasses.untilEnd_eq _).symm
  have hbeside := beside_lifting (r.at ordinal) ⟨name.or r.pending, rule, columns, []⟩
  obtain ⟨⟨c', lifted'⟩, hplainRest, hcolumn, js, js', hjs, hlifted, hlifted'⟩ :=
    (together_columnRest (Clauses.passMarks_ofDialect d) (SameOrKeyed.refl rule)
      (SameOrUnnamed.refl r.pending) hbeside d after).of_eq_some hrest
  obtain rfl : lifted = r.lifted ++ [⟨name.or r.pending, rule, columns, []⟩] ++ js := hlifted
  obtain rfl : lifted' = r.lifted ++ js' := hlifted'
  refine ⟨c', r.lifted, js, js', List.append_assoc .., ?_, hjs, hcolumn, ?_⟩
  · rw [hplain.column_eq ordinal]
    exact hplainRest
  · have hname : c'.name = r.column.name :=
      yields_columnRest_name (Clauses.keepPlaces_ofDialect d) (r.at ordinal) _ _ _ _ hplainRest
    rintro rfl
    rw [← hcolumn.name_eq, hname]
    cases hmoved
    exact ⟨r.column.name, List.mem_singleton_self _, hkey rfl⟩

theorem IsRelocation.isColumn (h : IsRelocation d waiting k inline plain element) :
    IsColumn d inline ∧ IsColumn d plain := by
  obtain ⟨hinline, hplain, -, -, -, -⟩ := h
  exact ⟨hinline.isColumn, hplain.isColumn⟩

/-- The element is read as the constraint. -/
theorem IsRelocation.tableElement (h : IsRelocation d waiting k inline plain element) (t : Table) :
    ∃ rest, Grammar.tableElement (Clauses.ofDialect d) t d element =
      .ok (some { t with constraints := t.constraints ++ [k] }, rest) := by
  obtain @⟨r, name, rule, columns, before, naming, clause, after, moved, _, gap, -, -, hnaming,
    hmoved, helement, -⟩ := h
  obtain ⟨hstarts, hexclude, hconstraint⟩ := tableConstraint_of_moved hnaming hmoved
  have hread := tableElement_of_constraint hstarts hexclude hconstraint d t
  rw [← helement] at hread
  rcases ignoresGap_tableElement d t d gap element with hsame | ⟨found, hfound, hfound'⟩
  · exact ⟨[], hsame ▸ hread⟩
  · rw [hfound'] at hread
    exact ⟨element, hfound.trans (congrArg (fun found => Except.ok (found, element))
      (congrArg Prod.fst (Except.ok.inj hread)))⟩

/-- What the column adds to a table with the constraint, and what it adds without. -/
theorem tableElement_of_relocation (h : IsRelocation d waiting k inline plain element) {t u : Table}
    {rest : List Token}
    (hu : tableElement (Clauses.ofDialect d) t d inline = .ok (some u, rest)) :
    ∃ o c c' front back back',
      u = t.withBody (t.columns ++ [c]) (t.constraints ++ (front ++ k.orNamed waiting :: back)) ∧
      tableElement (Clauses.ofDialect d) t d plain =
        .ok (some (t.withBody (t.columns ++ [c']) (t.constraints ++ (front ++ back'))), rest) ∧
      List.Forall₂ (Constraint.Renamed (SameOrUnnamed waiting)) back back' ∧
      c.Beside (SameOrKeyed k.rule) o o c' ∧ Keys k c := by
  rw [tableElement_of_isColumn h.isColumn.1] at hu
  rw [tableElement_of_isColumn h.isColumn.2]
  obtain ⟨⟨c, lifted⟩, mid, hc, hu⟩ := bind_eq_some.1 hu
  obtain ⟨rfl, rfl⟩ := pure_eq_some.1 hu
  obtain ⟨c', front, back, back', rfl, hc', hback, hbeside, hkeys⟩ := column_of_relocation h hc
  refine ⟨_, c, c', front, back, back', rfl, ?_, hback, hbeside, hkeys⟩
  rw [bind_of_eq hc']
  rfl

theorem exists_of_tableElements_append {parts parts' : List (List Token)} {t w : Table}
    {rest : List Token}
    (h : tableElements clauses t (parts ++ parts') d us = .ok (some w, rest)) :
    ∃ u, tableElements clauses t parts d us = .ok (some u, us) ∧
      tableElements clauses u parts' d us = .ok (some w, rest) := by
  induction parts generalizing t with
  | nil => exact ⟨t, rfl, h⟩
  | cons part parts ih =>
      obtain ⟨next, mid, hpart, h⟩ := bind_eq_some.1 h
      obtain ⟨⟨left, hleft⟩, rfl⟩ := within_eq_some.1 hpart
      obtain ⟨u, hu, hw⟩ := ih h
      exact ⟨u, (tableElements_cons hleft parts).trans hu, hw⟩

/-- A constraint more among the elements is one more in the table. -/
theorem tableElements_insert (hclauses : clauses.PassBodies) {parts parts' : List (List Token)}
    {part : List Token} {t w : Table} {rest : List Token}
    (hpart : ∀ u, ∃ rest, tableElement clauses u d part =
      .ok (some { u with constraints := u.constraints ++ [k] }, rest))
    (h : tableElements clauses t (parts ++ parts') d us = .ok (some w, rest)) :
    ∃ ks, ks.Perm (k :: w.constraints) ∧
      tableElements clauses t (parts ++ part :: parts') d us =
        .ok (some (w.withBody w.columns ks), rest) := by
  obtain ⟨u, hu, hw⟩ := exists_of_tableElements_append h
  obtain ⟨left, hleft⟩ := hpart u
  have hbeside : u.Beside u.columns u.columns u.constraints (u.constraints ++ [k])
      { u with constraints := u.constraints ++ [k] } :=
    ⟨[], [], u, by simp [Table.withBody], by simp [Table.withBody]⟩
  obtain ⟨v, hv, columns, constraints, base, rfl, rfl⟩ :=
    (together_tableElements hclauses rfl parts' hbeside d us).of_eq_some hw
  refine ⟨u.constraints ++ [k] ++ constraints, ?_, ?_⟩
  · rw [List.append_assoc]
    exact List.perm_middle
  · rw [tableElements_append hu, tableElements_cons hleft, hv]
    rfl

/-- The elements with the constraint at its column, and the elements without it. -/
theorem tableElements_of_relocation (h : IsRelocation d waiting k inline plain element)
    {left right : List (List Token)} {t w : Table} {rest : List Token}
    (hw : tableElements (Clauses.ofDialect d) t (left ++ inline :: right) d us =
      .ok (some w, rest)) :
    ∃ (v : Table) (o : Nat) (c c' : Column) (before after : List Column)
      (front back back' : List Constraint),
      w = v.withBody (before ++ [c] ++ after) (front ++ k.orNamed waiting :: back) ∧
      tableElements (Clauses.ofDialect d) t (left ++ plain :: right) d us =
        .ok (some (v.withBody (before ++ [c'] ++ after) (front ++ back')), rest) ∧
      List.Forall₂ (Constraint.Renamed (SameOrUnnamed waiting)) back back' ∧
      c.Beside (SameOrKeyed k.rule) o o c' ∧ Keys k c := by
  obtain ⟨u, hu, hw⟩ := exists_of_tableElements_append hw
  obtain ⟨next, mid, hnext, hw⟩ := bind_eq_some.1 hw
  obtain ⟨⟨left', hinline⟩, rfl⟩ := within_eq_some.1 hnext
  obtain ⟨o, c, c', front, back, back', rfl, hplain, hback, hbeside, hkeys⟩ :=
    tableElement_of_relocation h hinline
  have hlength : (u.columns ++ [c]).length = (u.columns ++ [c']).length := by
    rw [List.length_append, List.length_append]
    rfl
  have hbodies : (u.withBody (u.columns ++ [c])
        (u.constraints ++ (front ++ k.orNamed waiting :: back))).Beside
      (u.columns ++ [c]) (u.columns ++ [c'])
      (u.constraints ++ (front ++ k.orNamed waiting :: back)) (u.constraints ++ (front ++ back'))
      (u.withBody (u.columns ++ [c']) (u.constraints ++ (front ++ back'))) :=
    ⟨[], [], u, by simp only [List.append_nil], by simp only [List.append_nil]⟩
  obtain ⟨w', hw', columns, constraints, v, rfl, rfl⟩ :=
    (together_tableElements (Clauses.passBodies_ofDialect d) hlength right hbodies d
      us).of_eq_some hw
  refine ⟨v, o, c, c', u.columns, columns, u.constraints ++ front, back ++ constraints,
    back' ++ constraints, ?_, ?_, ?_, hbeside, hkeys⟩
  · simp only [List.append_assoc, List.cons_append]
  · rw [tableElements_append hu, tableElements_cons hplain, hw']
    simp only [List.append_assoc]
  · exact List.rel_append hback (Constraint.renamed_refl (SameOrUnnamed.refl waiting) constraints)

theorem keyed_congr {keys keys' : List String} (h : ∀ name, name ∈ keys ↔ name ∈ keys') :
    Table.keyed keys = Table.keyed keys' := by
  funext c
  have hsame : keys.contains c.name = keys'.contains c.name := by
    rw [Bool.eq_iff_iff, List.contains_iff_mem, List.contains_iff_mem, h]
  rw [Table.keyed, Table.keyed, hsame]

theorem keyed_beside {keys : List String} {rule : Rule} {o : Nat} {c c' : Column}
    (h : c.Beside (SameOrKeyed rule) o o c') (hc : rule = .primaryKey → c.name ∈ keys) :
    Table.keyed keys c = Table.keyed keys c' := by
  obtain ⟨v, b, b', hrule | rfl, rfl, rfl⟩ := h
  · have hname : keys.contains v.name = true := List.contains_iff_mem.2 (hc hrule)
    rw [Table.keyed, Table.keyed]
    exact (if_pos hname).trans (if_pos hname).symm
  · rfl

/-- Primary keys make the columns of the two tables the same. -/
theorem enforcePrimaryKey_of_relocation (v : Table) {o : Nat} {c c' : Column}
    (hbeside : c.Beside (SameOrKeyed k.rule) o o c') (hkeys : Keys k c) (before after : List Column)
    {E : Option String → Option String → Prop} {constraints renamed ks : List Constraint}
    (hrenamed : List.Forall₂ (Constraint.Renamed E) constraints renamed) (hperm : ks.Perm renamed)
    (hk : k.orNamed waiting ∈ constraints) :
    ∃ columns,
      (v.withBody (before ++ [c] ++ after) constraints).enforcePrimaryKey =
        v.withBody columns constraints ∧
      (v.withBody (before ++ [c'] ++ after) ks).enforcePrimaryKey = v.withBody columns ks := by
  generalize hw : v.withBody (before ++ [c] ++ after) constraints = w
  generalize hw' : v.withBody (before ++ [c'] ++ after) ks = w'
  have hconstraints : w.constraints = constraints := hw ▸ rfl
  have hconstraints' : w'.constraints = ks := hw' ▸ rfl
  have hsame : Table.keyed w'.primaryKeyColumns = Table.keyed w.primaryKeyColumns :=
    keyed_congr fun name => (mem_primaryKeyColumns_of_renamed (hconstraints ▸ hrenamed)
      (hconstraints' ▸ hperm) name).symm
  have hkeyed : Table.keyed w.primaryKeyColumns c = Table.keyed w.primaryKeyColumns c' := by
    refine keyed_beside hbeside fun hrule => ?_
    obtain ⟨entry, hentry, hword⟩ := hkeys hrule
    exact Table.mem_primaryKeyColumns_iff.2
      ⟨k.orNamed waiting, hconstraints ▸ hk, hrule, entry, hentry, hword⟩
  rw [Table.enforcePrimaryKey_eq, Table.enforcePrimaryKey_eq, hsame]
  subst hw hw'
  refine ⟨_, rfl, ?_⟩
  change v.withBody ((before ++ [c'] ++ after).map _) ks = _
  rw [List.map_append, List.map_append, List.map_singleton, ← hkeyed, ← List.map_singleton,
    ← List.map_append, ← List.map_append]
  rfl

/-- A table with a constraint at one of its columns, and the table with the constraint among its
elements. -/
theorem declared_of_relocation (h : IsRelocation d waiting k inline plain element)
    {name : QualifiedName} {left right left' right' : List (List Token)}
    (horder : left' ++ right' = left ++ plain :: right) {t : Table} {rest : List Token}
    (ht : declared (Clauses.ofDialect d) name (left ++ inline :: right) d us =
      .ok (some t, rest)) :
    ∃ renamed ks,
      List.Forall₂ (Constraint.Renamed (SameOrUnnamed waiting)) t.constraints renamed ∧
      ks.Perm renamed ∧ k.orNamed waiting ∈ t.constraints ∧ k ∈ ks ∧
      declared (Clauses.ofDialect d) name (left' ++ element :: right') d us =
        .ok (some (t.withBody t.columns ks), rest) := by
  obtain ⟨w, mid, hw, ht⟩ := bind_eq_some.1 ht
  obtain rfl := eq_of_tableElements hw
  obtain ⟨v, o, c, c', before, after, front, back, back', rfl, hplain, hback, hbeside, hkeys⟩ :=
    tableElements_of_relocation h hw
  rw [← horder] at hplain
  obtain ⟨ks, hperm, hmoved⟩ := tableElements_insert (Clauses.passBodies_ofDialect d)
    h.tableElement hplain
  have hrenamed : List.Forall₂ (Constraint.Renamed (SameOrUnnamed waiting))
      (front ++ k.orNamed waiting :: back) (front ++ k :: back') :=
    List.rel_append (Constraint.renamed_refl (SameOrUnnamed.refl waiting) front)
      (.cons (renamed_orNamed k waiting) hback)
  have hperm : ks.Perm (front ++ k :: back') := hperm.trans List.perm_middle.symm
  have hk : k.orNamed waiting ∈ front ++ k.orNamed waiting :: back :=
    List.mem_append_right _ List.mem_cons_self
  obtain ⟨columns, hinline, hafter⟩ :=
    enforcePrimaryKey_of_relocation v hbeside hkeys before after hrenamed hperm hk
  rw [hinline] at ht
  have hbodies : (v.withBody columns (front ++ k.orNamed waiting :: back)).Bodies columns columns
      (front ++ k.orNamed waiting :: back) ks (v.withBody columns ks) :=
    ⟨v, rfl, rfl⟩
  obtain ⟨u, hu, base, rfl, rfl⟩ := (Together.untilEnd
    (fun _ _ h => together_tableStep (Clauses.passBodies_ofDialect d) h) hbodies d
      _).of_eq_some ht
  have hk' : k ∈ ks := hperm.mem_iff.2 (List.mem_append_right front List.mem_cons_self)
  refine ⟨_, ks, hrenamed, hperm, hk, hk', ?_⟩
  unfold declared
  rw [bind_of_eq hmoved]
  change untilEnd _ (v.withBody (before ++ [c'] ++ after) ks).enforcePrimaryKey d _ = _
  rw [hafter]
  exact hu

end Grammar

end SchemaDrift
