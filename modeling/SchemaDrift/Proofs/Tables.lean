import SchemaDrift.Proofs.Phrases
import SchemaDrift.Proofs.Verbatim

namespace SchemaDrift.Grammar

open Reader

variable {d : Dialect} {total : Prop}

def SameType (a b : ParsedType) : Prop :=
  a.dataType.unspelled = b.dataType.unspelled ∧ a.serial = b.serial

theorem firstTypeWord_asciiUpper (s : List Char) :
    firstTypeWord (Text.asciiUpper s) = firstTypeWord s := by
  have hquote (c : Char) : (c.toUpper == '"') = (c == '"') :=
    Text.apply_toUpper (f := (· == '"')) (by decide) c
  rw [firstTypeWord, Text.dropWhile_asciiUpper s hquote]
  rw [Text.asciiUpper, ← List.map_reverse, ← Text.asciiUpper, Text.dropWhile_asciiUpper _ hquote]
  rw [Text.asciiUpper, ← List.map_reverse, ← Text.asciiUpper, Text.upper_asciiUpper]
  rfl

theorem map_canonicalSql_eq {parts parts' : List (List Token)}
    (h : List.Forall₂ (Alike d total) parts parts') :
    parts.map (fun p => canonicalSql d (Token.span p)) =
      parts'.map (fun p => canonicalSql d (Token.span p)) := by
  induction h with
  | nil => rfl
  | cons h _ ih =>
      rw [List.map_cons, List.map_cons, ih,
        SameSource.canonicalSql_eq ⟨_, _, h, rfl, rfl⟩]

theorem steady_typeStep (t : TypeDraft) : Steady d total (typeStep t) := by
  refine (Agrees.peek (R := Alike d total) (fun _ _ h => h)).bind fun ts us h => ?_
  have hfind : (fun ks => atKeywords ks ts) = fun ks => atKeywords ks us :=
    funext fun ks => h.eq_of (atKeywords_map_folded · ks)
  have hopen : atSymbol "(" ts = atSymbol "(" us := h.eq_of (atSymbol_map_folded · "(")
  have hbracket : atSymbol "[" ts = atSymbol "[" us := h.eq_of (atSymbol_map_folded · "[")
  have hclose : headIs (fun u => u.text == [']']) ts.tail =
      headIs (fun u => u.text == [']']) us.tail :=
    h.tail.eq_of (headIs_map_folded · Token.text_folded_beq_closingBracket)
  dsimp only [id]
  rw [hfind, hopen, hbracket, hclose]
  cases continuations.find? (fun ks => atKeywords ks us) with
  | some ks => exact .after (.keywords ks) fun _ => .pure rfl
  | none =>
      refine .ite ?_ (.ite ?_ (.pure rfl))
      · refine .withDialect (Agrees.group.bind fun ts us h => .pure ?_)
        rw [map_canonicalSql_eq h.splitCommas]
      · exact .after .skip fun _ => .after .skip fun _ => .pure rfl

theorem steady_typeWords : Steady d total typeWords := by
  refine Agrees.advance.bind fun t u h => ?_
  have hf : t.folded = u.folded := (List.cons.inj h.folded).1
  have hname : t.isName = u.isName := by rw [← t.isName_folded, hf, u.isName_folded]
  have hword : firstTypeWord t.text = firstTypeWord u.text :=
    Token.apply_text_of_folded firstTypeWord_asciiUpper hf
  rw [hname, hword]
  refine .ite .fail (.after .peekUpper fun next => ?_)
  cases next with
  | none => exact Steady.iterate steady_typeStep _
  | some next =>
      refine .ite (.after .skip fun _ => ?_) ?_
      · exact Steady.iterate steady_typeStep _
      · exact Steady.iterate steady_typeStep _

theorem agrees_typeName : Agrees d total SameType typeName typeName := by
  refine Agrees.bind (Agrees.withSource steady_typeWords) fun p p' h => ?_
  obtain ⟨t, s⟩ := p
  obtain ⟨t', s'⟩ := p'
  refine .pure ?_
  obtain rfl : t = t' := h.1
  exact ⟨rfl, rfl⟩

structure SameDraft (d : Dialect) (r r' : ColumnDraft) : Prop where
  column : r.column.settled d = r'.column.settled d
  lifted : r.lifted = r'.lifted
  pending : r.pending = r'.pending

theorem settled_attribute {c c' : Column} (h : c.settled d = c'.settled d) {clause clause' : String}
    (hclause : settledClause d clause = settledClause d clause') :
    Column.settled d { c with attributes := c.attributes ++ [clause] } =
      Column.settled d { c' with attributes := c'.attributes ++ [clause'] } := by
  have happend (c : Column) (s : String) :
      Column.settled d { c with attributes := c.attributes ++ [s] } =
        { c.settled d with attributes := (c.settled d).attributes ++ [settledClause d s] } := by
    simp [Column.settled, Column.unspelled]
  rw [happend, happend, h, hclause]

namespace SameDraft

variable {r r' : ColumnDraft}

theorem lift (h : SameDraft d r r') (rule : Rule) (columns : List String) :
    SameDraft d (r.lift rule columns) (r'.lift rule columns) where
  column := h.column
  lifted := by simp only [ColumnDraft.lift, h.lifted, h.pending]
  pending := rfl

theorem liftOwn (h : SameDraft d r r') (rule : Rule) :
    SameDraft d (r.liftOwn rule) (r'.liftOwn rule) := by
  have hname : (r.column.settled d).name = (r'.column.settled d).name := by rw [h.column]
  change SameDraft d (r.lift rule [(r.column.settled d).name]) (r'.lift rule _)
  rw [hname]
  exact h.lift rule _

theorem update (h : SameDraft d r r') {f : Column → Column}
    (hf : ∀ c, (f c).settled d = f (c.settled d)) :
    SameDraft d { r with column := f r.column } { r' with column := f r'.column } where
  column := by rw [hf, h.column, hf]
  lifted := h.lifted
  pending := h.pending

theorem withGeneration (h : SameDraft d r r') (g : Generation) :
    SameDraft d (r.withGeneration g) (r'.withGeneration g) :=
  h.update (f := fun c => { c with generation := g }) (fun _ => rfl)

theorem withAttribute (h : SameDraft d r r') {clause clause' : String}
    (hclause : settledClause d clause = settledClause d clause') :
    SameDraft d (r.withAttribute clause) (r'.withAttribute clause') where
  column := settled_attribute h.column hclause
  lifted := h.lifted
  pending := h.pending

end SameDraft

section

variable {r r' : ColumnDraft} (h : SameDraft d r r')

include h

theorem agrees_generated : Agrees d total (SameDraft d) (generated r) (generated r') := by
  refine .after (.keyword _) fun _ => .joined (.keywords _) ?_
  refine .after (.keywords _) fun _ => .ite ?_ ?_
  · exact .after .skipGroup fun _ => .pure (h.withGeneration _)
  refine .after (.keywords _) fun _ => .ite (.pure (h.withGeneration _)) ?_
  refine .after (.keywords _) fun _ => .ite (.pure (h.withGeneration _)) ?_
  refine .after (.keywords _) fun _ => .ite (.pure (h.withGeneration _)) ?_
  refine .after (.keywords _) fun _ => .ite (.pure (h.withGeneration _)) ?_
  refine .after (.keyword _) fun _ => .ite ?_ ?_
  · refine Agrees.groupText.optional.bind fun _ _ hs => ?_
    refine (steady_canonicalExpression (Agrees.getD_nil hs)).bind fun _ _ heq => ?_
    subst heq
    exact .after (.oneOf _) fun _ => .pure (h.withGeneration _)
  exact .after (.keywords _) fun _ => .ite (.pure (h.withAttribute rfl)) (.pure (h.withAttribute rfl))

theorem agrees_looseClause (word : String) :
    Agrees d total (SameDraft d) (looseClause r word) (looseClause r' word) := by
  refine Agrees.groupText.optional.bind fun args args' hargs => ?_
  cases hargs with
  | none => exact .pure (h.withAttribute rfl)
  | some hargs => exact (steady_canonical hargs).bind fun _ _ heq => .pure (h.withAttribute (by rw [heq]))

theorem agrees_defaultClause :
    Agrees d total (SameDraft d) (defaultClause r) (defaultClause r') := by
  refine .withDialect ?_
  refine (Agrees.sourceUntil _).bind fun s s' hs => ?_
  rw [ofText_eq hs]
  refine .pure ⟨?_, h.lifted, h.pending⟩
  split
  · exact (h.update (f := fun c => { c with
      default := (DefaultValue.ofText d s').text?, generation := .identity }) fun _ => rfl).column
  · exact (h.update (f := fun c => { c with
      default := (DefaultValue.ofText d s').text? }) fun _ => rfl).column

theorem agrees_clauseAfter (word : String) :
    Agrees d total (SameDraft d) (clauseAfter r word) (clauseAfter r' word) := by
  have hgroup {f g : List Char → Reader ColumnDraft}
      (hf : ∀ s t, SameSource d total s t → Agrees d total (SameDraft d) (f s) (g t)) :
      Agrees d total (SameDraft d) (do f ((← optional groupText).getD []))
        (do g ((← optional groupText).getD [])) :=
    Agrees.groupText.optional.bind fun _ _ hs => hf _ _ (Agrees.getD_nil hs)
  fun_cases clauseAfter r word
  all_goals simp only [clauseAfter]
  case case1 => exact .pure (h.update (f := fun c => { c with nullable := true }) fun _ => rfl)
  case case2 => exact agrees_defaultClause h
  case case3 => exact .after Steady.identifier.optional fun name => .pure ⟨h.column, h.lifted, rfl⟩
  case case4 => exact .after (.keyword _) fun _ => .pure (h.liftOwn _)
  case case5 =>
      refine Agrees.groupText.optional.bind fun _ _ hs => ?_
      refine (steady_canonicalExpression (Agrees.getD_nil hs)).bind fun _ _ heq => ?_
      subst heq
      exact .pure (h.lift _ _)
  case case6 => exact agrees_generated h
  case case7 =>
      refine Agrees.groupText.optional.bind fun _ _ hs => ?_
      refine (steady_canonicalExpression (Agrees.getD_nil hs)).bind fun _ _ heq => ?_
      subst heq
      exact .after (.oneOf _) fun _ => .pure (h.withGeneration _)
  case case8 | case9 | case10 => exact .after .skipGroup fun _ => .pure (h.withGeneration _)
  case case11 =>
      refine Agrees.valueOr.bind fun _ _ hs => ?_
      exact (steady_canonical hs).bind fun _ _ heq => .pure (h.withAttribute (by rw [heq]))
  case case12 =>
      refine Agrees.valueOr.bind fun s s' hs => .pure (h.withAttribute ?_)
      rw [settledClause_append (by decide), settledClause_append (by decide), hs.canonicalSql_eq]
  case case13 | case14 =>
      refine .after (.keyword _) fun _ => ?_
      refine Agrees.valueOr.bind fun _ _ hs => ?_
      exact (steady_canonical hs).bind fun _ _ heq => .pure (h.withAttribute (by rw [heq]))
  case case15 => exact agrees_looseClause h word

end

structure Clauses.Agree (d : Dialect) (total : Prop) (clauses : Clauses) : Prop where
  createOption : Steady d total clauses.createOption
  createForm : Steady d total clauses.createForm
  tableElement : ∀ {t t' : Table}, t.settled d = t'.settled d →
    Agrees d total (Option.Rel fun t t' => t.settled d = t'.settled d)
      (clauses.tableElement t) (clauses.tableElement t')
  tableClause : ∀ {t t' : Table}, t.settled d = t'.settled d →
    Agrees d total (Option.Rel fun t t' => t.settled d = t'.settled d)
      (clauses.tableClause t) (clauses.tableClause t')
  columnClause : ∀ {c c' : Column}, c.settled d = c'.settled d →
    Agrees d total (Option.Rel fun c c' => c.settled d = c'.settled d)
      (clauses.columnClause c) (clauses.columnClause c')
  indexClause : ∀ i, Steady d total (clauses.indexClause i)

theorem agrees_columnStep {clauses : Clauses} (hclauses : clauses.Agree d total)
    {r r' : ColumnDraft} (h : SameDraft d r r') :
    Agrees d total (SameDraft d) (columnStep clauses r) (columnStep clauses r') := by
  refine (hclauses.columnClause h.column).bind fun c c' hc => ?_
  cases hc with
  | some hc => exact .pure ⟨hc, h.lifted, h.pending⟩
  | none =>
      have hnotNull : SameDraft d { r with column := { r.column with nullable := false } }
          { r' with column := { r'.column with nullable := false } } :=
        h.update (f := fun c => { c with nullable := false }) fun _ => rfl
      refine .after .peekUpper fun word => ?_
      dsimp only
      split
      · exact .after .skip fun _ => .pure h
      · exact .after steady_references fun _ => .pure (h.liftOwn _)
      · next word _ =>
          refine .after (.keywords _) fun _ => .ite (.pure hnotNull) ?_
          refine .after (.keywords _) fun _ => .ite ?_ ?_
          · exact .after (.oneOf _) fun _ => .pure (hnotNull.liftOwn _)
          refine .after (.keywords _) fun _ => .ite ?_ ?_
          · refine (Agrees.sourceUntil _).bind fun _ _ hs => ?_
            refine (steady_canonicalExpression hs).bind fun _ _ heq => .pure (h.withAttribute ?_)
            rw [heq]
          exact .after .skip fun _ => agrees_clauseAfter h word

theorem startsTypeless_map_folded (ts : List Token) :
    startsTypeless (ts.map Token.folded) = startsTypeless ts := by
  have hsymbol : headIs (fun t => t.kind == .symbol) (ts.map Token.folded) =
      headIs (fun t => t.kind == .symbol) ts :=
    headIs_map_folded ts (fun _ => rfl)
  simp [startsTypeless, hsymbol]

theorem agrees_columnType : Agrees d total SameType columnType columnType :=
  .after (.peek startsTypeless_map_folded) fun _ => .ite (.pure ⟨rfl, rfl⟩) agrees_typeName

theorem settled_settle (d' : Dialect) (c : Column) :
    (settle d' c).settled d = settle d' (c.settled d) := by
  unfold settle
  change _ = if d' = .postgres ∧ c.generation = .identity then _ else _
  split <;> rfl

theorem agrees_column {clauses : Clauses} (hclauses : clauses.Agree d total) (ordinal : Nat) :
    Agrees d total (fun a b => a.1.settled d = b.1.settled d ∧ a.2 = b.2)
      (column clauses ordinal) (column clauses ordinal) := by
  refine .after .identifier fun name => ?_
  refine agrees_columnType.bind fun t t' ht => ?_
  have hstart : SameDraft d
      ⟨⟨name, t.dataType, true, none, if t.serial then .identity else .plain, ordinal, []⟩, [], none⟩
      ⟨⟨name, t'.dataType, true, none, if t'.serial then .identity else .plain, ordinal, []⟩, [],
        none⟩ := by
    refine ⟨?_, rfl, rfl⟩
    simp only [Column.settled, Column.unspelled, ht.1, ht.2]
  refine (Agrees.untilEnd (fun r r' h => agrees_columnStep hclauses h) hstart).bind
    fun r r' h => .withDialect (.pure ⟨?_, h.lifted⟩)
  rw [settled_settle, h.column, settled_settle]

theorem steady_methodWords (words : List String) : Steady d total (methodWords words) := by
  refine Steady.iterate (fun words => .after .peekUpper fun word => ?_) words
  cases word with
  | none => exact .pure rfl
  | some word => exact .after .skip fun _ => .pure rfl

theorem agrees_partCount :
    Agrees d total (fun a b => a.map (settledClause d) = b.map (settledClause d))
      partCount partCount := by
  refine .after (.keyword _) fun _ => .ite ?_ (.pure rfl)
  refine Agrees.advance.optional.bind fun t u h => ?_
  cases h with
  | none => exact .pure rfl
  | @some t u h =>
      refine .pure ?_
      have hsource : SameSource d total t.text u.text :=
        ⟨[t], [u], h, (List.append_nil _).symm, (List.append_nil _).symm⟩
      simp only [List.map_cons, List.map_nil]
      rw [settledClause_append (by decide), settledClause_append (by decide),
        hsource.canonicalSql_eq]

theorem steady_partList : Steady d total partList := by
  refine .withDialect (Agrees.group.optional.bind fun ts us h => ?_)
  cases h with
  | none => exact .pure rfl
  | some h => exact .pure (map_canonicalSql_eq h.splitCommas)

theorem agrees_partition :
    Agrees d total (fun a b => a.settled d = b.settled d) partition partition := by
  refine .after (steady_methodWords []) fun method => ?_
  refine Agrees.groupText.bind fun _ _ hs => ?_
  refine (steady_canonical hs).bind fun key _ heq => ?_
  subst heq
  refine agrees_partCount.bind fun count count' hcount => ?_
  refine .after steady_partList fun parts => .pure ?_
  simp only [Partition.settled, List.map_append, hcount]

section

variable {t t' : Table} (h : t.settled d = t'.settled d)

include h

/-- Two tables changed in one way, as far as their settled forms show. -/
theorem settled_congr (F : Table → Table) {u u' : Table} (hu : u.settled d = F (t.settled d))
    (hu' : u'.settled d = F (t'.settled d)) : u.settled d = u'.settled d := by
  rw [hu, h, hu']

theorem settled_option (k v : String) :
    Table.settled d { t with options := t.options.insert k v } =
      Table.settled d { t' with options := t'.options.insert k v } :=
  settled_congr h (fun t => { t with options := t.options.insert k v }) rfl rfl

theorem settled_partition {p p' : Option Partition}
    (hp : Option.Rel (fun a b => a.settled d = b.settled d) p p') :
    Table.settled d { t with storage := { t.storage with partition := p } } =
      Table.settled d { t' with storage := { t'.storage with partition := p' } } := by
  have hpartition : p.map (Partition.settled d) = p'.map (Partition.settled d) := by
    cases hp with
    | none => rfl
    | some hp => rw [Option.map_some, Option.map_some, hp]
  refine settled_congr h (fun t => { t with storage :=
    { t.storage with partition := p.map (Partition.settled d) } }) rfl ?_
  rw [hpartition]
  rfl

theorem agrees_partitionClause :
    Agrees d total (Option.Rel fun t t' => t.settled d = t'.settled d)
      (do return some { t with storage := { t.storage with partition := ← optional partition } })
      (do return some { t' with storage :=
        { t'.storage with partition := ← optional partition } }) :=
  agrees_partition.optional.bind fun _ _ hp => .pure (.some (settled_partition h hp))

end

namespace Postgres

theorem startsParameters_map_folded (ts : List Token) :
    startsParameters (ts.map Token.folded) = startsParameters ts := by
  have hopen : headIs (fun t => t.text == ['(']) (ts.tail.map Token.folded) =
      headIs (fun t => t.text == ['(']) ts.tail :=
    headIs_map_folded ts.tail Token.text_folded_beq_opening
  simp [startsParameters, ← List.map_tail, hopen]

theorem steady_parents : Steady d total parents := by
  refine Agrees.group.optional.bind fun ts us h => ?_
  cases h with
  | none => exact .pure rfl
  | some h =>
      refine (Agrees.eachOf Steady.qualifiedName.optional h.splitCommas).bind fun names _ hs => ?_
      rw [forall₂_eq hs]
      exact .pure rfl

theorem agrees_tableClause {t t' : Table} (h : t.settled d = t'.settled d) :
    Agrees d total (Option.Rel fun t t' => t.settled d = t'.settled d)
      (tableClause t) (tableClause t') := by
  refine .after (.keywords _) fun _ => .ite (agrees_partitionClause h) ?_
  refine .after (.keyword _) fun _ => .ite ?_ ?_
  · exact .after steady_parents fun _ => .pure (.some (settled_option h _ _))
  refine .after (.keyword _) fun _ => .ite ?_ ?_
  · exact .after Steady.identifier.optional fun space => .pure (.some (settled_congr h
      (fun t => { t with storage := { t.storage with placement := space } }) rfl rfl))
  refine .after (.peek startsParameters_map_folded) fun _ => .ite ?_ ?_
  · refine .after .skip fun _ => ?_
    refine Agrees.groupText.optional.bind fun _ _ hs => ?_
    refine (steady_canonical (Agrees.getD_nil hs)).bind fun _ _ heq => ?_
    subst heq
    exact .pure (.some (settled_option h _ _))
  refine .after (.keywords _) fun _ => .ite (.pure (.some h)) ?_
  refine .after (.keywords _) fun _ => .ite (.pure (.some h)) ?_
  refine .after (.keywords _) fun _ => .ite ?_ ?_
  · refine (Agrees.sourceUntil _).bind fun _ _ hs => ?_
    refine (steady_canonical hs).bind fun _ _ heq => ?_
    subst heq
    exact .pure (.some (settled_option h _ _))
  refine .after (.keyword _) fun _ => .ite ?_ (.pure .none)
  refine .after Steady.identifier.optional fun method => .pure ?_
  split
  · exact .some h
  · exact .some (settled_option h _ _)

theorem steady_indexClause (i : Index) : Steady d total (indexClause i) := by
  refine .after (.keywords _) fun _ => .ite (.pure rfl) ?_
  exact .after (.keywords _) fun _ => .ite (.pure rfl) (.pure rfl)

theorem agree : clauses.Agree d total where
  createOption := .pure rfl
  createForm := .fail
  tableElement := fun _ => .pure .none
  tableClause := agrees_tableClause
  columnClause := fun _ => .pure .none
  indexClause := steady_indexClause

end Postgres

namespace Sqlite

theorem steady_arguments : Steady d total arguments := by
  refine .withDialect (Agrees.group.optional.bind fun ts us h => ?_)
  cases h with
  | none => exact .pure rfl
  | some h => exact .pure (map_canonicalSql_eq h.splitCommas)

theorem steady_createForm : Steady d total createForm := by
  refine .after (.oneOf _) fun _ => ?_
  refine .after (.keywords _) fun _ => .ite ?_ .fail
  refine .after (.keywords _) fun _ => ?_
  refine .after .qualifiedName fun name => ?_
  refine .after (.keyword _) fun _ => .ite ?_ .fail
  refine .after .identifier fun module => ?_
  exact .after steady_arguments fun _ => .pure rfl

theorem agrees_tableClause {t t' : Table} (h : t.settled d = t'.settled d) :
    Agrees d total (Option.Rel fun t t' => t.settled d = t'.settled d)
      (tableClause t) (tableClause t') := by
  refine .after (.keywords _) fun _ => .ite (.pure (.some (settled_option h _ _))) ?_
  exact .after (.keyword _) fun _ => .ite (.pure (.some (settled_option h _ _))) (.pure .none)

theorem agrees_columnClause {c c' : Column} (h : c.settled d = c'.settled d) :
    Agrees d total (Option.Rel fun c c' => c.settled d = c'.settled d)
      (columnClause c) (columnClause c') := by
  refine .after (.keywords _) fun _ => .ite ?_ (.pure .none)
  refine .after .peekUpper fun action => ?_
  cases action with
  | none => exact .pure (.some h)
  | some action => exact .after .skip fun _ => .pure (.some (settled_attribute h rfl))

theorem agree : clauses.Agree d total where
  createOption := .pure rfl
  createForm := steady_createForm
  tableElement := fun _ => .pure .none
  tableClause := agrees_tableClause
  columnClause := agrees_columnClause
  indexClause := fun _ => .pure rfl

end Sqlite

namespace MySql

theorem steady_hosts (u : Unit) : Steady d total (hosts u) := by
  refine Steady.iterate (fun _ => .after (.symbol _) fun _ => .ite ?_ (.pure rfl)) u
  exact Agrees.value.optional.bind fun _ _ _ => .pure rfl

theorem steady_createOption : Steady d total createOption := by
  refine .after (.keyword _) fun _ => .ite ?_ ?_
  · refine .after (.symbol _) fun _ => ?_
    refine Agrees.value.optional.bind fun _ _ _ => ?_
    refine .after .skipGroup fun _ => ?_
    exact .after (steady_hosts ()) fun _ => .pure rfl
  refine .after (.keyword _) fun _ => .ite ?_ ?_
  · exact .after (.symbol _) fun _ => .after .skip fun _ => .pure rfl
  exact .after (.keywords _) fun _ => .ite (.after .skip fun _ => .pure rfl) (.pure rfl)

theorem steady_indexClause (i : Index) : Steady d total (indexClause i) := by
  refine .after (.keyword _) fun _ => .ite (.after steady_assigned.optional fun _ => .pure rfl) ?_
  refine .after (.keyword _) fun _ => .ite (.after steady_assigned.optional fun _ => .pure rfl) ?_
  refine .after (.keyword _) fun _ => .ite ?_ ?_
  · refine .after Steady.identifier.optional fun method => ?_
    cases method with
    | none => exact .pure rfl
    | some method => exact .ite (.pure rfl) (.pure rfl)
  refine .after (.keyword _) fun _ => .ite ?_ ?_
  · refine .after steady_assigned.optional fun comment => ?_
    cases comment <;> exact .pure rfl
  refine .after (.keyword _) fun _ => .ite (.pure rfl) ?_
  exact .after (.keyword _) fun _ => .ite (.pure rfl) (.pure rfl)

theorem startsKey_map_folded (ts : List Token) :
    startsKey (ts.map Token.folded) = startsKey ts := by
  match ts with
  | [] => rfl
  | [t] => simp [startsKey, atKeyword, headIs]
  | [t, name] => simp [startsKey, atKeyword, headIs]
  | t :: name :: u :: ts =>
      simp [startsKey, atKeyword, headIs, Function.comp_def]

theorem keyKind_map_folded (ts : List Token) : keyKind (ts.map Token.folded) = keyKind ts := by
  simp only [keyKind, atKeyword_map_folded, startsKey_map_folded]

theorem steady_keyOption (i : Index) : Steady d total (keyOption i) := by
  refine .after (steady_indexClause i) fun i' => ?_
  cases i' with
  | some i => exact .pure rfl
  | none => exact .after (steady_looseOption _) fun _ => .pure rfl

theorem agrees_tableElement {t t' : Table} (h : t.settled d = t'.settled d) :
    Agrees d total (Option.Rel fun t t' => t.settled d = t'.settled d)
      (tableElement t) (tableElement t') := by
  have hname : (t.settled d).name = (t'.settled d).name := by rw [h]
  change t.name = t'.name at hname
  refine .after (.peek keyKind_map_folded) fun kind => ?_
  cases kind with
  | none => exact .pure .none
  | some kind =>
      rw [hname]
      refine .joined .skip ?_
      refine .after (.oneOf _) fun _ => ?_
      refine .after (.peek fun ts => by simp) fun _ => ?_
      refine .iteAfter (.pure rfl) Steady.identifier.optional fun name => ?_
      refine .after (.keyword _) fun _ => .joined .skip ?_
      refine .after steady_keyColumns fun columns => ?_
      cases columns with
      | nil => exact .pure .none
      | cons first others =>
          refine .after (Steady.untilEnd steady_keyOption _) fun i => .pure (.some ?_)
          exact settled_congr h
            (fun t => { t with name := t'.name, indexes := t.indexes ++ [i] }) rfl rfl

theorem optionalDefault_map_folded (ts : List Token) :
    optionalDefault (ts.map Token.folded) = optionalDefault ts := by
  simp [optionalDefault, ← List.map_tail]

theorem agrees_assignedOption {t t' : Table} (h : t.settled d = t'.settled d) (key : String) :
    Agrees d total (Option.Rel fun t t' => t.settled d = t'.settled d)
      (assignedOption t key) (assignedOption t' key) := by
  refine .after steady_assigned.optional fun v => ?_
  cases v with
  | none => exact .pure (.some h)
  | some v => exact .pure (.some (settled_option h _ _))

theorem agrees_tableClause {t t' : Table} (h : t.settled d = t'.settled d) :
    Agrees d total (Option.Rel fun t t' => t.settled d = t'.settled d)
      (tableClause t) (tableClause t') := by
  refine .after (.peek optionalDefault_map_folded) fun _ => .joined .skip ?_
  refine .after (.keyword _) fun _ => .ite ?_ ?_
  · exact .after steady_assigned.optional fun engine => .pure (.some (settled_congr h
      (fun t => { t with storage := { t.storage with engine := engine } }) rfl rfl))
  refine .after (.keyword _) fun _ => .ite ?_ ?_
  · exact .after steady_assigned.optional fun _ => .pure (.some h)
  refine .after (.keyword _) fun _ => .ite (agrees_assignedOption h _) ?_
  refine .after (.keywords _) fun _ => .ite (agrees_assignedOption h _) ?_
  refine .after (.keyword _) fun _ => .ite (agrees_assignedOption h _) ?_
  refine .after (.keyword _) fun _ => .ite (agrees_assignedOption h _) ?_
  refine .after (.keywords _) fun _ => .ite (agrees_partitionClause h) ?_
  refine .after (.keywords _) fun _ => .ite (.pure (.some ?_)) (.pure .none)
  exact settled_congr h
    (fun t => { t with versioning := { t.versioning with systemVersioned := true } }) rfl rfl

theorem agree : clauses.Agree d total where
  createOption := steady_createOption
  createForm := .fail
  tableElement := agrees_tableElement
  tableClause := agrees_tableClause
  columnClause := fun _ => .pure .none
  indexClause := steady_indexClause

end MySql

namespace Db2

theorem steady_placementParts (parts : List String) : Steady d total (placementParts parts) := by
  refine Steady.iterate (fun parts => .after (.symbol _) fun _ => .ite ?_ (.pure rfl)) parts
  exact .after Steady.identifier.optional fun _ => .pure rfl

theorem steady_placement : Steady d total placement := by
  refine .after (.keyword _) fun _ => .ite ?_ ?_
  · exact .after .identifier fun _ => .pure rfl
  refine .after .identifier fun name => ?_
  refine .after (steady_placementParts [name]) fun parts => ?_
  exact Agrees.bind (Agrees.withDialect (.pure rfl)) fun _ _ heq => .pure (by rw [heq])

/-- A storage in two readings, by any relation that its fields may change under. -/
theorem agrees_storageClause {R : Storage → Storage → Prop} {s s' : Storage}
    (hstogroup : ∀ x, R { s with stogroup := x } { s' with stogroup := x })
    (hpriqty : ∀ x, R { s with priqty := x } { s' with priqty := x })
    (hsecqty : ∀ x, R { s with secqty := x } { s' with secqty := x }) :
    Agrees d total (Option.Rel R) (storageClause s) (storageClause s') := by
  have hstored : Steady d total (optional (do optionValue (← value))) :=
    .optional (Agrees.value.bind fun _ _ h => steady_optionValue h)
  refine .after (.keywords _) fun _ => .ite ?_ ?_
  · exact .after Steady.identifier.optional fun _ => .pure (.some (hstogroup _))
  refine .after (.keyword _) fun _ => .ite ?_ ?_
  · exact .after Steady.identifier.optional fun _ => .pure (.some (hstogroup _))
  refine .after (.keywords _) fun _ => .ite ?_ ?_
  · exact .after Steady.identifier.optional fun _ => .pure (.some (hstogroup _))
  refine .after (.keyword _) fun _ => .ite ?_ ?_
  · exact .after hstored fun _ => .pure (.some (hpriqty _))
  refine .after (.keyword _) fun _ => .ite ?_ (.pure .none)
  exact .after hstored fun _ => .pure (.some (hsecqty _))

theorem steady_upperValue : Steady d total upperValue :=
  .after .peekUpper fun _ => .after .skip fun _ => .pure rfl

theorem partNumber_eq {s s' : List Char}
    (h : ∃ ts us, Alike d total ts us ∧ s = Token.span ts ∧ s' = Token.span us ∧
      (ts.length = 1 ∨ atSymbol "(" ts = true)) : partNumber s = partNumber s' := by
  have hnone {c : Char} (s : List Char) (hplus : c ≠ '+') (hdigit : c.isDigit = false) :
      partNumber (c :: s) = none := by
    rw [partNumber, List.head?_cons, if_neg (fun h => hplus (Option.some.inj h)), if_pos]
    simp [hdigit]
  have hword {v : Token} {vs : List Token} (hcut : Token.Cut d (v :: vs)) (hv : v.isWord = true) :
      partNumber (Token.span (v :: vs)) = none := by
    obtain ⟨last, c, body, rest, htext, hhead⟩ := hcut.exists_head List.mem_cons_self
    rw [beq_iff_eq.1 hv] at hhead
    have hstart := (Token.isWordStart_of_head hhead).1
    rw [Token.span, htext]
    exact hnone _ (by rintro rfl; cases hstart) (Token.not_isDigit_of_isWordStart hstart)
  obtain ⟨ts, us, h, rfl, rfl, hone⟩ := h
  obtain ⟨rfl, rfl⟩ | ⟨t, u, ts, us, rfl, rfl, htu⟩ := h.exists_cons
  · rfl
  have hkind : t.isWord = u.isWord := by rw [← t.isWord_folded, htu, u.isWord_folded]
  by_cases ht : t.isWord = true
  · rw [hword h.left ht, hword h.right (hkind ▸ ht)]
  · have htext := congrArg Token.text htu
    rw [t.text_folded_of_not_word (Bool.eq_false_iff.2 ht),
      u.text_folded_of_not_word (Bool.eq_false_iff.2 (hkind ▸ ht))] at htext
    rcases hone with hone | hopen
    · have hlen := h.length_eq
      obtain rfl : ts = [] := List.length_eq_zero_iff.1 (Nat.succ.inj hone)
      obtain rfl : us = [] := List.length_eq_zero_iff.1 (Nat.succ.inj hlen).symm
      rw [Token.span, Token.span, htext]
    · have hparen : t.text = ['('] := (beq_iff_eq.1 (Bool.and_eq_true_iff.1 hopen).2)
      rw [Token.span, Token.span, ← htext, hparen, List.singleton_append, List.singleton_append,
        hnone _ (by decide) (by decide), hnone _ (by decide) (by decide)]

theorem steady_createForm : Steady d total createForm := by
  refine .after (.oneOf _) fun word => ?_
  cases word with
  | none => exact .fail
  | some word =>
      refine .after (.keyword _) fun _ => .ite .failed ?_
      refine .after .qualifiedName fun name => ?_
      refine .after (.keyword _) fun _ => ?_
      refine .iteAfter steady_placement.optional (.pure rfl) fun place => ?_
      refine .after (.keyword _) fun _ => .ite .failed ?_
      refine .after .qualifiedName fun base => ?_
      refine .after (.keyword _) fun _ => .ite .failed ?_
      refine .after .identifier fun column => ?_
      refine .after (.keyword _) fun _ => .ite ?_ (.pure rfl)
      refine Agrees.oneOrGroup.optional.bind fun s s' hs => .pure ?_
      cases hs with
      | none => rfl
      | some hs => rw [Option.bind_some, Option.bind_some, partNumber_eq hs]

theorem agrees_tableClause {t t' : Table} (h : t.settled d = t'.settled d) :
    Agrees d total (Option.Rel fun t t' => t.settled d = t'.settled d)
      (tableClause t) (tableClause t') := by
  have hstorage : t.storage.settled d = t'.storage.settled d := congrArg Table.storage h
  have hset {s s' : Storage} (hs : s.settled d = s'.settled d) :
      Table.settled d { t with storage := s } = Table.settled d { t' with storage := s' } := by
    refine settled_congr h (fun t => { t with storage := s.settled d }) rfl ?_
    rw [hs]
    rfl
  refine (agrees_storageClause (R := fun s s' => s.settled d = s'.settled d) (fun x => ?_)
    (fun x => ?_) (fun x => ?_)).bind fun s s' hs => ?_
  · exact congrArg (fun s : Storage => { s with stogroup := x }) hstorage
  · exact congrArg (fun s : Storage => { s with priqty := x }) hstorage
  · exact congrArg (fun s : Storage => { s with secqty := x }) hstorage
  cases hs with
  | some hs => exact .pure (.some (hset hs))
  | none =>
      refine .after (.keyword _) fun _ => .ite ?_ ?_
      · exact .after steady_placement.optional fun x => .pure (.some (hset
          (congrArg (fun s : Storage => { s with placement := x }) hstorage)))
      refine .after (.keyword _) fun _ => .ite ?_ ?_
      · exact .after steady_upperValue fun x => .pure (.some (hset
          (congrArg (fun s : Storage => { s with audit := x }) hstorage)))
      refine .after (.keyword _) fun _ => .ite ?_ ?_
      · exact .after steady_upperValue fun x => .pure (.some (hset
          (congrArg (fun s : Storage => { s with ccsid := x }) hstorage)))
      refine .after (.keywords _) fun _ => .ite (agrees_partitionClause h) ?_
      refine .after (.keywords _) fun _ => .ite ?_ (.pure .none)
      exact .after steady_upperValue fun _ => .pure (.some (settled_option h _ _))

theorem agrees_columnClause {c c' : Column} (h : c.settled d = c'.settled d) :
    Agrees d total (Option.Rel fun c c' => c.settled d = c'.settled d)
      (columnClause c) (columnClause c') := by
  have hset (x : Option String) :
      Column.settled d { c with default := x } = Column.settled d { c' with default := x } :=
    congrArg (fun c : Column => { c with default := x }) h
  refine .after (.keywords _) fun _ => .ite ?_ ?_
  · refine (Agrees.sourceUntil _).bind fun s s' hs => ?_
    rw [hs.isEmpty_eq]
    refine .ite (.pure (.some (hset _))) (.withDialect (.pure (.some ?_)))
    rw [ofText_eq hs]
    exact hset _
  refine .after (.keywords _) fun _ => .ite (.pure (.some (settled_attribute h rfl))) ?_
  refine .after (.keywords _) fun _ => .ite ?_ (.pure .none)
  refine Agrees.valueOr.bind fun s s' hs => .pure (.some (settled_attribute h ?_))
  rw [settledClause_append (by decide), settledClause_append (by decide), hs.canonicalSql_eq]

theorem steady_indexClause (i : Index) : Steady d total (indexClause i) := by
  refine (agrees_storageClause (R := Eq) (fun _ => rfl) (fun _ => rfl) (fun _ => rfl)).bind
    fun s s' hs => ?_
  obtain rfl := rel_eq hs
  cases s with
  | some s => exact .pure rfl
  | none =>
      refine .after (.keywords _) fun _ => .ite (.pure rfl) ?_
      refine .after (.keywords _) fun _ => .ite (.pure rfl) ?_
      refine .after (.keyword _) fun _ => .ite (.pure rfl) ?_
      refine .after (.keyword _) fun _ => .ite (.pure rfl) ?_
      refine .after (.keyword _) fun _ => .ite (.pure rfl) ?_
      refine .after (.keyword _) fun _ => .ite ?_ (.pure rfl)
      exact .after steady_placement.optional fun _ => .pure rfl

theorem agree : clauses.Agree d total where
  createOption := .pure rfl
  createForm := steady_createForm
  tableElement := fun _ => .pure .none
  tableClause := agrees_tableClause
  columnClause := agrees_columnClause
  indexClause := steady_indexClause

end Db2

theorem Clauses.agree_ofDialect (d' : Dialect) : (Clauses.ofDialect d').Agree d total := by
  cases d'
  case postgres => exact Postgres.agree
  case mySql => exact MySql.agree
  case sqlite => exact Sqlite.agree
  case db2 => exact Db2.agree

theorem settled_period {t t' : Table} (h : t.settled d = t'.settled d) (columns : List String) :
    (period t columns).settled d = (period t' columns).settled d := by
  match columns with
  | [] | [_] | _ :: _ :: _ :: _ => exact h
  | [start, stop] =>
      exact settled_congr h (fun t =>
        { t with versioning := { t.versioning with systemTime := some (start, stop) } }) rfl rfl

theorem settled_enforcePrimaryKey {t t' : Table} (h : t.settled d = t'.settled d) :
    t.enforcePrimaryKey.settled d = t'.enforcePrimaryKey.settled d := by
  have hcolumn (names : List String) (c : Column) :
      Column.settled d (if names.contains c.name then { c with nullable := false } else c) =
        if names.contains c.name then { c.settled d with nullable := false } else c.settled d := by
    split <;> rfl
  refine settled_congr h Table.enforcePrimaryKey ?_ ?_ <;>
    simp only [Table.enforcePrimaryKey, Table.settled, List.map_map, Function.comp_def, hcolumn] <;>
    rfl

section

variable {clauses : Clauses} (hclauses : clauses.Agree d total)

include hclauses

theorem agrees_tableElement {t t' : Table} (h : t.settled d = t'.settled d) :
    Agrees d total (fun t t' => t.settled d = t'.settled d)
      (tableElement clauses t) (tableElement clauses t') := by
  refine .after .atEnd fun _ => .ite (.pure h) ?_
  refine .after (.peek (atKeyword_map_folded · _)) fun _ => .ite .fail ?_
  refine (hclauses.tableElement h).bind fun u u' hu => ?_
  cases hu with
  | some hu => exact .pure hu
  | none =>
      refine .after (.keywords _) fun _ => .ite ?_ ?_
      · exact .after steady_keyColumns fun columns => .pure (settled_period h columns)
      refine .after (.peek startsConstraint_map_folded) fun _ => .ite ?_ ?_
      · refine .after (.peek (atKeyword_map_folded · _)) fun _ => .ite ?_ ?_
        · refine Agrees.rest.bind fun _ _ hs => ?_
          refine (steady_canonical hs).bind fun s _ heq => ?_
          subst heq
          exact .pure (settled_option h _ _)
        · refine .after steady_tableConstraint fun c => .pure ?_
          exact settled_congr h (fun t => { t with constraints := t.constraints ++ [c] }) rfl rfl
      · have hlen : (t.settled d).columns.length = (t'.settled d).columns.length := by rw [h]
        simp only [Table.settled, List.length_map] at hlen
        rw [hlen]
        refine (agrees_column hclauses _).bind fun p p' hcolumn => ?_
        obtain ⟨c, lifted⟩ := p
        obtain ⟨c', lifted'⟩ := p'
        obtain ⟨hc, hlifted⟩ := hcolumn
        refine .pure ?_
        dsimp only at hc hlifted
        subst hlifted
        refine settled_congr h (fun t => { t with
          columns := t.columns ++ [c.settled d], constraints := t.constraints ++ lifted }) ?_ ?_
        · simp [Table.settled]
        · simp [Table.settled, hc]

theorem agrees_tableElements {parts parts' : List (List Token)}
    (hparts : List.Forall₂ (Alike d total) parts parts') {t t' : Table}
    (h : t.settled d = t'.settled d) :
    Agrees d total (fun t t' => t.settled d = t'.settled d)
      (tableElements clauses t parts) (tableElements clauses t' parts') := by
  induction hparts generalizing t t' with
  | nil => exact .pure h
  | cons hpart _ ih =>
      exact ((agrees_tableElement hclauses h).within hpart).bind fun _ _ h => ih h

theorem agrees_tableStep {t t' : Table} (h : t.settled d = t'.settled d) :
    Agrees d total (fun t t' => t.settled d = t'.settled d)
      (tableStep clauses t) (tableStep clauses t') := by
  refine .after (.symbol _) fun _ => .ite (.pure h) ?_
  refine (hclauses.tableClause h).bind fun u u' hu => ?_
  cases hu with
  | some hu => exact .pure hu
  | none =>
      have hoptions : (t.settled d).options = (t'.settled d).options := by rw [h]
      change t.options = t'.options at hoptions
      rw [hoptions]
      refine .after (steady_looseOption _) fun options => .pure ?_
      exact settled_congr h (fun t => { t with options := options }) rfl rfl

theorem agrees_table :
    Agrees d total (fun t t' => t.settled d = t'.settled d) (table clauses) (table clauses) := by
  refine .after (.keywords _) fun _ => ?_
  refine .after .qualifiedName fun name => ?_
  refine Agrees.group.bind fun ts us hbody => ?_
  refine (agrees_tableElements hclauses hbody.splitCommas rfl).bind fun t t' h => ?_
  exact Agrees.untilEnd (fun _ _ h => agrees_tableStep hclauses h) (settled_enforcePrimaryKey h)

end

end SchemaDrift.Grammar
