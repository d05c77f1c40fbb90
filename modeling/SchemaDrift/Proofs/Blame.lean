import SchemaDrift.Proofs.Faults

namespace SchemaDrift.Grammar

open Reader

variable {d : Dialect} {P : Token → Prop} {E : Fault → Prop}

theorem sound_canonical (s : List Char) : Sound d P E (canonical s) :=
  Sound.dialect.bind fun _ => .pure _

theorem sound_canonicalExpression (s : List Char) : Sound d P E (canonicalExpression s) :=
  Sound.dialect.bind fun _ => .pure _

theorem sound_optionValue (s : List Char) : Sound d P E (optionValue s) :=
  (sound_canonical s).bind fun _ => .pure _

theorem sound_assigned : Sound d P E assigned :=
  (Sound.symbol _).bind fun _ => Sound.value.bind fun v => sound_optionValue v

theorem sound_looseOption (options : Options) : Sound d P E (looseOption options) := by
  refine Sound.peekUpper.bind fun word => ?_
  cases word with
  | some key =>
      refine Sound.skip.bind fun _ => (Sound.symbol _).bind fun assigns => ?_
      refine (Sound.peek _).bind fun starts => .ite ?_ (.pure _)
      refine Sound.value.optional.bind fun v => ?_
      cases v with
      | none => exact .pure _
      | some v => exact (sound_optionValue v).bind fun _ => .pure _
  | none =>
      refine (Sound.peek _).bind fun opens => .ite ?_ (Sound.skip.bind fun _ => .pure _)
      exact Sound.value.bind fun v => (sound_optionValue v).bind fun _ => .pure _

theorem sound_typeStep (t : TypeDraft) : Sound d P E (typeStep t) := by
  refine (Sound.peek _).bind fun ts => ?_
  split
  · exact (Sound.keywords _).bind fun _ => .pure _
  · refine .ite ?_ (.ite ?_ (.pure _))
    · exact Sound.dialect.bind fun _ => Sound.group.bind fun _ => .pure _
    · exact Sound.skip.bind fun _ => Sound.skip.bind fun _ => .pure _

theorem sound_typeWords : Sound d P E typeWords := by
  have hsteps (t : TypeDraft) : Sound d P E (iterate typeStep t) := .iterate sound_typeStep t
  refine Sound.advance.bind fun first => .ite .fail ?_
  refine Sound.peekUpper.bind fun next => ?_
  cases next with
  | none => exact hsteps _
  | some next => exact .ite (Sound.skip.bind fun _ => hsteps _) (hsteps _)

theorem sound_typeName : Sound d P E typeName :=
  sound_typeWords.withSource.bind fun _ => .pure _

theorem sound_columnType : Sound d P E columnType :=
  (Sound.peek _).bind fun _ => .ite (.pure _) sound_typeName

theorem sound_methodWords (words : List String) : Sound d P E (methodWords words) := by
  refine .iterate (fun words => Sound.peekUpper.bind fun word => ?_) words
  cases word with
  | none => exact .pure _
  | some word => exact Sound.skip.bind fun _ => .pure _

theorem sound_partCount : Sound d P E partCount := by
  refine (Sound.keyword _).bind fun _ => .ite ?_ (.pure _)
  refine Sound.advance.optional.bind fun t => ?_
  cases t <;> exact .pure _

theorem sound_partList : Sound d P E partList := by
  refine Sound.dialect.bind fun _ => Sound.group.optional.bind fun ts => ?_
  cases ts <;> exact .pure _

theorem sound_partition : Sound d P E partition := by
  refine (sound_methodWords []).bind fun _ => Sound.groupText.bind fun key => ?_
  refine (sound_canonical key).bind fun _ => sound_partCount.bind fun _ => ?_
  exact sound_partList.bind fun _ => .pure _

theorem sound_timing : Sound d P E timing := by
  refine (Sound.keywords _).bind fun _ => .ite (.pure _) ?_
  refine (Sound.keyword _).bind fun _ => .ite (.pure _) ?_
  refine (Sound.keyword _).bind fun _ => .ite (.pure _) ?_
  exact (Sound.keywords _).bind fun _ => .ite (.pure _) (.pure _)

theorem sound_event? : Sound d P E event? := by
  refine (Sound.oneOf _).bind fun word => ?_
  split <;> exact .pure _

theorem sound_skipColumns : Sound d P E skipColumns := fun _ _ => List.dropWhile_suffix _

/-- The columns of an event, and whether another event may follow. -/
theorem sound_afterEvent (found : List Event) (event : Event) :
    Sound d P E (do
      if event = .update then
        if ← keyword "OF" then skipColumns
      let or ← keyword "OR"
      let more ← if or then pure true else symbol ","
      return some (found ++ [event], more)) := by
  have hmore : Sound d P E (do
      let or ← keyword "OR"
      let more ← if or then pure true else symbol ","
      return some (found ++ [event], more)) :=
    (Sound.keyword _).bind fun _ => .iteAfter (.pure _) (.symbol _) fun _ => .pure _
  exact .ite ((Sound.keyword _).bind fun _ => .joined sound_skipColumns hmore) hmore

theorem sound_eventStep (found : List Event × Bool) : Sound d P E (eventStep found) := by
  refine .ite (.pure _) (sound_event?.bind fun event => ?_)
  cases event with
  | none => exact .pure _
  | some event => exact sound_afterEvent found.1 event

theorem sound_skipModifiers : Sound d P E skipModifiers := fun _ _ => List.dropWhile_suffix _

theorem sound_upperWord : Sound d P E upperWord :=
  Sound.peekUpper.bind fun _ => (Sound.ofOption _).bind fun _ => Sound.skip.bind fun _ => .pure _

theorem sound_objectType : Sound d P E objectType := by
  refine sound_upperWord.bind fun first => .ite ?_ (.pure _)
  refine sound_upperWord.attempt.bind fun second => ?_
  cases second <;> exact .pure _

theorem sound_createStep (o : CreateOptions) : Sound d P E (createStep o) := by
  have htook (o : CreateOptions) : Sound d P E (do skip; return some o) :=
    Sound.skip.bind fun _ => .pure _
  refine Sound.peekUpper.bind fun word => ?_
  dsimp only
  split
  · exact htook _
  · exact htook _
  · exact htook _
  · exact htook _
  · exact .ite (htook _) (.pure _)
  · exact .pure _

theorem sound_referentialAction : Sound d P E referentialAction := by
  refine (Sound.keywords _).bind fun _ => .ite (.pure _) ?_
  refine (Sound.keywords _).bind fun _ => .ite (.pure _) ?_
  exact (Sound.keywords _).bind fun _ => .ite (.pure _) (.oneOf _)

theorem sound_referenceStep (k : ForeignKey) : Sound d P E (referenceStep k) := by
  refine (Sound.keywords _).bind fun _ => .ite ?_ ?_
  · exact sound_referentialAction.bind fun _ => .pure _
  refine (Sound.keywords _).bind fun _ => .ite ?_ ?_
  · exact sound_referentialAction.bind fun _ => .pure _
  exact (Sound.keyword _).bind fun _ => .ite (Sound.skip.bind fun _ => .pure _) (.pure _)

theorem sound_skipIndexMethod : Sound d P E skipIndexMethod :=
  (Sound.keywords _).bind fun _ => .ite ((Sound.keywords _).bind fun _ => .pure _) (.pure _)

theorem sound_modifiers : Sound d P E modifiers :=
  Sound.rest.bind fun s => .ite (.pure _) ((sound_canonical s).bind fun _ => .pure _)

theorem sound_generated (r : ColumnDraft) : Sound d P E (generated r) := by
  refine (Sound.keyword _).bind fun _ => .joined (.keywords _) ?_
  refine (Sound.keywords _).bind fun _ => .ite (Sound.skipGroup.bind fun _ => .pure _) ?_
  refine (Sound.keywords _).bind fun _ => .ite (.pure _) ?_
  refine (Sound.keywords _).bind fun _ => .ite (.pure _) ?_
  refine (Sound.keywords _).bind fun _ => .ite (.pure _) ?_
  refine (Sound.keywords _).bind fun _ => .ite (.pure _) ?_
  refine (Sound.keyword _).bind fun _ => .ite ?_ ?_
  · refine Sound.groupText.optional.bind fun _ => (sound_canonicalExpression _).bind fun _ => ?_
    exact (Sound.oneOf _).bind fun _ => .pure _
  exact (Sound.keywords _).bind fun _ => .ite (.pure _) (.pure _)

theorem sound_looseClause (r : ColumnDraft) (word : String) : Sound d P E (looseClause r word) := by
  refine Sound.groupText.optional.bind fun args => ?_
  cases args with
  | none => exact .pure _
  | some args => exact (sound_canonical args).bind fun _ => .pure _

theorem sound_defaultClause (r : ColumnDraft) : Sound d P E (defaultClause r) :=
  Sound.dialect.bind fun _ => (Sound.sourceUntil _).bind fun _ => .pure _

section

variable (hE : Blames d P E)
include hE

theorem sound_plainKeyColumn : Sound d P E plainKeyColumn := by
  refine (Sound.identifier hE).bind fun _ => Sound.groupText.optional.bind fun _ => ?_
  refine Sound.dialect.bind fun _ => (Sound.keyword _).bind fun _ => ?_
  refine .iteAfter (.pure _) (.keyword _) fun _ => ?_
  exact Sound.atEnd.bind fun _ => .ite (.pure _) .fail

theorem sound_keyColumn : Sound d P E keyColumn := by
  refine (sound_plainKeyColumn hE).attempt.bind fun column => ?_
  cases column with
  | some column => exact .pure _
  | none => exact Sound.dialect.bind fun _ => Sound.rest.bind fun _ => .pure _

theorem sound_keyColumns : Sound d P E keyColumns :=
  .afterOptionalGroup (.pure _) fun _ h => .eachOf (sound_keyColumn hE) (Sound.mem_splitCommas h)

theorem sound_references : Sound d P E references := by
  refine (Sound.keyword _).bind fun _ => .ite ?_ .fail
  refine (Sound.qualifiedName hE).bind fun _ => (sound_keyColumns hE).bind fun _ => ?_
  exact .iterate (sound_referenceStep) _

theorem sound_givenName : Sound d P E givenName := by
  refine (Sound.keyword _).bind fun _ => .ite ?_ (.pure _)
  exact (Sound.peek _).bind fun _ => .ite (.pure _) (Sound.identifier hE).optional

theorem sound_indexName (isAbsent : List Token → Bool) : Sound d P E (indexName isAbsent) :=
  (Sound.peek _).bind fun _ => .ite (.pure _) (Sound.identifier hE).optional

theorem sound_rule : Sound d P E rule := by
  refine (Sound.keywords _).bind fun _ => .ite ?_ ?_
  · refine sound_skipIndexMethod.bind fun _ => ?_
    exact (sound_keyColumns hE).bind fun _ => .pure _
  refine (Sound.keyword _).bind fun _ => .ite ?_ ?_
  · refine (Sound.oneOf _).bind fun _ => (sound_indexName hE _).bind fun _ => ?_
    refine sound_skipIndexMethod.bind fun _ => ?_
    exact (sound_keyColumns hE).bind fun _ => .pure _
  refine (Sound.keywords _).bind fun _ => .ite ?_ ?_
  · refine (sound_indexName hE _).bind fun _ => (sound_keyColumns hE).bind fun _ => ?_
    exact (sound_references hE).bind fun _ => .pure _
  refine (Sound.keyword _).bind fun _ => .ite ?_ .fail
  exact Sound.groupText.bind fun s => (sound_canonicalExpression s).bind fun _ => .pure _

theorem sound_tableConstraint : Sound d P E tableConstraint := by
  refine (sound_givenName hE).bind fun _ => (sound_rule hE).bind fun _ => ?_
  refine sound_skipIndexMethod.bind fun _ => ?_
  exact sound_modifiers.bind fun _ => .pure _

theorem sound_methodOr (method : Option String) : Sound d P E (methodOr method) :=
  (Sound.keyword _).bind fun _ => .ite (Sound.identifier hE).optional (.pure _)

theorem sound_trigger : Sound d P E trigger := by
  refine (Sound.keywords _).bind fun _ => (Sound.qualifiedName hE).bind fun _ => ?_
  refine sound_timing.bind fun _ => ?_
  refine (Sound.iterate sound_eventStep _).bind fun (events, _) => .ite .failed ?_
  refine (Sound.keyword _).bind fun _ => .ite .failed ?_
  refine (Sound.qualifiedName hE).bind fun _ => Sound.rest.bind fun s => ?_
  exact (sound_canonical s).bind fun _ => .pure _

theorem sound_routine (kind : RoutineKind) : Sound d P E (routine kind) := by
  refine (Sound.keywords _).bind fun _ => (Sound.qualifiedName hE).bind fun _ => ?_
  exact Sound.rest.bind fun s => (sound_canonical s).bind fun _ => .pure _

theorem sound_synonym : Sound d P E synonym := by
  refine (Sound.keywords _).bind fun _ => (Sound.qualifiedName hE).bind fun _ => ?_
  refine (Sound.keyword _).bind fun _ => .ite .failed ?_
  exact (Sound.oneOf _).bind fun _ => (Sound.qualifiedName hE).bind fun _ => .pure _

/-- The relations that a query names are read from a text of their own, which comes to no fault. -/
theorem sound_view (materialized : Bool) : Sound d P E (view materialized) := by
  refine (Sound.keywords _).bind fun _ => (Sound.qualifiedName hE).bind fun name => ?_
  refine (sound_keyColumns hE).bind fun _ => ?_
  refine (Sound.keyword _).bind fun _ => .joined .skipGroup ?_
  refine (Sound.keyword _).bind fun _ => .ite .failed ?_
  refine Sound.rest.bind fun s => Sound.dialect.bind fun d' => ?_
  refine (Sound.ofExcept (viewReferences_ok name s)).bind fun _ => ?_
  exact (sound_canonical s).bind fun _ => .pure _

theorem sound_createLabel : Sound d P E createLabel := by
  refine Sound.skip.bind fun _ => sound_skipModifiers.bind fun _ => ?_
  refine sound_objectType.bind fun _ => (Sound.keywords _).bind fun _ => ?_
  exact (Sound.qualifiedName hE).bind fun _ => .pure _

end

structure Clauses.Sound (d : Dialect) (P : Token → Prop) (E : Fault → Prop) (clauses : Clauses) :
    Prop where
  createOption : Reader.Sound d P E clauses.createOption
  createForm : Reader.Sound d P E clauses.createForm
  tableElement : ∀ t, Reader.Sound d P E (clauses.tableElement t)
  tableClause : ∀ t, Reader.Sound d P E (clauses.tableClause t)
  columnClause : ∀ c, Reader.Sound d P E (clauses.columnClause c)
  indexClause : ∀ i, Reader.Sound d P E (clauses.indexClause i)

theorem Clauses.sound_common : Clauses.common.Sound d P E where
  createOption := .pure _
  createForm := .fail
  tableElement := fun _ => .pure _
  tableClause := fun _ => .pure _
  columnClause := fun _ => .pure _
  indexClause := fun _ => .pure _

namespace Postgres

theorem sound_indexClause (i : Index) : Sound d P E (indexClause i) := by
  refine (Sound.keywords _).bind fun _ => .ite (.pure _) ?_
  exact (Sound.keywords _).bind fun _ => .ite (.pure _) (.pure _)

variable (hE : Blames d P E)
include hE

theorem sound_parents : Sound d P E parents :=
  .afterOptionalGroup (.pure _) fun _ h =>
    (Sound.eachOf (Sound.qualifiedName hE).optional (Sound.mem_splitCommas h)).bind fun _ => .pure _

theorem sound_tableClause (t : Table) : Sound d P E (tableClause t) := by
  refine (Sound.keywords _).bind fun _ => .ite (sound_partition.optional.bind fun _ => .pure _) ?_
  refine (Sound.keyword _).bind fun _ => .ite ((sound_parents hE).bind fun _ => .pure _) ?_
  refine (Sound.keyword _).bind fun _ => .ite ?_ ?_
  · exact (Sound.identifier hE).optional.bind fun _ => .pure _
  refine (Sound.peek _).bind fun _ => .ite ?_ ?_
  · refine Sound.skip.bind fun _ => Sound.groupText.optional.bind fun _ => ?_
    exact (sound_canonical _).bind fun _ => .pure _
  refine (Sound.keywords _).bind fun _ => .ite (.pure _) ?_
  refine (Sound.keywords _).bind fun _ => .ite (.pure _) ?_
  refine (Sound.keywords _).bind fun _ => .ite ?_ ?_
  · exact (Sound.sourceUntil _).bind fun _ => (sound_canonical _).bind fun _ => .pure _
  refine (Sound.keyword _).bind fun _ => .ite ?_ (.pure _)
  exact (Sound.identifier hE).optional.bind fun _ => .pure _

theorem sound_clauses : clauses.Sound d P E :=
  { Clauses.sound_common with
    tableClause := sound_tableClause hE
    indexClause := sound_indexClause }

end Postgres

namespace Sqlite

theorem sound_arguments : Sound d P E arguments := by
  refine Sound.dialect.bind fun _ => Sound.group.optional.bind fun ts => ?_
  cases ts <;> exact .pure _

theorem sound_tableClause (t : Table) : Sound d P E (tableClause t) := by
  refine (Sound.keywords _).bind fun _ => .ite (.pure _) ?_
  exact (Sound.keyword _).bind fun _ => .ite (.pure _) (.pure _)

theorem sound_columnClause (c : Column) : Sound d P E (columnClause c) := by
  refine (Sound.keywords _).bind fun _ => .ite ?_ (.pure _)
  refine Sound.peekUpper.bind fun action => ?_
  cases action with
  | none => exact .pure _
  | some action => exact Sound.skip.bind fun _ => .pure _

variable (hE : Blames d P E)
include hE

theorem sound_createForm : Sound d P E createForm := by
  refine (Sound.oneOf _).bind fun _ => (Sound.keywords _).bind fun _ => .ite ?_ .fail
  refine (Sound.keywords _).bind fun _ => (Sound.qualifiedName hE).bind fun _ => ?_
  refine (Sound.keyword _).bind fun _ => .ite ?_ .fail
  exact (Sound.identifier hE).bind fun _ => sound_arguments.bind fun _ => .pure _

theorem sound_clauses : clauses.Sound d P E :=
  { Clauses.sound_common with
    createForm := sound_createForm hE
    tableClause := sound_tableClause
    columnClause := sound_columnClause }

end Sqlite

namespace MySql

theorem sound_hosts (u : Unit) : Sound d P E (hosts u) :=
  .iterate (fun _ => (Sound.symbol _).bind fun _ =>
    .ite (Sound.value.optional.bind fun _ => .pure _) (.pure _)) u

theorem sound_createOption : Sound d P E createOption := by
  refine (Sound.keyword _).bind fun _ => .ite ?_ ?_
  · refine (Sound.symbol _).bind fun _ => Sound.value.optional.bind fun _ => ?_
    exact Sound.skipGroup.bind fun _ => (sound_hosts ()).bind fun _ => .pure _
  refine (Sound.keyword _).bind fun _ => .ite ?_ ?_
  · exact (Sound.symbol _).bind fun _ => Sound.skip.bind fun _ => .pure _
  exact (Sound.keywords _).bind fun _ => .ite (Sound.skip.bind fun _ => .pure _) (.pure _)

theorem sound_assignedOption (t : Table) (key : String) : Sound d P E (assignedOption t key) := by
  refine sound_assigned.optional.bind fun v => ?_
  cases v <;> exact .pure _

theorem sound_tableClause (t : Table) : Sound d P E (tableClause t) := by
  refine (Sound.peek _).bind fun _ => .joined .skip ?_
  refine (Sound.keyword _).bind fun _ => .ite (sound_assigned.optional.bind fun _ => .pure _) ?_
  refine (Sound.keyword _).bind fun _ => .ite (sound_assigned.optional.bind fun _ => .pure _) ?_
  refine (Sound.keyword _).bind fun _ => .ite (sound_assignedOption t _) ?_
  refine (Sound.keywords _).bind fun _ => .ite (sound_assignedOption t _) ?_
  refine (Sound.keyword _).bind fun _ => .ite (sound_assignedOption t _) ?_
  refine (Sound.keyword _).bind fun _ => .ite (sound_assignedOption t _) ?_
  refine (Sound.keywords _).bind fun _ => .ite (sound_partition.optional.bind fun _ => .pure _) ?_
  exact (Sound.keywords _).bind fun _ => .ite (.pure _) (.pure _)

variable (hE : Blames d P E)
include hE

theorem sound_indexClause (i : Index) : Sound d P E (indexClause i) := by
  refine (Sound.keyword _).bind fun _ => .ite (sound_assigned.optional.bind fun _ => .pure _) ?_
  refine (Sound.keyword _).bind fun _ => .ite (sound_assigned.optional.bind fun _ => .pure _) ?_
  refine (Sound.keyword _).bind fun _ => .ite ?_ ?_
  · refine (Sound.identifier hE).optional.bind fun method => ?_
    cases method with
    | none => exact .pure _
    | some method => exact .ite (.pure _) (.pure _)
  refine (Sound.keyword _).bind fun _ => .ite ?_ ?_
  · refine sound_assigned.optional.bind fun comment => ?_
    cases comment <;> exact .pure _
  refine (Sound.keyword _).bind fun _ => .ite (.pure _) ?_
  exact (Sound.keyword _).bind fun _ => .ite (.pure _) (.pure _)

theorem sound_keyOption (i : Index) : Sound d P E (keyOption i) := by
  refine (sound_indexClause hE i).bind fun i' => ?_
  cases i' with
  | some i => exact .pure _
  | none => exact (sound_looseOption _).bind fun _ => .pure _

theorem sound_tableElement (t : Table) : Sound d P E (tableElement t) := by
  refine (Sound.peek _).bind fun kind => ?_
  cases kind with
  | none => exact .pure _
  | some kind =>
      refine .joined .skip ((Sound.oneOf _).bind fun _ => (Sound.peek _).bind fun _ => ?_)
      refine .iteAfter (.pure _) (Sound.identifier hE).optional fun name => ?_
      refine (Sound.keyword _).bind fun _ => .joined .skip ?_
      refine (sound_keyColumns hE).bind fun columns => ?_
      cases columns with
      | nil => exact .pure _
      | cons first others => exact (Sound.untilEnd (sound_keyOption hE) _).bind fun _ => .pure _

theorem sound_clauses : clauses.Sound d P E :=
  { Clauses.sound_common with
    createOption := sound_createOption
    tableElement := sound_tableElement hE
    tableClause := sound_tableClause
    indexClause := sound_indexClause hE }

end MySql

namespace Db2

theorem sound_upperValue : Sound d P E upperValue :=
  Sound.peekUpper.bind fun _ => Sound.skip.bind fun _ => .pure _

theorem sound_columnClause (c : Column) : Sound d P E (columnClause c) := by
  refine (Sound.keywords _).bind fun _ => .ite ?_ ?_
  · refine (Sound.sourceUntil _).bind fun s => .ite (.pure _) ?_
    exact Sound.dialect.bind fun _ => .pure _
  refine (Sound.keywords _).bind fun _ => .ite (.pure _) ?_
  refine (Sound.keywords _).bind fun _ => .ite ?_ (.pure _)
  exact (Sound.valueOr _).bind fun _ => .pure _

variable (hE : Blames d P E)
include hE

theorem sound_placementParts (parts : List String) : Sound d P E (placementParts parts) :=
  .iterate (fun _ => (Sound.symbol _).bind fun _ =>
    .ite ((Sound.identifier hE).optional.bind fun _ => .pure _) (.pure _)) parts

theorem sound_placement : Sound d P E placement := by
  refine (Sound.keyword _).bind fun _ => .ite ((Sound.identifier hE).bind fun _ => .pure _) ?_
  refine (Sound.identifier hE).bind fun name => (sound_placementParts hE [name]).bind fun _ => ?_
  exact (sound_canonical _).bind fun _ => .pure _

theorem sound_storageClause (s : Storage) : Sound d P E (storageClause s) := by
  have hname : Sound d P E (optional identifier) := (Sound.identifier hE).optional
  have hstored : Sound d P E (optional (do optionValue (← value))) :=
    (Sound.value.bind fun v => sound_optionValue v).optional
  refine (Sound.keywords _).bind fun _ => .ite (hname.bind fun _ => .pure _) ?_
  refine (Sound.keyword _).bind fun _ => .ite (hname.bind fun _ => .pure _) ?_
  refine (Sound.keywords _).bind fun _ => .ite (hname.bind fun _ => .pure _) ?_
  refine (Sound.keyword _).bind fun _ => .ite (hstored.bind fun _ => .pure _) ?_
  exact (Sound.keyword _).bind fun _ => .ite (hstored.bind fun _ => .pure _) (.pure _)

theorem sound_createForm : Sound d P E createForm := by
  refine (Sound.oneOf _).bind fun word => ?_
  cases word with
  | none => exact .fail
  | some word =>
      refine (Sound.keyword _).bind fun _ => .ite .failed ?_
      refine (Sound.qualifiedName hE).bind fun _ => (Sound.keyword _).bind fun _ => ?_
      refine .iteAfter (sound_placement hE).optional (.pure _) fun _ => ?_
      refine (Sound.keyword _).bind fun _ => .ite .failed ?_
      refine (Sound.qualifiedName hE).bind fun _ => (Sound.keyword _).bind fun _ => ?_
      refine .ite .failed ((Sound.identifier hE).bind fun _ => (Sound.keyword _).bind fun _ => ?_)
      exact .ite (Sound.value.optional.bind fun _ => .pure _) (.pure _)

theorem sound_tableClause (t : Table) : Sound d P E (tableClause t) := by
  have hword : Sound d P E upperValue := sound_upperValue
  refine (sound_storageClause hE t.storage).bind fun s => ?_
  cases s with
  | some s => exact .pure _
  | none =>
      refine (Sound.keyword _).bind fun _ => .ite ?_ ?_
      · exact (sound_placement hE).optional.bind fun _ => .pure _
      refine (Sound.keyword _).bind fun _ => .ite (hword.bind fun _ => .pure _) ?_
      refine (Sound.keyword _).bind fun _ => .ite (hword.bind fun _ => .pure _) ?_
      refine (Sound.keywords _).bind fun _ => .ite ?_ ?_
      · exact sound_partition.optional.bind fun _ => .pure _
      exact (Sound.keywords _).bind fun _ => .ite (hword.bind fun _ => .pure _) (.pure _)

theorem sound_indexClause (i : Index) : Sound d P E (indexClause i) := by
  refine (sound_storageClause hE i.storage).bind fun s => ?_
  cases s with
  | some s => exact .pure _
  | none =>
      refine (Sound.keywords _).bind fun _ => .ite (.pure _) ?_
      refine (Sound.keywords _).bind fun _ => .ite (.pure _) ?_
      refine (Sound.keyword _).bind fun _ => .ite (.pure _) ?_
      refine (Sound.keyword _).bind fun _ => .ite (.pure _) ?_
      refine (Sound.keyword _).bind fun _ => .ite (.pure _) ?_
      refine (Sound.keyword _).bind fun _ => .ite ?_ (.pure _)
      exact (sound_placement hE).optional.bind fun _ => .pure _

theorem sound_clauses : clauses.Sound d P E :=
  { Clauses.sound_common with
    createForm := sound_createForm hE
    tableClause := sound_tableClause hE
    columnClause := sound_columnClause
    indexClause := sound_indexClause hE }

end Db2

theorem Clauses.sound_ofDialect (hE : Blames d P E) (d' : Dialect) :
    (Clauses.ofDialect d').Sound d P E := by
  cases d'
  case postgres => exact Postgres.sound_clauses hE
  case mySql => exact MySql.sound_clauses hE
  case sqlite => exact Sqlite.sound_clauses hE
  case db2 => exact Db2.sound_clauses hE

theorem sound_clauseAfter (hE : Blames d P E) (r : ColumnDraft) (word : String) :
    Sound d P E (clauseAfter r word) := by
  have hexpression {f : String → Reader ColumnDraft} (hf : ∀ e, Sound d P E (f e)) :
      Sound d P E (do f (← canonicalExpression ((← optional groupText).getD []))) :=
    Sound.groupText.optional.bind fun _ => (sound_canonicalExpression _).bind hf
  have hcanonical {f : String → Reader ColumnDraft} (hf : ∀ e, Sound d P E (f e)) :
      Sound d P E (do f (← canonical (← valueOr []))) :=
    (Sound.valueOr _).bind fun _ => (sound_canonical _).bind hf
  fun_cases clauseAfter r word
  case case1 => exact .pure _
  case case2 => exact sound_defaultClause r
  case case3 => exact (Sound.identifier hE).optional.bind fun _ => .pure _
  case case4 => exact (Sound.keyword _).bind fun _ => .pure _
  case case5 => exact hexpression fun _ => .pure _
  case case6 => exact sound_generated r
  case case7 => exact hexpression fun _ => (Sound.oneOf _).bind fun _ => .pure _
  case case8 | case9 | case10 => exact Sound.skipGroup.bind fun _ => .pure _
  case case11 => exact hcanonical fun _ => .pure _
  case case12 => exact (Sound.valueOr _).bind fun _ => .pure _
  case case13 | case14 => exact (Sound.keyword _).bind fun _ => hcanonical fun _ => .pure _
  case case15 => exact sound_looseClause r word

section

variable {clauses : Clauses}

theorem sound_tableStep (hclauses : clauses.Sound d P E) (t : Table) :
    Sound d P E (tableStep clauses t) := by
  refine (Sound.symbol _).bind fun _ => .ite (.pure _) ?_
  refine (hclauses.tableClause t).bind fun u => ?_
  cases u with
  | some u => exact .pure _
  | none => exact (sound_looseOption _).bind fun _ => .pure _

theorem sound_dialectOptions (hclauses : clauses.Sound d P E) (u : Unit) :
    Sound d P E (dialectOptions clauses u) :=
  .iterate (fun _ => hclauses.createOption.bind fun _ => .pure _) u

variable (hE : Blames d P E) (hclauses : clauses.Sound d P E)

include hE hclauses

theorem sound_columnStep (r : ColumnDraft) : Sound d P E (columnStep clauses r) := by
  refine (hclauses.columnClause r.column).bind fun c => ?_
  cases c with
  | some c => exact .pure _
  | none =>
      refine Sound.peekUpper.bind fun word => ?_
      dsimp only
      split
      · exact Sound.skip.bind fun _ => .pure _
      · exact (sound_references hE).bind fun _ => .pure _
      · next word _ =>
          refine (Sound.keywords _).bind fun _ => .ite (.pure _) ?_
          refine (Sound.keywords _).bind fun _ => .ite ?_ ?_
          · exact (Sound.oneOf _).bind fun _ => .pure _
          refine (Sound.keywords _).bind fun _ => .ite ?_ ?_
          · exact (Sound.sourceUntil _).bind fun _ => (sound_canonicalExpression _).bind fun _ =>
              .pure _
          exact Sound.skip.bind fun _ => sound_clauseAfter hE r word

theorem sound_column (ordinal : Nat) : Sound d P E (column clauses ordinal) := by
  refine (Sound.identifier hE).bind fun _ => sound_columnType.bind fun _ => ?_
  refine (Sound.untilEnd (sound_columnStep hE hclauses) _).bind fun _ => ?_
  exact Sound.dialect.bind fun _ => .pure _

theorem sound_indexStep (r : IndexDraft) : Sound d P E (indexStep clauses r) := by
  refine (hclauses.indexClause r.index).bind fun i => ?_
  cases i with
  | some i => exact .pure _
  | none =>
      refine (Sound.keyword _).bind fun _ => .ite ((sound_keyColumns hE).bind fun _ => .pure _) ?_
      refine (Sound.keyword _).bind fun _ => .ite ?_ ?_
      · exact Sound.rest.bind fun s => (sound_canonicalExpression s).bind fun _ => .pure _
      refine (Sound.peek _).bind fun _ => .ite ?_ ?_
      · refine Sound.skip.bind fun _ => Sound.groupText.optional.bind fun _ => ?_
        exact (sound_canonical _).bind fun _ => .pure _
      refine (Sound.keyword _).bind fun _ => .ite ?_ ?_
      · exact (Sound.identifier hE).optional.bind fun _ => .pure _
      refine (Sound.keyword _).bind fun _ => .ite ?_ ?_
      · exact (Sound.identifier hE).optional.bind fun _ => .pure _
      exact (sound_looseOption _).bind fun _ => .pure _

theorem sound_index (unique : Bool) (kind : IndexKind) :
    Sound d P E (index clauses unique kind) := by
  refine (Sound.keyword _).bind fun _ => (Sound.keywords _).bind fun _ => ?_
  refine (Sound.peek _).bind fun _ => ?_
  refine .iteAfter (.pure _) ((Sound.qualifiedName hE).map some) fun _ => ?_
  refine (sound_methodOr hE none).bind fun method => ?_
  refine (Sound.keyword _).bind fun _ => .ite .failed ?_
  refine (Sound.keyword _).bind fun _ => (Sound.qualifiedName hE).bind fun _ => ?_
  refine (sound_methodOr hE method).bind fun _ => (sound_keyColumns hE).bind fun _ => ?_
  refine .ite .failed ?_
  exact (Sound.untilEnd (sound_indexStep hE hclauses) _).bind fun _ => .pure _

theorem sound_tableElement (t : Table) : Sound d P E (tableElement clauses t) := by
  refine Sound.atEnd.bind fun _ => .ite (.pure _) ?_
  refine (Sound.peek _).bind fun _ => .ite .fail ?_
  refine (hclauses.tableElement t).bind fun u => ?_
  cases u with
  | some u => exact .pure _
  | none =>
      refine (Sound.keywords _).bind fun _ => .ite ((sound_keyColumns hE).bind fun _ => .pure _) ?_
      refine (Sound.peek _).bind fun _ => .ite ?_ ?_
      · refine (Sound.peek _).bind fun _ => .ite ?_ ?_
        · exact Sound.rest.bind fun s => (sound_canonical s).bind fun _ => .pure _
        · exact (sound_tableConstraint hE).bind fun _ => .pure _
      · exact (sound_column hE hclauses _).bind fun _ => .pure _

theorem sound_tableElements {parts : List (List Token)} (hparts : ∀ part ∈ parts, ∀ t ∈ part, P t)
    (t : Table) : Sound d P E (tableElements clauses t parts) := by
  induction parts generalizing t with
  | nil => exact .pure _
  | cons part parts ih =>
      have hpart := (sound_tableElement hE hclauses t).within (hparts part List.mem_cons_self)
      exact hpart.bind fun u => ih (fun part h => hparts part (List.mem_cons_of_mem _ h)) u

theorem sound_table : Sound d P E (table clauses) := by
  refine (Sound.keywords _).bind fun _ => (Sound.qualifiedName hE).bind fun _ => ?_
  refine .afterGroup fun body hbody => ?_
  refine (sound_tableElements hE hclauses (Sound.mem_splitCommas hbody) _).bind fun t => ?_
  exact .untilEnd (sound_tableStep hclauses) _

theorem sound_create : Sound d P E (create clauses) := by
  refine (Sound.keywords _).bind fun _ => (sound_dialectOptions hclauses ()).bind fun _ => ?_
  refine hclauses.createForm.attempt.bind fun form => ?_
  cases form with
  | some o => exact .pure _
  | none =>
      refine (Sound.iterate sound_createStep _).bind fun o => (Sound.oneOf _).bind fun type => ?_
      split
      · exact (sound_table hE hclauses).bind fun _ => .pure _
      · exact (sound_index hE hclauses _ _).bind fun _ => .pure _
      · exact (sound_view hE _).bind fun _ => .pure _
      · exact (sound_trigger hE).bind fun _ => .pure _
      · exact (sound_routine hE _).bind fun _ => .pure _
      · exact (sound_routine hE _).bind fun _ => .pure _
      · exact (sound_synonym hE).bind fun _ => .pure _
      · exact .fail

theorem sound_addition : Sound d P E (addition clauses) := by
  refine (Sound.keyword _).bind fun _ => .ite .failed ?_
  refine (Sound.peek _).bind fun _ => .ite ((sound_tableConstraint hE).bind fun _ => .pure _) ?_
  refine (Sound.peek _).bind fun _ => .ite .fail ?_
  refine (Sound.keyword _).bind fun _ => (Sound.keywords _).bind fun _ => ?_
  exact (sound_column hE hclauses 0).bind fun _ => .pure _

theorem sound_alter : Sound d P E (alter clauses) := by
  refine (Sound.keyword _).bind fun _ => .ite .failed ?_
  refine (Sound.keywords _).bind fun _ => (Sound.keyword _).bind fun _ => ?_
  refine (Sound.qualifiedName hE).bind fun _ => ?_
  refine (Sound.peek id).after (Q := fun us => ∀ t ∈ us, P t) ?_ fun us hus => ?_
  · intro ts hts us rest h
    cases h
    exact hts
  · refine (Sound.eachOf (sound_addition hE hclauses) (Sound.mem_splitCommas hus)).bind fun _ => ?_
    exact .ite .failed (.pure _)

end

end SchemaDrift.Grammar
