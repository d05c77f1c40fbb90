import SchemaDrift.Grammar.Constraint
import SchemaDrift.Grammar.Index
import SchemaDrift.Grammar.Trigger
import SchemaDrift.Proofs.Readings

namespace SchemaDrift.Grammar

open Reader

variable {d : Dialect} {total : Prop} {s t : List Char}

theorem steady_canonical (h : SameSource d total s t) :
    Agrees d total Eq (canonical s) (canonical t) :=
  .withDialect (.pure h.canonicalSql_eq)

theorem steady_canonicalExpression (h : SameSource d total s t) :
    Agrees d total Eq (canonicalExpression s) (canonicalExpression t) :=
  .withDialect (.pure h.canonicalExpr_eq)

theorem steady_optionValue (h : SameSource d total s t) :
    Agrees d total Eq (optionValue s) (optionValue t) := by
  refine (steady_canonical h).bind (fun text text' htext => ?_)
  subst htext
  exact .pure rfl

theorem steady_assigned : Steady d total assigned := by
  refine .after (.symbol "=") (fun _ => ?_)
  exact Agrees.value.bind (fun _ _ h => steady_optionValue h)

@[simp]
theorem startsValue_map_folded (key : String) (ts : List Token) :
    startsValue key (ts.map Token.folded) = startsValue key ts := by
  have hliteral : headIs isLiteral (ts.map Token.folded) = headIs isLiteral ts :=
    headIs_map_folded ts (fun _ => rfl)
  have hword : headIs Token.isWord (ts.map Token.folded) = headIs Token.isWord ts :=
    headIs_map_folded ts (fun _ => rfl)
  simp [startsValue, hliteral, hword]

theorem steady_looseOption (options : Options) : Steady d total (looseOption options) := by
  refine .after .peekUpper fun word => ?_
  cases word with
  | some key =>
      refine .after .skip fun _ => ?_
      refine .after (.symbol "=") fun assigns => ?_
      refine .after (.peek (startsValue_map_folded key)) fun starts => ?_
      refine .ite ?_ (.pure rfl)
      refine Agrees.value.optional.bind fun v v' hv => ?_
      cases hv with
      | none => exact .pure rfl
      | some h => exact (steady_optionValue h).bind fun _ _ heq => .pure (by rw [heq])
  | none =>
      refine .after (.peek (atSymbol_map_folded · "(")) fun opens => ?_
      refine .ite ?_ ?_
      · refine Agrees.value.bind fun v v' hv => ?_
        exact (steady_optionValue hv).bind fun _ _ heq => .pure (by rw [heq])
      · exact .after .skip fun _ => .pure rfl

theorem ofText_eq (h : SameSource d total s t) :
    DefaultValue.ofText d s = DefaultValue.ofText d t := by
  rw [DefaultValue.ofText, h.canonicalExpr_eq, DefaultValue.ofText]

theorem steady_plainKeyColumn : Steady d total plainKeyColumn := by
  have hdirected (sized : String) : Steady d total (do
      let descends ← keyword "DESC"
      let _ ← if descends then pure true else keyword "ASC"
      if ← atEnd then return if descends then sized ++ " DESC" else sized
      else fail) := by
    refine .after (.keyword "DESC") fun descends => ?_
    refine .iteAfter (.pure rfl) (.keyword "ASC") fun _ => ?_
    exact .after .atEnd fun _ => .ite (.pure rfl) .fail
  refine .after .identifier fun name => ?_
  refine Agrees.groupText.optional.bind fun length length' hlength => ?_
  refine .withDialect ?_
  cases hlength with
  | none => exact hdirected name
  | some h =>
      dsimp only
      rw [h.canonicalSql_eq]
      exact hdirected _

theorem steady_keyColumn : Steady d total keyColumn := by
  refine .after steady_plainKeyColumn.attempt fun column => ?_
  cases column with
  | some column => exact .pure rfl
  | none =>
      refine .withDialect ?_
      exact Agrees.rest.bind fun _ _ h => .pure (by rw [h.canonicalSql_eq])

theorem steady_keyColumns : Steady d total keyColumns := by
  refine Agrees.group.optional.bind fun ts us h => ?_
  cases h with
  | none => exact .pure rfl
  | some h => exact (Agrees.eachOf steady_keyColumn h.splitCommas).mono fun _ _ => forall₂_eq

theorem steady_referentialAction : Steady d total referentialAction := by
  refine .after (.keywords _) fun _ => .ite (.pure rfl) ?_
  refine .after (.keywords _) fun _ => .ite (.pure rfl) ?_
  exact .after (.keywords _) fun _ => .ite (.pure rfl) (Steady.oneOf _)

theorem steady_referenceStep (k : ForeignKey) : Steady d total (referenceStep k) := by
  refine .after (.keywords _) fun _ => .ite ?_ ?_
  · exact .after steady_referentialAction fun _ => .pure rfl
  refine .after (.keywords _) fun _ => .ite ?_ ?_
  · exact .after steady_referentialAction fun _ => .pure rfl
  refine .after (.keyword _) fun _ => .ite ?_ (.pure rfl)
  exact .after .skip fun _ => .pure rfl

theorem steady_references : Steady d total references := by
  refine .after (.keyword _) fun _ => .ite ?_ .fail
  refine .after .qualifiedName fun table => ?_
  refine .after steady_keyColumns fun columns => ?_
  exact Steady.iterate steady_referenceStep _

@[simp]
theorem startsConstraint_map_folded (ts : List Token) :
    startsConstraint (ts.map Token.folded) = startsConstraint ts := by
  have hopen : headIs (fun t => t.text == ['(']) (ts.tail.map Token.folded) =
      headIs (fun t => t.text == ['(']) ts.tail :=
    headIs_map_folded ts.tail Token.text_folded_beq_opening
  simp [startsConstraint, ← List.map_tail, hopen]

theorem steady_skipIndexMethod : Steady d total skipIndexMethod := by
  refine .after (.keywords _) fun _ => .ite ?_ (.pure rfl)
  exact .after (.keywords _) fun _ => .pure rfl

theorem steady_givenName : Steady d total givenName := by
  refine .after (.keyword _) fun _ => .ite ?_ (.pure rfl)
  refine .after (.peek fun ts => by simp) fun _ => .ite (.pure rfl) ?_
  exact Steady.identifier.optional

theorem steady_indexName {isAbsent : List Token → Bool}
    (h : ∀ ts, isAbsent (ts.map Token.folded) = isAbsent ts) :
    Steady d total (indexName isAbsent) :=
  .after (.peek h) fun _ => .ite (.pure rfl) Steady.identifier.optional

theorem steady_rule : Steady d total rule := by
  refine .after (.keywords _) fun _ => .ite ?_ ?_
  · refine .after steady_skipIndexMethod fun _ => ?_
    exact .after steady_keyColumns fun _ => .pure rfl
  refine .after (.keyword _) fun _ => .ite ?_ ?_
  · refine .after (.oneOf _) fun _ => ?_
    refine .after (steady_indexName fun ts => by simp) fun _ => ?_
    refine .after steady_skipIndexMethod fun _ => ?_
    exact .after steady_keyColumns fun _ => .pure rfl
  refine .after (.keywords _) fun _ => .ite ?_ ?_
  · refine .after (steady_indexName fun ts => by simp) fun _ => ?_
    refine .after steady_keyColumns fun _ => ?_
    exact .after steady_references fun _ => .pure rfl
  refine .after (.keyword _) fun _ => .ite ?_ .fail
  refine Agrees.groupText.bind fun _ _ h => ?_
  exact (steady_canonicalExpression h).bind fun _ _ heq => .pure (by rw [heq])

theorem steady_modifiers : Steady d total modifiers := by
  refine Agrees.rest.bind fun s t h => ?_
  rw [h.isEmpty_eq]
  refine .ite (.pure rfl) ?_
  exact (steady_canonical h).bind fun _ _ heq => .pure (by rw [heq])

theorem steady_tableConstraint : Steady d total tableConstraint := by
  refine .after steady_givenName fun name => ?_
  refine .after steady_rule fun r => ?_
  refine .after steady_skipIndexMethod fun _ => ?_
  exact .after steady_modifiers fun _ => .pure rfl

@[simp]
theorem startsIndexParameters_map_folded (ts : List Token) :
    startsIndexParameters (ts.map Token.folded) = startsIndexParameters ts := by
  have hopen : headIs (fun t => t.text == ['(']) (ts.tail.map Token.folded) =
      headIs (fun t => t.text == ['(']) ts.tail :=
    headIs_map_folded ts.tail Token.text_folded_beq_opening
  simp [startsIndexParameters, ← List.map_tail, hopen]

theorem steady_methodOr (method : Option String) : Steady d total (methodOr method) :=
  .after (.keyword _) fun _ => .ite Steady.identifier.optional (.pure rfl)

/-- What a dialect adds is the same in both readings, apart from what columns and tables keep as
written. -/
theorem steady_indexStep {clauses : Clauses} (hclause : ∀ i, Steady d total (clauses.indexClause i))
    (r : IndexDraft) : Steady d total (indexStep clauses r) := by
  refine .after (hclause r.index) fun i => ?_
  cases i with
  | some i => exact .pure rfl
  | none =>
      refine .after (.keyword _) fun _ => .ite ?_ ?_
      · exact .after steady_keyColumns fun _ => .pure rfl
      refine .after (.keyword _) fun _ => .ite ?_ ?_
      · refine Agrees.rest.bind fun _ _ h => ?_
        exact (steady_canonicalExpression h).bind fun _ _ heq => .pure (by rw [heq])
      refine .after (.peek startsIndexParameters_map_folded) fun _ => .ite ?_ ?_
      · refine .after .skip fun _ => ?_
        refine Agrees.groupText.optional.bind fun _ _ h => ?_
        exact (steady_canonical (Agrees.getD_nil h)).bind fun _ _ heq => .pure (by rw [heq])
      refine .after (.keyword _) fun _ => .ite ?_ ?_
      · exact .after Steady.identifier.optional fun _ => .pure rfl
      refine .after (.keyword _) fun _ => .ite ?_ ?_
      · exact .after Steady.identifier.optional fun _ => .pure rfl
      exact .after (steady_looseOption _) fun _ => .pure rfl

theorem steady_index {clauses : Clauses} (hclause : ∀ i, Steady d total (clauses.indexClause i))
    (unique : Bool) (kind : IndexKind) : Steady d total (index clauses unique kind) := by
  refine .after (.keyword _) fun _ => ?_
  refine .after (.keywords _) fun _ => ?_
  refine .after (.peek (atKeyword_map_folded · "ON")) fun _ => ?_
  refine .iteAfter (.pure rfl) (Steady.qualifiedName.map some) fun name => ?_
  refine .after (steady_methodOr none) fun method => ?_
  refine .after (.keyword _) fun _ => .ite .failed ?_
  refine .after (.keyword _) fun _ => ?_
  refine .after .qualifiedName fun table => ?_
  refine .after (steady_methodOr method) fun method => ?_
  refine .after steady_keyColumns fun columns => .ite .failed ?_
  exact .after (Steady.untilEnd (steady_indexStep hclause) _) fun _ => .pure rfl

theorem steady_timing : Steady d total timing := by
  refine .after (.keywords _) fun _ => .ite (.pure rfl) ?_
  refine .after (.keyword _) fun _ => .ite (.pure rfl) ?_
  refine .after (.keyword _) fun _ => .ite (.pure rfl) ?_
  exact .after (.keywords _) fun _ => .ite (.pure rfl) (.pure rfl)

theorem steady_event? : Steady d total event? := by
  refine .after (.oneOf _) fun word => ?_
  split <;> exact .pure rfl

theorem steady_skipColumns : Steady d total skipColumns :=
  fun _ _ h => .found rfl (h.dropWhile fun t => by simp)

theorem steady_eventStep (found : List Event × Bool) : Steady d total (eventStep found) := by
  refine .ite (.pure rfl) ?_
  refine .after steady_event? fun event => ?_
  cases event with
  | none => exact .pure rfl
  | some event =>
      have hmore : Steady d total (do
          let or ← keyword "OR"
          let more ← if or then pure true else symbol ","
          return some (found.1 ++ [event], more)) :=
        .after (.keyword _) fun _ => .iteAfter (.pure rfl) (.symbol _) fun _ => .pure rfl
      refine .ite ?_ hmore
      refine .after (.keyword _) fun _ => .ite ?_ hmore
      exact .after steady_skipColumns fun _ => hmore

theorem steady_trigger : Steady d total trigger := by
  refine .after (.keywords _) fun _ => ?_
  refine .after .qualifiedName fun name => ?_
  refine .after steady_timing fun timing => ?_
  refine .after (.iterate steady_eventStep _) fun (events, _) => .ite .failed ?_
  refine .after (.keyword _) fun _ => .ite .failed ?_
  refine .after .qualifiedName fun table => ?_
  refine Agrees.rest.bind fun _ _ h => ?_
  exact (steady_canonical h).bind fun _ _ heq => .pure (by rw [heq])

theorem steady_routine (kind : RoutineKind) : Steady d total (routine kind) := by
  refine .after (.keywords _) fun _ => ?_
  refine .after .qualifiedName fun name => ?_
  refine Agrees.rest.bind fun _ _ h => ?_
  exact (steady_canonical h).bind fun _ _ heq => .pure (by rw [heq])

theorem steady_synonym : Steady d total synonym := by
  refine .after (.keywords _) fun _ => ?_
  refine .after .qualifiedName fun name => ?_
  refine .after (.keyword _) fun _ => .ite .failed ?_
  refine .after (.oneOf _) fun _ => ?_
  exact .after .qualifiedName fun _ => .pure rfl

end SchemaDrift.Grammar
