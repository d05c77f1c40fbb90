import SchemaDrift.Proofs.ReferencedNames
import SchemaDrift.Proofs.Tables

namespace SchemaDrift

namespace Reader

inductive Result (total : Prop) {α β : Type} (R : α → β → Prop) :
    Except Fault α → Except Fault β → Prop
  | fault {e f : Fault} (h : ¬ total) : Result total R (.error e) (.error f)
  | found {a : α} {b : β} (hab : R a b) : Result total R (.ok a) (.ok b)

variable {d : Dialect} {total : Prop} {α β γ δ : Type} {R : α → β → Prop} {S : γ → δ → Prop}

theorem Result.mono {x : Except Fault α} {y : Except Fault β} {total' : Prop}
    {R' : α → β → Prop} (h : Result total R x y) (htotal : total' → total)
    (hR : ∀ a b, R a b → R' a b) : Result total' R' x y := by
  cases h with
  | fault h => exact .fault (h ∘ htotal)
  | found hab => exact .found (hR _ _ hab)

theorem Result.bind {x : Except Fault α} {y : Except Fault β} {f : α → Except Fault γ}
    {g : β → Except Fault δ} (h : Result total R x y)
    (hf : ∀ a b, R a b → Result total S (f a) (g b)) : Result total S (x >>= f) (y >>= g) := by
  cases h with
  | fault h => exact .fault h
  | found hab => exact hf _ _ hab

/-- What holds of every part of a whole holds of the first part and of the others. -/
theorem Result.cons {ι : Type} {P : ι → Prop} {i : ι} {is : List ι} {x : Except Fault α}
    {y : Except Fault β} {f : α → Except Fault γ} {g : β → Except Fault δ}
    (h : Result (P i) R x y) (hf : ∀ a b, R a b → Result (∀ j ∈ is, P j) S (f a) (g b)) :
    Result (∀ j ∈ i :: is, P j) S (x >>= f) (y >>= g) := by
  refine (h.mono (fun hall => hall i List.mem_cons_self) fun _ _ hab => hab).bind fun a b hab => ?_
  exact (hf a b hab).mono (fun hall j hj => hall j (List.mem_cons_of_mem i hj)) fun _ _ h => h

theorem Agrees.run? {p : Reader α} {q : Reader β} (hp : Agrees d total R p q) {s t : List Char}
    (h : Alike d total (Token.lex d s) (Token.lex d t)) :
    Result total (Option.Rel R) (Reader.run? p d s) (Reader.run? q d t) := by
  have hout := hp _ _ h
  unfold Reader.run?
  generalize p d (Token.lex d s) = x, q d (Token.lex d t) = y at hout ⊢
  cases hout with
  | fault h => exact .fault h
  | nothing h => exact .found .none
  | found hab h => exact .found (.some hab)

theorem Agrees.ofExcept {r : Except Fault α} {r' : Except Fault β} (h : ∃ a, r = .ok a)
    (h' : ∃ b, r' = .ok b) :
    Agrees d total (fun _ _ => True) (Reader.ofExcept r) (Reader.ofExcept r') := by
  obtain ⟨a, rfl⟩ := h
  obtain ⟨b, rfl⟩ := h'
  exact fun _ _ h => .found trivial h

end Reader

namespace Grammar

open Reader

variable {d : Dialect} {total : Prop}

theorem steady_skipModifiers : Steady d total skipModifiers := by
  intro ts us h
  refine .found rfl (h.dropWhile fun t => ?_)
  by_cases hword : t.isWord = true
  · rw [t.isWord_folded, t.text_folded_of_word hword, Text.upper_asciiUpper]
  · simp [hword]

theorem steady_upperWord : Steady d total upperWord := by
  refine .after .peekUpper fun word => ?_
  exact .after (.ofOption word) fun _ => .after .skip fun _ => .pure rfl

theorem steady_objectType : Steady d total objectType := by
  refine .after steady_upperWord fun first => .ite ?_ (.pure rfl)
  refine .after steady_upperWord.attempt fun second => ?_
  cases second <;> exact .pure rfl

theorem steady_createLabel : Steady d total createLabel := by
  refine .after .skip fun _ => ?_
  refine .after steady_skipModifiers fun _ => ?_
  refine .after steady_objectType fun type => ?_
  refine .after (.keywords _) fun _ => ?_
  exact .after .qualifiedName fun _ => .pure rfl

theorem sameSource_of_alike {s t : List Char} (h : Alike d total (Token.lex d s) (Token.lex d t)) :
    canonicalSql d s = canonicalSql d t := by
  rw [canonicalSql, Token.canonical, h.eq_of Token.render_map_folded, canonicalSql, Token.canonical]

theorem agrees_rawStatement {s t : List Char}
    (h : Alike d total (Token.lex d s) (Token.lex d t)) :
    Result total Eq (rawStatement d s) (rawStatement d t) := by
  have hverb := h.eq_of upperWord?_map_folded
  unfold rawStatement
  dsimp only
  rw [hverb, sameSource_of_alike h]
  split
  · refine (Agrees.run? steady_createLabel h).bind fun label label' hlabel => ?_
    rw [rel_eq hlabel]
    exact .found rfl
  · exact .found rfl

theorem agrees_view (materialized : Bool) :
    Agrees d total (fun v v' : View => { v with references := [] } = { v' with references := [] })
      (view materialized) (view materialized) := by
  refine .after (.keywords _) fun _ => ?_
  refine .after .qualifiedName fun name => ?_
  refine .after steady_keyColumns fun columns => ?_
  refine .after (.keyword _) fun _ => .joined .skipGroup ?_
  refine .after (.keyword _) fun _ => .ite .failed ?_
  refine Agrees.rest.bind fun s t h => .withDialect ?_
  refine (Agrees.ofExcept (viewReferences_ok name s) (viewReferences_ok name t)).bind fun _ _ _ => ?_
  exact (steady_canonical h).bind fun _ _ heq => .pure (by rw [heq])

theorem steady_createStep (o : CreateOptions) : Steady d total (createStep o) := by
  have htook (o : CreateOptions) : Steady d total (do skip; return some o) :=
    .after .skip fun _ => .pure rfl
  refine .after .peekUpper fun word => ?_
  dsimp only
  split
  · exact htook _
  · exact htook _
  · exact htook _
  · exact htook _
  · exact .ite (htook _) (.pure rfl)
  · exact .pure rfl

theorem startsOtherAddition_map_folded (ts : List Token) :
    startsOtherAddition (ts.map Token.folded) = startsOtherAddition ts := by
  rw [startsOtherAddition, upperWord?_map_folded, startsOtherAddition]

section

variable {clauses : Clauses} (hclauses : clauses.Agree d total)

include hclauses

theorem steady_dialectOptions (u : Unit) : Steady d total (dialectOptions clauses u) :=
  Steady.iterate (fun _ => .after hclauses.createOption fun _ => .pure rfl) u

theorem agrees_create :
    Agrees d total (fun o o' => o.settled d = o'.settled d) (create clauses) (create clauses) := by
  refine .after (.keywords _) fun _ => ?_
  refine .after (steady_dialectOptions hclauses ()) fun _ => ?_
  refine .after hclauses.createForm.attempt fun form => ?_
  cases form with
  | some o => exact .pure rfl
  | none =>
      refine .after (Steady.iterate steady_createStep _) fun o => ?_
      refine .after (.oneOf _) fun type => ?_
      split
      · refine (agrees_table hclauses).bind fun t t' h => .pure ?_
        exact congrArg Object.table h
      · exact .after (steady_index hclauses.indexClause _ _) fun _ => .pure rfl
      · refine (agrees_view _).bind fun v v' h => .pure ?_
        exact congrArg Object.view h
      · exact .after steady_trigger fun _ => .pure rfl
      · exact .after (steady_routine _) fun _ => .pure rfl
      · exact .after (steady_routine _) fun _ => .pure rfl
      · exact .after steady_synonym fun _ => .pure rfl
      · exact .fail

theorem agrees_addition :
    Agrees d total
      (fun a b => a.map (TableChange.settled d) = b.map (TableChange.settled d))
      (addition clauses) (addition clauses) := by
  refine .after (.keyword _) fun _ => .ite .failed ?_
  refine .after (.peek startsConstraint_map_folded) fun _ => .ite ?_ ?_
  · exact .after steady_tableConstraint fun _ => .pure rfl
  refine .after (.peek startsOtherAddition_map_folded) fun _ => .ite .fail ?_
  refine .after (.keyword _) fun _ => ?_
  refine .after (.keywords _) fun _ => ?_
  refine (agrees_column hclauses 0).bind fun p p' h => ?_
  obtain ⟨c, lifted⟩ := p
  obtain ⟨c', lifted'⟩ := p'
  obtain ⟨hc, hlifted⟩ := h
  refine .pure ?_
  dsimp only at hc hlifted
  rw [hlifted, List.map_cons, List.map_cons, TableChange.settled, TableChange.settled, hc]

theorem agrees_alter :
    Agrees d total (fun a b => a.1 = b.1 ∧
      a.2.map (TableChange.settled d) = b.2.map (TableChange.settled d))
      (alter clauses) (alter clauses) := by
  refine .after (.keyword _) fun _ => .ite .failed ?_
  refine .after (.keywords _) fun _ => ?_
  refine .after (.keyword _) fun _ => ?_
  refine .after .qualifiedName fun name => ?_
  refine (Agrees.peek (R := Alike d total) fun _ _ h => h).bind fun ts us h => ?_
  refine (Agrees.eachOf (agrees_addition hclauses) h.splitCommas).bind fun parts parts' hparts => ?_
  have hflat : parts.flatten.map (TableChange.settled d) =
      parts'.flatten.map (TableChange.settled d) := by
    induction hparts with
    | nil => rfl
    | cons hpart _ ih => simp only [List.flatten_cons, List.map_append, hpart, ih]
  have hempty : parts.flatten.isEmpty = parts'.flatten.isEmpty := by
    rw [← List.isEmpty_map (f := TableChange.settled d), hflat, List.isEmpty_map]
  dsimp only
  rw [hempty]
  exact .ite .failed (.pure ⟨rfl, hflat⟩)

end

end Grammar

open Reader Grammar

theorem Definition.ofChars?_agrees {d : Dialect} {total : Prop} {s t : List Char}
    (h : Alike d total (Token.lex d s) (Token.lex d t)) :
    Result total (Option.Rel fun a b => a.settled d = b.settled d)
      (ofChars? d s) (ofChars? d t) := by
  have hclauses : (Clauses.ofDialect d).Agree d total := Clauses.agree_ofDialect d
  have hraw := agrees_rawStatement h
  unfold ofChars?
  dsimp only
  rw [h.eq_of upperWord?_map_folded]
  split
  · refine (Agrees.run? (.after .skip fun _ => agrees_create hclauses) h).bind fun o o' ho => ?_
    cases ho with
    | some ho => exact .found (.some (congrArg Definition.object ho))
    | none =>
        refine hraw.bind fun raw raw' heq => ?_
        subst heq
        exact .found (.some rfl)
  · refine hraw.bind fun raw raw' heq => ?_
    subst heq
    refine (Agrees.run? (.after .skip fun _ => agrees_alter hclauses) h).bind fun a a' ha => ?_
    cases ha with
    | none => exact .found (.some rfl)
    | some ha =>
        refine .found (.some ?_)
        rw [Definition.settled, Definition.settled, ha.1, ha.2]
  · refine hraw.bind fun raw raw' heq => ?_
    subst heq
    exact .found (.some rfl)
  · refine hraw.bind fun raw raw' heq => ?_
    subst heq
    exact .found (.some rfl)
  · exact .found .none

end SchemaDrift
