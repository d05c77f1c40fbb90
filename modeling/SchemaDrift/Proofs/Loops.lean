import SchemaDrift.Proofs.Progress

namespace SchemaDrift

namespace Reader

variable {d : Dialect} {N : List Token → Prop} {α β σ : Type}

/-- The turns of a loop that has no limit: on and on until a turn finds a fault, finds nothing or
says that it is done. `n` counts the turns. -/
inductive Runs (step : σ → Reader (Option σ)) (d : Dialect) :
    σ → List Token → Except Fault (Option σ × List Token) → ℕ → Prop
  | fault {s : σ} {ts : List Token} {f : Fault} (h : step s d ts = .error f) :
      Runs step d s ts (.error f) 1
  | nothing {s : σ} {ts rest : List Token} (h : step s d ts = .ok (none, rest)) :
      Runs step d s ts (.ok (none, rest)) 1
  | done {s : σ} {ts rest : List Token} (h : step s d ts = .ok (some none, rest)) :
      Runs step d s ts (.ok (some s, rest)) 1
  | turn {s next : σ} {ts mid : List Token} {r : Except Fault (Option σ × List Token)} {n : ℕ}
      (h : step s d ts = .ok (some (some next), mid)) (hrest : Runs step d next mid r n) :
      Runs step d s ts r (n + 1)

theorem Runs.unique {step : σ → Reader (Option σ)} {s : σ} {ts : List Token}
    {r r' : Except Fault (Option σ × List Token)} {n n' : ℕ} (h : Runs step d s ts r n)
    (h' : Runs step d s ts r' n') : r' = r ∧ n' = n := by
  induction h generalizing r' n' with
  | fault h | nothing h | done h =>
      cases h' with
      | fault h' | nothing h' | done h' | turn h' =>
          rw [h] at h'
          cases h'
          try exact ⟨rfl, rfl⟩
  | turn h _ ih =>
      cases h' with
      | fault h' | nothing h' | done h' =>
          rw [h] at h'
          cases h'
      | turn h' hrest' =>
          rw [h] at h'
          cases h'
          obtain ⟨hr, hn⟩ := ih hrest'
          exact ⟨hr, by rw [hn]⟩

/-- A loop whose turns take tokens needs no limit. -/
theorem runs_iterate {step : σ → Reader (Option σ)}
    (hstep : ∀ s, Moves d (fun _ => True) (fun next => next.isSome = true) (step s)) (s : σ)
    (ts : List Token) : ∃ n ≤ ts.length + 1, Runs step d s ts (iterate step s d ts) n := by
  induction hn : ts.length using Nat.strong_induction_on generalizing s ts with
  | _ n ih =>
      subst hn
      rw [iterate]
      split
      · next h => exact ⟨1, Nat.le_add_left _ _, .fault h⟩
      · next h => exact ⟨1, Nat.le_add_left _ _, .nothing h⟩
      · next h => exact ⟨1, Nat.le_add_left _ _, .done h⟩
      · next next mid h =>
          have hless : mid.length < ts.length := (hstep s).takes ts trivial _ _ h rfl
          rw [if_pos hless]
          obtain ⟨m, hm, hruns⟩ := ih _ hless next mid rfl
          exact ⟨m + 1, by omega, .turn h hruns⟩

def passWhile (p : Token → Bool) : Reader Unit := fun _ ts => .ok (some (), ts.dropWhile p)

def passStep (p : Token → Bool) (_ : Unit) : Reader (Option Unit) := do
  if ← peek (headIs p) then
    skip
    return some ()
  else return none

def passUntil (stops : List String) : Reader Unit := fun _ ts =>
  .ok (some (), dropUntil stops ts)

def untilStep (stops : List String) (_ : Unit) : Reader (Option Unit) := fun _ ts =>
  match ts with
  | [] => .ok (some none, [])
  | t :: ts =>
      if t.isSymbol "(" then .ok (some (some ()), (Token.groupFrom 1 ts).2)
      else if t.isSymbol "::" then .ok (some (some ()), afterCastType ts)
      else if t.isSymbol "," || stops.any t.isKeyword then .ok (some none, t :: ts)
      else .ok (some (some ()), ts)

theorem moves_passStep (p : Token → Bool) (u : Unit) :
    Moves d N (fun next => next.isSome = true) (passStep p u) := by
  refine .peek fun here => ?_
  cases here with
  | false => exact .pure Bool.false_ne_true
  | true =>
      refine .first (Moves.skip fun ts h => ?_) fun _ => .pure _
      rintro rfl
      cases h.2

theorem moves_untilStep (stops : List String) (u : Unit) :
    Moves d N (fun next => next.isSome = true) (untilStep stops u) := by
  constructor
  · intro ts _
    cases ts with
    | nil => exact List.suffix_rfl
    | cons t ts =>
        unfold untilStep
        dsimp only
        split
        · exact (Token.groupFrom_suffix 1 ts).trans (List.suffix_cons t ts)
        split
        · exact (afterCastType_suffix ts).trans (List.suffix_cons t ts)
        split
        · exact List.suffix_rfl
        · exact List.suffix_cons t ts
  · intro ts _ next rest h hnext
    unfold untilStep at h
    split at h
    · cases h
      cases hnext
    · split at h
      · cases h
        exact Nat.lt_succ_of_le (Token.groupFrom_length 1 _)
      split at h
      · cases h
        exact Nat.lt_succ_of_le (afterCastType_length _)
      split at h
      · cases h
        cases hnext
      · cases h
        exact Nat.lt_succ_self _

/-- A loop is what its first turn leaves to the others. -/
theorem iterate_of_turn {step : σ → Reader (Option σ)} {s next : σ} {ts mid : List Token}
    (h : step s d ts = .ok (some (some next), mid)) (hless : mid.length < ts.length) :
    iterate step s d ts = iterate step next d mid := by
  rw [iterate, h]
  exact if_pos hless

theorem iterate_of_done {step : σ → Reader (Option σ)} {s : σ} {ts rest : List Token}
    (h : step s d ts = .ok (some none, rest)) : iterate step s d ts = .ok (some s, rest) := by
  rw [iterate, h]

theorem passWhile_eq_iterate (p : Token → Bool) :
    (fun _ => passWhile p) = iterate (passStep p) := by
  funext u d ts
  induction ts with
  | nil => exact (iterate_of_done rfl).symm
  | cons t ts ih =>
      by_cases ht : p t = true
      · have hturn : passStep p u d (t :: ts) = .ok (some (some ()), ts) := by
          change (if p t = true then _ else _ : Reader (Option Unit)) d (t :: ts) = _
          rw [if_pos ht]
          rfl
        rw [iterate_of_turn hturn (Nat.lt_succ_self _), ← ih, passWhile, passWhile,
          List.dropWhile_cons_of_pos ht]
      · have hdone : passStep p u d (t :: ts) = .ok (some none, t :: ts) := by
          change (if p t = true then _ else _ : Reader (Option Unit)) d (t :: ts) = _
          rw [if_neg ht]
          rfl
        rw [iterate_of_done hdone, passWhile, List.dropWhile_cons_of_neg ht]

theorem passUntil_eq_iterate (stops : List String) :
    (fun _ => passUntil stops) = iterate (untilStep stops) := by
  funext u d ts
  change (.ok (some (), dropUntil stops ts) : Except Fault (Option Unit × List Token)) = _
  fun_induction dropUntil stops ts with
  | case1 => exact (iterate_of_done rfl).symm
  | case2 t ts h ih =>
      have hturn : untilStep stops u d (t :: ts) = .ok (some (some ()), (Token.groupFrom 1 ts).2) :=
        if_pos h
      rw [iterate_of_turn hturn (Nat.lt_succ_of_le (Token.groupFrom_length 1 ts))]
      exact ih
  | case3 t ts h h' ih =>
      have hturn : untilStep stops u d (t :: ts) = .ok (some (some ()), afterCastType ts) :=
        (if_neg h).trans (if_pos h')
      rw [iterate_of_turn hturn (Nat.lt_succ_of_le (afterCastType_length ts))]
      exact ih
  | case4 t ts h h' h'' =>
      have hdone : untilStep stops u d (t :: ts) = .ok (some none, t :: ts) :=
        (if_neg h).trans ((if_neg h').trans (if_pos h''))
      exact (iterate_of_done hdone).symm
  | case5 t ts h h' h'' ih =>
      have hturn : untilStep stops u d (t :: ts) = .ok (some (some ()), ts) :=
        (if_neg h).trans ((if_neg h').trans (if_neg h''))
      rw [iterate_of_turn hturn (Nat.lt_succ_self _)]
      exact ih

/-- All but a comma and a stop word is passed over. -/
theorem dropUntil_length_lt {stops : List String} {t : Token} {ts : List Token}
    (hcomma : t.isSymbol "," = false) (hstop : stops.any t.isKeyword = false) :
    (dropUntil stops (t :: ts)).length < (t :: ts).length := by
  rw [dropUntil, hcomma, hstop, Bool.false_or, if_neg Bool.false_ne_true]
  split
  · exact Nat.lt_succ_of_le
      ((dropUntil_suffix stops _).length_le.trans (Token.groupFrom_length 1 ts))
  split
  · exact Nat.lt_succ_of_le
      ((dropUntil_suffix stops _).length_le.trans (afterCastType_length ts))
  · exact Nat.lt_succ_of_le (dropUntil_suffix stops ts).length_le

theorem exists_group {ts : List Token} (h : atSymbol "(" ts = true) :
    ∃ us rest, group d ts = .ok (some us, rest) ∧ rest.length < ts.length := by
  cases ts with
  | nil => cases h
  | cons t ts =>
      exact ⟨_, _, if_pos h, Nat.lt_succ_of_le (Token.groupFrom_length 1 ts)⟩

def Finds (d : Dialect) (N : List Token → Prop) (p : Reader α) : Prop :=
  ∀ ts, N ts → ∃ a rest, p d ts = .ok (some a, rest)

namespace Finds

theorem pure (a : α) : Finds d N (Pure.pure a : Reader α) := fun ts _ => ⟨a, ts, rfl⟩

theorem bind {p : Reader α} {f : α → Reader β} (hp : Finds d N p)
    (hf : ∀ a, Finds d (fun _ => True) (f a)) : Finds d N (p >>= f) := by
  intro ts hts
  obtain ⟨a, mid, ha⟩ := hp ts hts
  obtain ⟨b, rest, hb⟩ := hf a mid trivial
  exact ⟨b, rest, bind_eq_some.2 ⟨a, mid, ha, hb⟩⟩

theorem ite {c : Prop} [Decidable c] {p q : Reader α} (hp : c → Finds d N p)
    (hq : Finds d N q) : Finds d N (if c then p else q) := by
  split
  · next hc => exact hp hc
  · exact hq

theorem peek {g : List Token → α} {f : α → Reader β}
    (hf : ∀ a, Finds d (fun ts => N ts ∧ g ts = a) (f a)) : Finds d N (Reader.peek g >>= f) :=
  fun ts hts => hf (g ts) ts ⟨hts, rfl⟩

theorem skip : Finds d N Reader.skip := fun ts _ => ⟨(), ts.tail, rfl⟩

theorem symbol (s : String) : Finds d N (Reader.symbol s) := by
  intro ts _
  unfold Reader.symbol
  split
  · exact ⟨true, ts.tail, rfl⟩
  · exact ⟨false, ts, rfl⟩

/-- A reader without faults finds something or finds nothing. -/
theorem optional {p : Reader α} (hp : Sound d (fun _ => True) (fun _ => False) p) :
    Finds d N (Reader.optional p) := by
  intro ts _
  have hfits := hp ts fun _ _ => trivial
  unfold Reader.optional
  cases h : p d ts with
  | error f =>
      rw [h] at hfits
      exact hfits.elim
  | ok r => exact ⟨r.1, r.2, rfl⟩

theorem withSource {p : Reader α} (hp : Finds d N p) : Finds d N (Reader.withSource p) := by
  intro ts hts
  obtain ⟨a, rest, ha⟩ := hp ts hts
  unfold Reader.withSource
  rw [ha]
  exact ⟨_, _, rfl⟩

theorem value : Finds d (fun ts => ts ≠ []) Reader.value := by
  refine .peek fun opens => .ite (fun hopens => ?_) (.bind ?_ fun _ => .pure _)
  · refine .bind (.withSource fun ts hts => ?_) fun _ => .pure _
    obtain ⟨us, rest, h, -⟩ := exists_group (hts.2.trans hopens)
    exact ⟨us, rest, h⟩
  · intro ts hts
    cases ts with
    | nil => exact absurd rfl hts.1
    | cons t ts => exact ⟨t, ts, rfl⟩

end Finds

end Reader

namespace Grammar

open Reader

theorem finds_optionValue (d : Dialect) (s : List Char) :
    Finds d (fun _ => True) (optionValue s) :=
  .bind (.bind (fun ts _ => ⟨d, ts, rfl⟩) fun _ => .pure _) fun _ => .pure _

theorem finds_looseOption (d : Dialect) (options : Options) :
    Finds d (fun ts => ts ≠ []) (looseOption options) := by
  refine .peek fun word => ?_
  cases word with
  | some key =>
      refine .bind .skip fun _ => .bind (.symbol _) fun _ => .peek fun starts => ?_
      refine .ite (fun _ => ?_) (.pure _)
      refine .bind (.optional Sound.value) fun v => ?_
      cases v with
      | none => exact .pure _
      | some v => exact .bind (finds_optionValue d v) fun _ => .pure _
  | none =>
      refine .peek fun opens => .ite (fun _ => ?_) (.bind .skip fun _ => .pure _)
      refine .bind (fun ts hts => Finds.value ts hts.1.1) fun v => ?_
      exact .bind (finds_optionValue d v) fun _ => .pure _

/-- Each loop of the grammar, with what it does in one turn. `sourceUntil` takes what the
first of the last two passes over, and words are skipped with the second. -/
inductive Loop (clauses : Clauses) :
    (σ : Type) → (σ → Reader σ) → (σ → Reader (Option σ)) → Prop
  | names : Loop clauses (List String) moreParts moreStep
  | types : Loop clauses TypeDraft (iterate typeStep) typeStep
  | methods : Loop clauses (List String) methodWords methodStep
  | references : Loop clauses ForeignKey (iterate referenceStep) referenceStep
  | events : Loop clauses (List Event × Bool) (iterate eventStep) eventStep
  | words : Loop clauses CreateOptions (iterate createStep) createStep
  | options : Loop clauses Unit (dialectOptions clauses) (optionStep clauses)
  | columns : Loop clauses ColumnDraft (untilEnd (columnStep clauses))
      (untilEndStep (columnStep clauses))
  | tables : Loop clauses Table (untilEnd (tableStep clauses)) (untilEndStep (tableStep clauses))
  | indexes : Loop clauses IndexDraft (untilEnd (indexStep clauses))
      (untilEndStep (indexStep clauses))
  | keys : Loop clauses Index (untilEnd MySql.keyOption) (untilEndStep MySql.keyOption)
  | hosts : Loop clauses Unit MySql.hosts MySql.hostStep
  | placements : Loop clauses (List String) Db2.placementParts Db2.placementStep
  | sources (stops : List String) : Loop clauses Unit (fun _ => passUntil stops) (untilStep stops)
  | skips (p : Token → Bool) : Loop clauses Unit (fun _ => passWhile p) (passStep p)

variable {d : Dialect} {clauses : Clauses} {σ : Type} {loop : σ → Reader σ}
  {step : σ → Reader (Option σ)}

theorem Loop.eq_iterate (h : Loop clauses σ loop step) : loop = iterate step := by
  cases h with
  | sources stops => exact passUntil_eq_iterate stops
  | skips p => exact passWhile_eq_iterate p
  | _ => rfl

theorem Loop.moves (hclauses : clauses.Move d) (h : Loop clauses σ loop step) (s : σ) :
    Moves d (fun _ => True) (fun next => next.isSome = true) (step s) := by
  cases h with
  | names => exact moves_moreStep s
  | types => exact moves_typeStep s
  | methods => exact moves_methodStep s
  | references => exact moves_referenceStep s
  | events => exact moves_eventStep s
  | words => exact moves_createStep s
  | options => exact moves_optionStep hclauses s
  | columns => exact .untilEnd (moves_columnStep hclauses) s
  | tables => exact .untilEnd (moves_tableStep hclauses) s
  | indexes => exact .untilEnd (moves_indexStep hclauses) s
  | keys => exact .untilEnd MySql.moves_keyOption s
  | hosts => exact MySql.moves_hostStep s
  | placements => exact Db2.moves_placementStep s
  | sources stops => exact moves_untilStep stops s
  | skips p => exact moves_passStep p s

/-- Every loop of the grammar ends by itself, after at most one turn for each token and a last one.
It does so because what a dialect finds of its own has taken a token, and so has an option that
nothing models, a source that does not begin with its end, and a group. -/
theorem loops_end (d : Dialect) :
    (∀ σ loop step, Loop (Clauses.ofDialect d) σ loop step → ∀ s ts, ∃ n ≤ ts.length + 1,
      Runs step d s ts (loop s d ts) n ∧
        ∀ r m, Runs step d s ts r m → r = loop s d ts ∧ m = n) ∧
    (Clauses.ofDialect d).Move d ∧
    (∀ options ts, ts ≠ [] → ∃ found rest, looseOption options d ts = .ok (some found, rest) ∧
      rest.length < ts.length) ∧
    (∀ stops t ts, t.isSymbol "," = false → stops.any t.isKeyword = false →
      (dropUntil stops (t :: ts)).length < (t :: ts).length) ∧
    ∀ ts, atSymbol "(" ts = true → ∃ us rest, group d ts = .ok (some us, rest) ∧
      rest.length < ts.length := by
  have hclauses : (Clauses.ofDialect d).Move d := Clauses.move_ofDialect d
  refine ⟨fun σ loop step h s ts => ?_, hclauses, fun options ts hts => ?_,
    fun _ _ _ => dropUntil_length_lt, fun _ => exists_group⟩
  · obtain ⟨n, hn, hruns⟩ := runs_iterate (fun s => h.moves hclauses s) s ts
    rw [← h.eq_iterate] at hruns
    exact ⟨n, hn, hruns, fun r m => hruns.unique⟩
  · obtain ⟨found, rest, hfound⟩ := finds_looseOption d options ts hts
    exact ⟨found, rest, hfound, (moves_looseOption options).takes ts hts _ _ hfound trivial⟩

def hostTokens : List Token :=
  [⟨.symbol, [], ['@']⟩, ⟨.string, [], "'%'".toList⟩, ⟨.symbol, [], ['@']⟩]

def openTokens : List Token := [⟨.symbol, [], ['(']⟩, ⟨.symbol, [], ['(']⟩]

theorem loops_end_hosts :
    (∃ n ≤ 4, Runs MySql.hostStep .mySql () hostTokens (.ok (some (), [])) n) ∧
    (∃ found rest, looseOption .empty .mySql hostTokens = .ok (some found, rest) ∧
      rest.length < 3) ∧
    (dropUntil [] hostTokens).length < 3 ∧
    ∃ us rest, group .mySql openTokens = .ok (some us, rest) ∧ rest.length < 2 := by
  obtain ⟨hloops, -, hoption, huntil, hgroup⟩ := loops_end .mySql
  have hhosts : MySql.hosts () .mySql hostTokens = .ok (some (), []) := by decide +kernel
  refine ⟨?_, ?_, ?_, ?_⟩
  · obtain ⟨n, hn, hruns, -⟩ := hloops _ _ _ .hosts () hostTokens
    rw [hhosts] at hruns
    exact ⟨n, hn, hruns⟩
  · exact hoption .empty hostTokens (List.cons_ne_nil _ _)
  · exact huntil [] ⟨.symbol, [], ['@']⟩ hostTokens.tail (by decide) (by decide)
  · exact hgroup openTokens (by decide)

end Grammar

end SchemaDrift
