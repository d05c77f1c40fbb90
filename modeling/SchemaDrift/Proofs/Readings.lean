import SchemaDrift.Proofs.Alike

namespace SchemaDrift.Reader

inductive Outcome (d : Dialect) (total : Prop) {α β : Type} (R : α → β → Prop) :
    Except Fault (Option α × List Token) → Except Fault (Option β × List Token) → Prop
  | fault {e f : Fault} (h : ¬ total) : Outcome d total R (.error e) (.error f)
  | nothing {ts us : List Token} (h : Alike d total ts us) :
      Outcome d total R (.ok (none, ts)) (.ok (none, us))
  | found {a : α} {b : β} {ts us : List Token} (hab : R a b) (h : Alike d total ts us) :
      Outcome d total R (.ok (some a, ts)) (.ok (some b, us))

def Agrees (d : Dialect) (total : Prop) {α β : Type} (R : α → β → Prop) (p : Reader α)
    (q : Reader β) : Prop :=
  ∀ ts us, Alike d total ts us → Outcome d total R (p d ts) (q d us)

/-- The reader finds the same in both readings. -/
abbrev Steady (d : Dialect) (total : Prop) {α : Type} (p : Reader α) : Prop :=
  Agrees d total Eq p p

variable {d : Dialect} {total : Prop} {α β γ δ σ τ : Type} {R : α → β → Prop} {S : γ → δ → Prop}

namespace Agrees

theorem pure {a : α} {b : β} (h : R a b) :
    Agrees d total R (Pure.pure a : Reader α) (Pure.pure b : Reader β) :=
  fun _ _ halike => .found h halike

theorem fail : Agrees d total R (Reader.fail : Reader α) (Reader.fail : Reader β) :=
  fun _ _ halike => .nothing halike

theorem bind {p : Reader α} {q : Reader β} {f : α → Reader γ} {g : β → Reader δ}
    (hp : Agrees d total R p q) (hf : ∀ a b, R a b → Agrees d total S (f a) (g b)) :
    Agrees d total S (p >>= f) (q >>= g) := by
  intro ts us halike
  have hout := hp ts us halike
  change Outcome d total S (Reader.bind p f d ts) (Reader.bind q g d us)
  unfold Reader.bind
  generalize p d ts = x, q d us = y at hout ⊢
  cases hout with
  | fault h => exact .fault h
  | nothing h => exact .nothing h
  | found hab h => exact hf _ _ hab _ _ h

/-- What comes after a reader that finds the same in both readings. -/
theorem after {p : Reader α} {f : α → Reader γ} {g : α → Reader δ} (hp : Steady d total p)
    (hf : ∀ a, Agrees d total S (f a) (g a)) : Agrees d total S (p >>= f) (p >>= g) := by
  refine hp.bind (fun a b hab => ?_)
  subst hab
  exact hf a

theorem ite {c : Prop} [Decidable c] {p p' : Reader α} {q q' : Reader β}
    (hp : Agrees d total R p q) (hp' : Agrees d total R p' q') :
    Agrees d total R (if c then p else p') (if c then q else q') := by
  split
  · exact hp
  · exact hp'

/-- Two ways to one thing, and what comes after either. -/
theorem iteAfter {c : Prop} [Decidable c] {p p' : Reader α} {f : α → Reader γ} {g : α → Reader δ}
    (hp : Steady d total p) (hp' : Steady d total p')
    (hf : ∀ a, Agrees d total S (f a) (g a)) :
    Agrees d total S (if c then p >>= f else p' >>= f) (if c then p >>= g else p' >>= g) :=
  .ite (.after hp hf) (.after hp' hf)

/-- A step that may be left out. -/
theorem joined {c : Prop} [Decidable c] {p : Reader α} {q : Reader γ} {q' : Reader δ}
    (hp : Steady d total p) (hq : Agrees d total S q q') :
    Agrees d total S (if c then p >>= fun _ => q else q) (if c then p >>= fun _ => q' else q') :=
  .ite (.after hp (fun _ => hq)) hq

/-- Nothing comes after a failure. -/
theorem failed {f : α → Reader γ} {g : β → Reader δ} :
    Agrees d total S (Reader.fail >>= f) (Reader.fail >>= g) :=
  (fail (R := fun _ _ => False)).bind (fun _ _ h => h.elim)

theorem mono {R' : α → β → Prop} {p : Reader α} {q : Reader β} (hp : Agrees d total R p q)
    (hR : ∀ a b, R a b → R' a b) : Agrees d total R' p q := by
  intro ts us halike
  have hout := hp ts us halike
  generalize p d ts = x, q d us = y at hout ⊢
  cases hout with
  | fault h => exact .fault h
  | nothing h => exact .nothing h
  | found hab h => exact .found (hR _ _ hab) h

theorem peek {f : List Token → α} {g : List Token → β}
    (h : ∀ ts us, Alike d total ts us → R (f ts) (g us)) :
    Agrees d total R (Reader.peek f) (Reader.peek g) :=
  fun ts us halike => .found (h ts us halike) halike

theorem optional {p : Reader α} {q : Reader β} (hp : Agrees d total R p q) :
    Agrees d total (Option.Rel R) (Reader.optional p) (Reader.optional q) := by
  intro ts us halike
  have hout := hp ts us halike
  unfold Reader.optional
  generalize p d ts = x, q d us = y at hout ⊢
  cases hout with
  | fault h => exact .fault h
  | nothing h => exact .found .none h
  | found hab h => exact .found (.some hab) h

theorem attempt {p : Reader α} {q : Reader β} (hp : Agrees d total R p q) :
    Agrees d total (Option.Rel R) (Reader.attempt p) (Reader.attempt q) := by
  intro ts us halike
  have hout := hp ts us halike
  unfold Reader.attempt
  generalize p d ts = x, q d us = y at hout ⊢
  cases hout with
  | fault h => exact .fault h
  | nothing h => exact .found .none halike
  | found hab h => exact .found (.some hab) h

theorem within {p : Reader α} {q : Reader β} {ts us : List Token} (halike : Alike d total ts us)
    (hp : Agrees d total R p q) : Agrees d total R (Reader.within ts p) (Reader.within us q) := by
  intro ts' us' halike'
  have hout := hp ts us halike
  unfold Reader.within
  generalize p d ts = x, q d us = y at hout ⊢
  cases hout with
  | fault h => exact .fault h
  | nothing h => exact .nothing halike'
  | found hab h => exact .found hab halike'

theorem withSource {p : Reader α} {q : Reader β} (hp : Agrees d total R p q) :
    Agrees d total (fun a b => R a.1 b.1 ∧ SameSource d total a.2 b.2)
      (Reader.withSource p) (Reader.withSource q) := by
  intro ts us halike
  have hout := hp ts us halike
  unfold Reader.withSource
  generalize p d ts = x, q d us = y at hout ⊢
  cases hout with
  | fault h => exact .fault h
  | nothing h => exact .nothing h
  | found hab h =>
      refine .found ⟨hab, _, _, ?_, rfl, rfl⟩ h
      rw [halike.length_eq, h.length_eq]
      exact halike.take _

theorem eachOf {p : Reader α} {q : Reader β} (hp : Agrees d total R p q)
    {parts parts' : List (List Token)} (h : List.Forall₂ (Alike d total) parts parts') :
    Agrees d total (List.Forall₂ R) (Reader.eachOf p parts) (Reader.eachOf q parts') := by
  induction h with
  | nil => exact .pure .nil
  | cons hpart _ ih =>
      exact (hp.within hpart).bind (fun a b hab => ih.bind (fun as bs hs => .pure (.cons hab hs)))

/-- A loop agrees where its steps do. -/
theorem iterate {R : σ → τ → Prop} {step : σ → Reader (Option σ)} {step' : τ → Reader (Option τ)}
    (hstep : ∀ s t, R s t → Agrees d total (Option.Rel R) (step s) (step' t)) {s : σ} {t : τ}
    (h : R s t) : Agrees d total R (Reader.iterate step s) (Reader.iterate step' t) := by
  intro ts us halike
  induction hn : ts.length using Nat.strong_induction_on generalizing s t ts us with
  | _ n ih =>
      subst hn
      have hout := hstep s t h ts us halike
      rw [Reader.iterate, Reader.iterate]
      generalize step s d ts = x, step' t d us = y at hout ⊢
      cases hout with
      | fault h => exact .fault h
      | nothing h => exact .nothing h
      | found hab hrest =>
          cases hab with
          | none => exact .found h hrest
          | some hnext =>
              dsimp only
              rw [← halike.length_eq, ← hrest.length_eq]
              split
              · next hlt => exact ih _ hlt hnext _ _ hrest rfl
              · exact .found hnext hrest

theorem atEnd : Steady d total Reader.atEnd :=
  .peek (fun _ _ h => h.eq_of (fun _ => List.isEmpty_map))

theorem untilEnd {R : σ → τ → Prop} {step : σ → Reader σ} {step' : τ → Reader τ}
    (hstep : ∀ s t, R s t → Agrees d total R (step s) (step' t)) {s : σ} {t : τ} (h : R s t) :
    Agrees d total R (Reader.untilEnd step s) (Reader.untilEnd step' t) := by
  refine .iterate (fun s t hst => ?_) h
  refine .after .atEnd (fun done => ?_)
  refine .ite (.pure .none) ?_
  exact (hstep s t hst).bind (fun _ _ hab => .pure (.some hab))

end Agrees

theorem rel_eq {a b : Option α} (h : Option.Rel Eq a b) : a = b := by
  cases h with
  | none => rfl
  | some h => rw [h]

theorem forall₂_eq {as bs : List α} (h : List.Forall₂ Eq as bs) : as = bs := by
  rwa [List.forall₂_eq_eq_eq] at h

namespace Steady

theorem map {p : Reader α} (hp : Steady d total p) (f : α → γ) : Steady d total (f <$> p) :=
  .after hp (fun _ => .pure rfl)

theorem optional {p : Reader α} (hp : Steady d total p) : Steady d total (Reader.optional p) :=
  (Agrees.optional hp).mono (fun _ _ => rel_eq)

theorem attempt {p : Reader α} (hp : Steady d total p) : Steady d total (Reader.attempt p) :=
  (Agrees.attempt hp).mono (fun _ _ => rel_eq)

theorem iterate {step : σ → Reader (Option σ)} (hstep : ∀ s, Steady d total (step s)) (s : σ) :
    Steady d total (Reader.iterate step s) := by
  refine Agrees.iterate (fun s t h => ?_) rfl
  subst h
  refine (hstep s).mono (fun a b hab => ?_)
  subst hab
  cases a with
  | none => exact .none
  | some a => exact .some rfl

theorem untilEnd {step : σ → Reader σ} (hstep : ∀ s, Steady d total (step s)) (s : σ) :
    Steady d total (Reader.untilEnd step s) :=
  Agrees.untilEnd (fun s _ h => h ▸ hstep s) rfl

/-- Looking at the tokens without regard to layout and case. -/
theorem peek {f : List Token → α} (hf : ∀ ts, f (ts.map Token.folded) = f ts) :
    Steady d total (Reader.peek f) :=
  Agrees.peek (fun _ _ h => h.eq_of hf)

end Steady

theorem length_le_of_atKeywords {ks : List String} {ts : List Token}
    (h : atKeywords ks ts = true) : ks.length ≤ ts.length := by
  induction ks generalizing ts with
  | nil => exact Nat.zero_le _
  | cons k ks ih =>
      cases ts with
      | nil => cases h
      | cons t ts => exact Nat.succ_le_succ (ih (Bool.and_eq_true_iff.1 h).2)

section

variable (ts : List Token)

theorem headIs_map_folded {p : Token → Bool} (hp : ∀ t, p (Token.folded t) = p t) :
    headIs p (ts.map Token.folded) = headIs p ts := by
  cases ts with
  | nil => rfl
  | cons t ts => exact hp t

@[simp]
theorem atKeyword_map_folded (k : String) : atKeyword k (ts.map Token.folded) = atKeyword k ts :=
  headIs_map_folded ts (fun t => t.isKeyword_folded k)

@[simp]
theorem atSymbol_map_folded (s : String) : atSymbol s (ts.map Token.folded) = atSymbol s ts :=
  headIs_map_folded ts (fun t => t.isSymbol_folded s)

@[simp]
theorem atKeywords_map_folded (ks : List String) :
    atKeywords ks (ts.map Token.folded) = atKeywords ks ts := by
  induction ks generalizing ts with
  | nil => simp [atKeywords]
  | cons k ks ih =>
      cases ts with
      | nil => rfl
      | cons t ts => simp [atKeywords, ih]

@[simp]
theorem upperWord?_map_folded : upperWord? (ts.map Token.folded) = upperWord? ts := by
  cases ts with
  | nil => rfl
  | cons t ts =>
      unfold upperWord?
      rw [List.map_cons]
      dsimp only
      by_cases hword : t.isWord = true
      · rw [if_pos hword, if_pos (t.isWord_folded.trans hword), t.text_folded_of_word hword,
          Text.upper_asciiUpper]
      · rw [if_neg hword, if_neg (t.isWord_folded ▸ hword)]

end

namespace Agrees

theorem dialect :
    Agrees d total (fun a b => a = d ∧ b = d) Reader.dialect Reader.dialect :=
  fun _ _ h => .found ⟨rfl, rfl⟩ h

theorem withDialect {f : Dialect → Reader α} {g : Dialect → Reader β}
    (h : Agrees d total R (f d) (g d)) :
    Agrees d total R (Reader.dialect >>= f) (Reader.dialect >>= g) := by
  refine dialect.bind (fun a b hab => ?_)
  rw [hab.1, hab.2]
  exact h

theorem advance :
    Agrees d total (fun t u => Alike d total [t] [u]) Reader.advance Reader.advance := by
  intro ts us h
  obtain ⟨rfl, rfl⟩ | ⟨t, u, ts, us, rfl, rfl, -⟩ := h.exists_cons
  · exact .nothing h
  · exact .found (h.take 1) h.tail

theorem rest : Agrees d total (SameSource d total) Reader.rest Reader.rest :=
  fun ts us h => .found ⟨ts, us, h, rfl, rfl⟩ (.nil d total)

theorem group : Agrees d total (Alike d total) Reader.group Reader.group := by
  intro ts us h
  obtain ⟨rfl, rfl⟩ | ⟨t, u, ts, us, rfl, rfl, htu⟩ := h.exists_cons
  · exact .nothing h
  · have hopen : t.isSymbol "(" = u.isSymbol "(" := by
      rw [← t.isSymbol_folded, htu, u.isSymbol_folded]
    unfold Reader.group
    dsimp only
    rw [← hopen]
    split
    · exact .found (h.tail.group 1) (h.tail.afterGroup 1)
    · exact .nothing h

theorem groupText : Agrees d total (SameSource d total) Reader.groupText Reader.groupText :=
  group.bind (fun ts us h => .pure ⟨ts, us, h, rfl, rfl⟩)

/-- The source of a group begins with its parenthesis. -/
theorem groupSource :
    Agrees d total (fun a b => ∃ ts us, Alike d total ts us ∧ a.2 = Token.span ts ∧
      b.2 = Token.span us ∧ atSymbol "(" ts = true)
      (Reader.withSource Reader.group) (Reader.withSource Reader.group) := by
  intro ts us h
  obtain ⟨rfl, rfl⟩ | ⟨t, u, ts, us, rfl, rfl, htu⟩ := h.exists_cons
  · exact .nothing h
  · have hopen : t.isSymbol "(" = u.isSymbol "(" := by
      rw [← t.isSymbol_folded, htu, u.isSymbol_folded]
    have hlen := (h.tail.afterGroup 1).length_eq
    unfold Reader.withSource Reader.group
    dsimp only
    rw [← hopen]
    by_cases ht : t.isSymbol "(" = true
    · rw [if_pos ht, if_pos ht]
      refine .found ⟨_, _, h.take ((t :: ts).length - (Token.groupFrom 1 ts).2.length), rfl, ?_, ?_⟩
        (h.tail.afterGroup 1)
      · rw [List.tail_cons, List.tail_cons] at hlen
        rw [h.length_eq, hlen]
      · rw [List.length_cons, Nat.succ_sub (Token.groupFrom_length 1 ts), List.take_succ_cons]
        exact ht
    · rw [if_neg ht, if_neg ht]
      exact .nothing h

/-- A value is one token or a group. -/
theorem oneOrGroup :
    Agrees d total (fun s t => ∃ ts us, Alike d total ts us ∧ s = Token.span ts ∧
      t = Token.span us ∧ (ts.length = 1 ∨ atSymbol "(" ts = true))
      Reader.value Reader.value := by
  refine .after (Steady.peek (fun ts => atSymbol_map_folded ts "(")) (fun isGroup => ?_)
  refine .ite ?_ ?_
  · refine groupSource.bind (fun _ _ h => .pure ?_)
    obtain ⟨ts, us, h, hs, ht, hopen⟩ := h
    exact ⟨ts, us, h, hs, ht, .inr hopen⟩
  · refine advance.bind (fun t u h => .pure ⟨[t], [u], h, ?_, ?_, .inl rfl⟩) <;>
      simp [Token.span]

theorem value : Agrees d total (SameSource d total) Reader.value Reader.value :=
  oneOrGroup.mono (fun _ _ ⟨ts, us, h, hs, ht, _⟩ => ⟨ts, us, h, hs, ht⟩)

theorem getD_nil {o o' : Option (List Char)} (h : Option.Rel (SameSource d total) o o') :
    SameSource d total (o.getD []) (o'.getD []) := by
  cases h with
  | none => exact ⟨[], [], .nil d total, rfl, rfl⟩
  | some h => exact h

theorem valueOr :
    Agrees d total (SameSource d total) (Reader.valueOr []) (Reader.valueOr []) :=
  value.optional.bind (fun _ _ h => .pure (getD_nil h))

end Agrees

namespace Steady

theorem skip : Steady d total Reader.skip :=
  fun _ _ h => .found rfl h.tail

theorem keywords (ks : List String) : Steady d total (Reader.keywords ks) := by
  intro ts us h
  unfold Reader.keywords
  rw [h.eq_of (fun ts => atKeywords_map_folded ts ks)]
  split
  · exact .found rfl (h.drop _)
  · exact .found rfl h

theorem keyword (k : String) : Steady d total (Reader.keyword k) := keywords [k]

theorem symbol (s : String) : Steady d total (Reader.symbol s) := by
  intro ts us h
  unfold Reader.symbol
  rw [h.eq_of (fun ts => atSymbol_map_folded ts s)]
  split
  · exact .found rfl h.tail
  · exact .found rfl h

theorem oneOf (ks : List String) : Steady d total (Reader.oneOf ks) := by
  intro ts us h
  obtain ⟨rfl, rfl⟩ | ⟨t, u, ts, us, rfl, rfl, htu⟩ := h.exists_cons
  · exact .found rfl h
  · have hsame : t.isKeyword = u.isKeyword := by
      funext k
      rw [← t.isKeyword_folded, htu, u.isKeyword_folded]
    unfold Reader.oneOf
    dsimp only
    rw [hsame]
    split
    · exact .found rfl h.tail
    · exact .found rfl h

theorem peekUpper : Steady d total Reader.peekUpper :=
  .peek upperWord?_map_folded

theorem identifier : Steady d total Reader.identifier := by
  intro ts us h
  obtain ⟨rfl, rfl⟩ | ⟨t, u, ts, us, rfl, rfl, htu⟩ := h.exists_cons
  · exact .nothing h
  · have hname : t.isName = u.isName := by
      rw [← t.isName_folded, htu, u.isName_folded]
    unfold Reader.identifier
    dsimp only
    rw [← hname]
    split
    · next ht =>
        cases hread : Identifier.read d t.text with
        | ok name =>
            rw [h.read_iff.1 hread]
            exact .found rfl h.tail
        | error e =>
            cases hread' : Identifier.read d u.text with
            | ok name =>
                rw [h.read_iff.2 hread'] at hread
                cases hread
            | error f =>
                refine .fault (fun htotal => ?_)
                obtain ⟨name, hok⟩ := h.readable htotal t List.mem_cons_self ht
                rw [hok] at hread
                cases hread
    · exact .nothing h

theorem moreParts (parts : List String) : Steady d total (Reader.moreParts parts) := by
  refine .iterate (fun parts => ?_) parts
  refine .after (.symbol ".") (fun dot => .ite ?_ (.pure rfl))
  refine .after identifier.optional fun part => ?_
  cases part <;> exact .pure rfl

theorem ofOption (o : Option α) : Steady d total (Reader.ofOption o) := by
  cases o with
  | none => exact .fail
  | some a => exact .pure rfl

theorem qualifiedName : Steady d total Reader.qualifiedName := by
  refine .after identifier (fun name => ?_)
  refine .after (moreParts [name]) (fun parts => ?_)
  exact .withDialect (ofOption _)

theorem skipGroup : Steady d total Reader.skipGroup :=
  Agrees.group.optional.bind (fun _ _ _ => .pure rfl)

end Steady

def pastGroup : List Token → List Token
  | [] => []
  | t :: ts => if t.isSymbol "(" then (Token.groupFrom 1 ts).2 else t :: ts

theorem afterCastType_eq (ts : List Token) :
    afterCastType ts = pastGroup
      ((if headIs Token.isName ts then ts.tail else ts).dropWhile Token.isCastWord) := by
  cases ts <;> rfl

theorem pastGroup_suffix (ts : List Token) : pastGroup ts <:+ ts := by
  cases ts with
  | nil => exact List.nil_suffix
  | cons t ts =>
      rw [pastGroup]
      split
      · exact (Token.groupFrom_suffix 1 ts).trans (List.suffix_cons t ts)
      · exact List.suffix_rfl

theorem pastGroup_map_folded (ts : List Token) :
    pastGroup (ts.map Token.folded) = (pastGroup ts).map Token.folded := by
  cases ts with
  | nil => rfl
  | cons t ts =>
      simp only [List.map_cons, pastGroup, Token.isSymbol_folded, Token.groupFrom_map_folded]
      split <;> rfl

theorem afterCastType_suffix (ts : List Token) : afterCastType ts <:+ ts := by
  rw [afterCastType_eq]
  refine (pastGroup_suffix _).trans ((List.dropWhile_suffix Token.isCastWord).trans ?_)
  split
  · exact List.tail_suffix ts
  · exact List.suffix_rfl

@[simp]
theorem afterCastType_map_folded (ts : List Token) :
    afterCastType (ts.map Token.folded) = (afterCastType ts).map Token.folded := by
  rw [afterCastType_eq, afterCastType_eq, headIs_map_folded ts Token.isName_folded,
    ← pastGroup_map_folded, ← Token.dropWhile_map_folded _ Token.isCastWord_folded]
  split
  · rw [List.map_tail]
  · rfl

theorem dropUntil_suffix (stops : List String) (ts : List Token) : dropUntil stops ts <:+ ts := by
  fun_induction dropUntil stops ts with
  | case1 => exact List.nil_suffix
  | case2 t ts h ih => exact ih.trans ((Token.groupFrom_suffix 1 ts).trans (List.suffix_cons t ts))
  | case3 t ts h h' ih => exact ih.trans ((afterCastType_suffix ts).trans (List.suffix_cons t ts))
  | case4 t ts => exact List.suffix_rfl
  | case5 t ts h h' h'' ih => exact ih.trans (List.suffix_cons t ts)

theorem dropUntil_map_folded (stops : List String) (ts : List Token) :
    dropUntil stops (ts.map Token.folded) = (dropUntil stops ts).map Token.folded := by
  have hkeyword (t : Token) : t.folded.isKeyword = t.isKeyword := funext t.isKeyword_folded
  fun_induction dropUntil stops ts with
  | case1 => rw [List.map_nil, dropUntil]
  | case2 t ts h ih =>
      rw [List.map_cons, dropUntil, if_pos (by simpa using h), Token.groupFrom_map_folded, ih]
  | case3 t ts h h' ih =>
      rw [List.map_cons, dropUntil, if_neg (by simpa using h), if_pos (by simpa using h'),
        afterCastType_map_folded, ih]
  | case4 t ts h h' h'' =>
      rw [List.map_cons, dropUntil, if_neg (by simpa using h), if_neg (by simpa using h'),
        if_pos (by simpa [hkeyword] using h'')]
  | case5 t ts h h' h'' ih =>
      rw [List.map_cons, dropUntil, if_neg (by simpa using h), if_neg (by simpa using h'),
        if_neg (by simpa [hkeyword] using h''), ih]

theorem Agrees.sourceUntil (stops : List String) :
    Agrees d total (SameSource d total) (Reader.sourceUntil stops) (Reader.sourceUntil stops) := by
  refine Agrees.bind (Agrees.withSource (R := Eq) (fun ts us h => .found rfl ?_))
    (fun _ _ h => .pure h.2)
  exact h.map_of (dropUntil_map_folded stops) (fun ts => (dropUntil_suffix stops ts).isInfix)

end SchemaDrift.Reader
