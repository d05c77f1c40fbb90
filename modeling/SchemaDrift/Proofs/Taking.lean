import SchemaDrift.Proofs.Alike

namespace SchemaDrift.Reader

variable {α β σ : Type} {P : α → Prop} {Q : β → Prop}

theorem bind_eq_some {p : Reader α} {f : α → Reader β} {d : Dialect} {ts rest : List Token}
    {b : β} : (p >>= f) d ts = .ok (some b, rest) ↔
      ∃ a mid, p d ts = .ok (some a, mid) ∧ f a d mid = .ok (some b, rest) := by
  change Reader.bind p f d ts = _ ↔ _
  unfold Reader.bind
  constructor
  · intro h
    split at h
    · cases h
    · cases h
    · next a mid hp => exact ⟨a, mid, hp, h⟩
  · rintro ⟨a, mid, hp, hf⟩
    rw [hp]
    exact hf

theorem pure_eq_some {a b : α} {d : Dialect} {ts rest : List Token} :
    (pure a : Reader α) d ts = .ok (some b, rest) ↔ a = b ∧ ts = rest := by
  change (Except.ok (some a, ts) : Except Fault (Option α × List Token)) = _ ↔ _
  simp

theorem within_eq_some {p : Reader α} {tokens ts rest : List Token} {d : Dialect} {a : α} :
    within tokens p d ts = .ok (some a, rest) ↔
      (∃ mid, p d tokens = .ok (some a, mid)) ∧ ts = rest := by
  unfold within
  cases p d tokens with
  | error e => simp
  | ok r =>
      obtain ⟨found, mid⟩ := r
      simp

theorem attempt_eq_some {p : Reader α} {d : Dialect} {ts rest : List Token} {a : α} :
    attempt p d ts = .ok (some (some a), rest) ↔ p d ts = .ok (some a, rest) := by
  unfold attempt
  split <;> simp [*]

theorem eq_of_attempt_eq_none {p : Reader α} {d : Dialect} {ts rest : List Token}
    (h : attempt p d ts = .ok (some none, rest)) : rest = ts := by
  unfold attempt at h
  split at h
  · cases h
  · cases h
  · cases h
    rfl

def Yields (P : α → Prop) (p : Reader α) : Prop :=
  ∀ (d : Dialect) (ts rest : List Token) (a : α), p d ts = .ok (some a, rest) → P a

namespace Yields

theorem pure {a : α} (h : P a) : Yields P (Pure.pure a) :=
  fun _ _ _ _ ha => (pure_eq_some.1 ha).1 ▸ h

theorem fail : Yields P Reader.fail := fun _ _ _ _ h => by cases h

theorem bind {p : Reader α} {f : α → Reader β} (hp : Yields P p) (hf : ∀ a, P a → Yields Q (f a)) :
    Yields Q (p >>= f) := by
  intro d ts rest b h
  obtain ⟨a, mid, ha, hb⟩ := bind_eq_some.1 h
  exact hf a (hp _ _ _ _ ha) _ _ _ _ hb

/-- What comes after a reader, whatever that one finds. -/
theorem after {p : Reader α} {f : α → Reader β} (hf : ∀ a, Yields Q (f a)) : Yields Q (p >>= f) :=
  bind (P := fun _ => True) (fun _ _ _ _ _ => trivial) (fun a _ => hf a)

theorem ite {c : Prop} [Decidable c] {p q : Reader α} (hp : Yields P p) (hq : Yields P q) :
    Yields P (if c then p else q) := by
  split
  · exact hp
  · exact hq

/-- A step that may be left out. -/
theorem joined {c : Prop} [Decidable c] {p : Reader α} {q : Reader β} (hq : Yields Q q) :
    Yields Q (if c then p >>= fun _ => q else q) :=
  .ite (.after fun _ => hq) hq

/-- Nothing comes after a failure. -/
theorem failed {f : α → Reader β} : Yields Q (Reader.fail >>= f) :=
  (fail (P := fun _ => False)).bind fun _ h => h.elim

/-- Two ways to one thing, and what comes after either. -/
theorem iteAfter {c : Prop} [Decidable c] {p q : Reader α} {f : α → Reader β}
    (hf : ∀ a, Yields Q (f a)) : Yields Q (if c then p >>= f else q >>= f) :=
  .ite (.after hf) (.after hf)

/-- What the start of a loop has, and each step keeps, its end has. -/
theorem iterate {P : σ → Prop} {step : σ → Reader (Option σ)}
    (hstep : ∀ s, P s → Yields (fun next => ∀ t ∈ next, P t) (step s)) {s : σ} (hs : P s) :
    Yields P (Reader.iterate step s) := by
  intro d ts rest a h
  induction hn : ts.length using Nat.strong_induction_on generalizing s ts with
  | _ n ih =>
      subst hn
      rw [Reader.iterate] at h
      split at h
      · cases h
      · cases h
      · cases h
        exact hs
      · next next mid hnext =>
          have hkept : P next := hstep s hs _ _ _ _ hnext next rfl
          split at h
          · next hless => exact ih _ hless hkept mid h rfl
          · cases h
            exact hkept

theorem untilEnd {P : σ → Prop} {step : σ → Reader σ} (hstep : ∀ s, P s → Yields P (step s))
    {s : σ} (hs : P s) : Yields P (Reader.untilEnd step s) := by
  refine .iterate (fun s hs => .after fun _ => .ite (.pure ?_) ?_) hs
  · intro t ht
    cases ht
  · refine (hstep s hs).bind fun t ht => .pure ?_
    intro u hu
    exact Option.some.inj hu ▸ ht

end Yields

def Leaves (p : Reader α) : Prop :=
  ∀ (d : Dialect) (ts rest : List Token) (a : Option α), p d ts = .ok (a, rest) → rest <:+ ts

namespace Leaves

theorem pure (a : α) : Leaves (Pure.pure a : Reader α) := by
  intro d ts rest b h
  cases h
  exact List.suffix_rfl

theorem bind {p : Reader α} {f : α → Reader β} (hp : Leaves p) (hf : ∀ a, Leaves (f a)) :
    Leaves (p >>= f) := by
  intro d ts rest b h
  change Reader.bind p f d ts = _ at h
  unfold Reader.bind at h
  split at h
  · cases h
  · next mid hmid =>
      cases h
      exact hp _ _ _ _ hmid
  · next a mid hmid => exact (hf a _ _ _ _ h).trans (hp _ _ _ _ hmid)

theorem ite {c : Prop} [Decidable c] {p q : Reader α} (hp : Leaves p) (hq : Leaves q) :
    Leaves (if c then p else q) := by
  split
  · exact hp
  · exact hq

theorem optional {p : Reader α} (hp : Leaves p) : Leaves (Reader.optional p) := by
  intro d ts rest a h
  unfold Reader.optional at h
  split at h
  · cases h
  · next hmid =>
      cases h
      exact hp _ _ _ _ hmid

theorem withSource {p : Reader α} (hp : Leaves p) : Leaves (Reader.withSource p) := by
  intro d ts rest a h
  unfold Reader.withSource at h
  split at h
  · cases h
  · next hmid =>
      cases h
      exact hp _ _ _ _ hmid
  · next hmid =>
      cases h
      exact hp _ _ _ _ hmid

theorem iterate {step : σ → Reader (Option σ)} (hstep : ∀ s, Leaves (step s)) (s : σ) :
    Leaves (Reader.iterate step s) := by
  intro d ts rest a h
  induction hn : ts.length using Nat.strong_induction_on generalizing s ts with
  | _ n ih =>
      subst hn
      rw [Reader.iterate] at h
      split at h
      · cases h
      · next hmid =>
          cases h
          exact hstep s _ _ _ _ hmid
      · next hmid =>
          cases h
          exact hstep s _ _ _ _ hmid
      · next next mid hnext =>
          have hmid := hstep s _ _ _ _ hnext
          split at h
          · next hless => exact (ih _ hless next mid h rfl).trans hmid
          · cases h
            exact hmid

theorem peek (f : List Token → α) : Leaves (Reader.peek f) := by
  intro d ts rest a h
  cases h
  exact List.suffix_rfl

theorem advance : Leaves Reader.advance := by
  intro d ts rest a h
  unfold Reader.advance at h
  split at h
  · cases h
    exact List.suffix_rfl
  · cases h
    exact List.suffix_cons _ _

theorem skip : Leaves Reader.skip := by
  intro d ts rest a h
  cases h
  exact List.tail_suffix ts

theorem keywords (ks : List String) : Leaves (Reader.keywords ks) := by
  intro d ts rest a h
  unfold Reader.keywords at h
  split at h
  · cases h
    exact List.drop_suffix _ _
  · cases h
    exact List.suffix_rfl

theorem symbol (s : String) : Leaves (Reader.symbol s) := by
  intro d ts rest a h
  unfold Reader.symbol at h
  split at h
  · cases h
    exact List.tail_suffix ts
  · cases h
    exact List.suffix_rfl

theorem oneOf (ks : List String) : Leaves (Reader.oneOf ks) := by
  intro d ts rest a h
  unfold Reader.oneOf at h
  split at h
  · cases h
    exact List.suffix_rfl
  · split at h
    · cases h
      exact List.suffix_cons _ _
    · cases h
      exact List.suffix_rfl

theorem identifier : Leaves Reader.identifier := by
  intro d ts rest a h
  unfold Reader.identifier at h
  split at h
  · cases h
    exact List.suffix_rfl
  · split at h
    · split at h
      · cases h
      · cases h
        exact List.suffix_cons _ _
    · cases h
      exact List.suffix_rfl

theorem group : Leaves Reader.group := by
  intro d ts rest a h
  unfold Reader.group at h
  split at h
  · cases h
    exact List.suffix_rfl
  · split at h
    · cases h
      exact (Token.groupFrom_suffix _ _).trans (List.suffix_cons _ _)
    · cases h
      exact List.suffix_rfl

theorem skipGroup : Leaves Reader.skipGroup := group.optional.bind fun _ => .pure ()

theorem value : Leaves Reader.value := by
  refine (peek _).bind fun _ => .ite ?_ ?_
  · exact group.withSource.bind fun _ => .pure _
  · exact advance.bind fun _ => .pure _

theorem qualifiedName : Leaves Reader.qualifiedName := by
  have hparts (parts : List String) : Leaves (moreParts parts) := by
    refine .iterate (fun parts => (symbol ".").bind fun _ => .ite ?_ (.pure none)) parts
    refine identifier.optional.bind fun part => ?_
    cases part with
    | none => exact .pure none
    | some part => exact .pure (some (parts ++ [part]))
  refine identifier.bind fun name => (hparts [name]).bind fun parts => ?_
  intro d ts rest a h
  change ofOption (qualify d parts) d ts = _ at h
  generalize qualify d parts = found at h
  cases found with
  | none =>
      cases h
      exact List.suffix_rfl
  | some name =>
      cases h
      exact List.suffix_rfl

end Leaves

end SchemaDrift.Reader
