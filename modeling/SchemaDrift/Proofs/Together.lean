import SchemaDrift.Proofs.Taking

namespace SchemaDrift.Reader

variable {α β γ δ σ τ : Type} {R : α → β → Prop} {S : γ → δ → Prop}

inductive Match (R : α → β → Prop) :
    Except Fault (Option α × List Token) → Except Fault (Option β × List Token) → Prop
  | fault (e : Fault) : Match R (.error e) (.error e)
  | nothing (rest : List Token) : Match R (.ok (none, rest)) (.ok (none, rest))
  | found {a : α} {b : β} (rest : List Token) (h : R a b) :
      Match R (.ok (some a, rest)) (.ok (some b, rest))

def Together (R : α → β → Prop) (p : Reader α) (q : Reader β) : Prop :=
  ∀ d ts, Match R (p d ts) (q d ts)

theorem Match.of_eq_some {x : Except Fault (Option α × List Token)}
    {y : Except Fault (Option β × List Token)} (h : Match R x y) {a : α} {rest : List Token}
    (hx : x = .ok (some a, rest)) : ∃ b, y = .ok (some b, rest) ∧ R a b := by
  cases h with
  | fault e => cases hx
  | nothing rest => cases hx
  | found rest hab =>
      cases hx
      exact ⟨_, rfl, hab⟩

namespace Together

theorem refl {p : Reader α} {R : α → α → Prop} (h : ∀ a, R a a) : Together R p p := by
  intro d ts
  cases p d ts with
  | error e => exact .fault e
  | ok r =>
      obtain ⟨found, rest⟩ := r
      cases found with
      | none => exact .nothing rest
      | some a => exact .found rest (h a)

theorem pure {a : α} {b : β} (h : R a b) :
    Together R (Pure.pure a : Reader α) (Pure.pure b : Reader β) :=
  fun _ ts => .found ts h

theorem fail : Together R (Reader.fail : Reader α) (Reader.fail : Reader β) :=
  fun _ ts => .nothing ts

theorem bind {p : Reader α} {q : Reader β} {f : α → Reader γ} {g : β → Reader δ}
    (hp : Together R p q) (hf : ∀ a b, R a b → Together S (f a) (g b)) :
    Together S (p >>= f) (q >>= g) := by
  intro d ts
  have hmatch := hp d ts
  change Match S (Reader.bind p f d ts) (Reader.bind q g d ts)
  unfold Reader.bind
  generalize p d ts = x, q d ts = y at hmatch ⊢
  cases hmatch with
  | fault e => exact .fault e
  | nothing rest => exact .nothing rest
  | found rest h => exact hf _ _ h d rest

/-- The same reader first. -/
theorem after {p : Reader α} {f : α → Reader γ} {g : α → Reader δ}
    (hf : ∀ a, Together S (f a) (g a)) : Together S (p >>= f) (p >>= g) :=
  (refl fun _ => rfl).bind (R := Eq) fun a _ h => h ▸ hf a

theorem ite {c : Prop} [Decidable c] {p p' : Reader α} {q q' : Reader β}
    (hp : Together R p q) (hp' : Together R p' q') :
    Together R (if c then p else p') (if c then q else q') := by
  split
  · exact hp
  · exact hp'

/-- A step that may be left out. -/
theorem joined {c : Prop} [Decidable c] {p : Reader α} {q : Reader γ} {q' : Reader δ}
    (hq : Together S q q') :
    Together S (if c then p >>= fun _ => q else q) (if c then p >>= fun _ => q' else q') :=
  .ite (.after fun _ => hq) hq

/-- Two ways to one thing, and what comes after either. -/
theorem iteAfter {c : Prop} [Decidable c] {p p' : Reader α} {f : α → Reader γ} {g : α → Reader δ}
    (hf : ∀ a, Together S (f a) (g a)) :
    Together S (if c then p >>= f else p' >>= f) (if c then p >>= g else p' >>= g) :=
  .ite (.after hf) (.after hf)

theorem within {p : Reader α} {q : Reader β} (hp : Together R p q) (ts : List Token) :
    Together R (Reader.within ts p) (Reader.within ts q) := by
  intro d us
  have hmatch := hp d ts
  unfold Reader.within
  generalize p d ts = x, q d ts = y at hmatch ⊢
  cases hmatch with
  | fault e => exact .fault e
  | nothing rest => exact .nothing us
  | found rest h => exact .found us h

theorem iterate {R : σ → τ → Prop} {step : σ → Reader (Option σ)} {step' : τ → Reader (Option τ)}
    (hstep : ∀ s t, R s t → Together (Option.Rel R) (step s) (step' t)) {s : σ} {t : τ}
    (h : R s t) : Together R (Reader.iterate step s) (Reader.iterate step' t) := by
  intro d ts
  induction hn : ts.length using Nat.strong_induction_on generalizing s t ts with
  | _ n ih =>
      subst hn
      have hmatch := hstep s t h d ts
      rw [Reader.iterate, Reader.iterate]
      generalize step s d ts = x, step' t d ts = y at hmatch ⊢
      cases hmatch with
      | fault e => exact .fault e
      | nothing rest => exact .nothing rest
      | found rest hab =>
          cases hab with
          | none => exact .found rest h
          | some hnext =>
              dsimp only
              split
              · next hlt => exact ih _ hlt hnext rest rfl
              · exact .found rest hnext

theorem untilEnd {R : σ → τ → Prop} {step : σ → Reader σ} {step' : τ → Reader τ}
    (hstep : ∀ s t, R s t → Together R (step s) (step' t)) {s : σ} {t : τ} (h : R s t) :
    Together R (Reader.untilEnd step s) (Reader.untilEnd step' t) := by
  refine .iterate (fun s t hst => ?_) h
  refine .after fun done => .ite (.pure .none) ?_
  exact (hstep s t hst).bind fun _ _ hab => .pure (.some hab)

end Together

end SchemaDrift.Reader
