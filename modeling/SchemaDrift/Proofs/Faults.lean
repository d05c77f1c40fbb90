import SchemaDrift.Grammar.Definition
import SchemaDrift.Proofs.Readings
import SchemaDrift.Proofs.ReferencedNames
import SchemaDrift.Proofs.Taking

namespace SchemaDrift

namespace Reader

variable {d : Dialect} {P : Token → Prop} {E : Fault → Prop} {α β σ : Type}

def Fits (E : Fault → Prop) (ts : List Token) : Except Fault (Option α × List Token) → Prop
  | .error f => E f
  | .ok (_, rest) => rest <:+ ts

/-- On tokens of the pool `P`, the reader leaves what it does not take, and all its faults are
among `E`. -/
def Sound (d : Dialect) (P : Token → Prop) (E : Fault → Prop) (p : Reader α) : Prop :=
  ∀ ts, (∀ t ∈ ts, P t) → Fits E ts (p d ts)

def Blames (d : Dialect) (P : Token → Prop) (E : Fault → Prop) : Prop :=
  ∀ t, P t → t.isName = true → ∀ f, Identifier.read d t.text = .error f → E f

theorem Fits.trans {ts us : List Token} {r : Except Fault (Option α × List Token)}
    (h : Fits E us r) (hus : us <:+ ts) : Fits E ts r := by
  cases r with
  | error f => exact h
  | ok r => exact List.IsSuffix.trans h hus

namespace Sound

theorem suffix {p : Reader α} (hp : Sound d P E p) {ts rest : List Token} {a : Option α}
    (hts : ∀ t ∈ ts, P t) (h : p d ts = .ok (a, rest)) : rest <:+ ts := by
  have hfits := hp ts hts
  rw [h] at hfits
  exact hfits

theorem subset {p : Reader α} (hp : Sound d P E p) {ts rest : List Token} {a : Option α}
    (hts : ∀ t ∈ ts, P t) (h : p d ts = .ok (a, rest)) : ∀ t ∈ rest, P t :=
  fun t ht => hts t ((hp.suffix hts h).subset ht)

/-- A reader without faults of its own. -/
theorem of_leaves {p : Reader α} (h : Leaves p) (hok : ∀ ts f, p d ts ≠ .error f) :
    Sound d P E p := by
  intro ts _
  cases hp : p d ts with
  | error f => exact absurd hp (hok ts f)
  | ok r => exact h d ts r.2 r.1 hp

theorem pure (a : α) : Sound d P E (Pure.pure a : Reader α) := fun _ _ => List.suffix_rfl

theorem fail : Sound d P E (Reader.fail : Reader α) := fun _ _ => List.suffix_rfl

theorem peek (f : List Token → α) : Sound d P E (Reader.peek f) := fun _ _ => List.suffix_rfl

theorem dialect : Sound d P E Reader.dialect := fun _ _ => List.suffix_rfl

theorem ofOption (a : Option α) : Sound d P E (Reader.ofOption a) := by
  cases a with
  | none => exact fail
  | some a => exact pure a

theorem ofExcept {r : Except Fault α} (h : ∃ a, r = .ok a) : Sound d P E (Reader.ofExcept r) := by
  obtain ⟨a, rfl⟩ := h
  exact pure a

/-- What comes after a reader, where all that it finds in the pool has the property. -/
theorem after {Q : α → Prop} {p : Reader α} {f : α → Reader β} (hp : Sound d P E p)
    (hQ : ∀ ts, (∀ t ∈ ts, P t) → ∀ a rest, p d ts = .ok (some a, rest) → Q a)
    (hf : ∀ a, Q a → Sound d P E (f a)) : Sound d P E (p >>= f) := by
  intro ts hts
  have hfits := hp ts hts
  change Fits E ts (Reader.bind p f d ts)
  unfold Reader.bind
  cases hmid : p d ts with
  | error e =>
      rw [hmid] at hfits
      exact hfits
  | ok r =>
      obtain ⟨_ | a, mid⟩ := r
      · exact hp.suffix hts hmid
      · exact (hf a (hQ ts hts a mid hmid) mid (hp.subset hts hmid)).trans (hp.suffix hts hmid)

theorem bind {p : Reader α} {f : α → Reader β} (hp : Sound d P E p)
    (hf : ∀ a, Sound d P E (f a)) : Sound d P E (p >>= f) :=
  hp.after (Q := fun _ => True) (fun _ _ _ _ _ => trivial) fun a _ => hf a

theorem map {p : Reader α} (hp : Sound d P E p) (f : α → β) : Sound d P E (f <$> p) :=
  hp.bind fun _ => .pure _

theorem ite {c : Prop} [Decidable c] {p q : Reader α} (hp : Sound d P E p) (hq : Sound d P E q) :
    Sound d P E (if c then p else q) := by
  split
  · exact hp
  · exact hq

/-- A step that may be left out. -/
theorem joined {c : Prop} [Decidable c] {p : Reader α} {q : Reader β} (hp : Sound d P E p)
    (hq : Sound d P E q) : Sound d P E (if c then p >>= fun _ => q else q) :=
  .ite (hp.bind fun _ => hq) hq

/-- Two ways to one thing, and what comes after either. -/
theorem iteAfter {c : Prop} [Decidable c] {p q : Reader α} {f : α → Reader β}
    (hp : Sound d P E p) (hq : Sound d P E q) (hf : ∀ a, Sound d P E (f a)) :
    Sound d P E (if c then p >>= f else q >>= f) :=
  .ite (hp.bind hf) (hq.bind hf)

/-- Nothing comes after a failure. -/
theorem failed {f : α → Reader β} : Sound d P E (Reader.fail >>= f) :=
  fail.after (Q := fun _ => False) (fun _ _ _ _ h => by cases h) fun _ h => h.elim

theorem optional {p : Reader α} (hp : Sound d P E p) : Sound d P E (Reader.optional p) := by
  intro ts hts
  have hfits := hp ts hts
  unfold Reader.optional
  generalize p d ts = r at hfits ⊢
  cases r with
  | error f => exact hfits
  | ok r => exact hfits

theorem attempt {p : Reader α} (hp : Sound d P E p) : Sound d P E (Reader.attempt p) := by
  intro ts hts
  have hfits := hp ts hts
  unfold Reader.attempt
  generalize p d ts = r at hfits ⊢
  cases r with
  | error f => exact hfits
  | ok r =>
      obtain ⟨_ | a, rest⟩ := r
      · exact List.suffix_rfl
      · exact hfits

theorem within {p : Reader α} (hp : Sound d P E p) {us : List Token} (hus : ∀ t ∈ us, P t) :
    Sound d P E (Reader.within us p) := by
  intro ts _
  have hfits := hp us hus
  unfold Reader.within
  generalize p d us = r at hfits ⊢
  cases r with
  | error f => exact hfits
  | ok r => exact List.suffix_rfl

theorem eachOf {p : Reader α} (hp : Sound d P E p) {parts : List (List Token)}
    (hparts : ∀ part ∈ parts, ∀ t ∈ part, P t) : Sound d P E (Reader.eachOf p parts) := by
  induction parts with
  | nil => exact pure []
  | cons part parts ih =>
      refine (hp.within (hparts part List.mem_cons_self)).bind fun a => ?_
      exact (ih fun part h => hparts part (List.mem_cons_of_mem _ h)).bind fun _ => .pure _

theorem withSource {p : Reader α} (hp : Sound d P E p) : Sound d P E (Reader.withSource p) := by
  intro ts hts
  have hfits := hp ts hts
  unfold Reader.withSource
  generalize p d ts = r at hfits ⊢
  cases r with
  | error f => exact hfits
  | ok r =>
      obtain ⟨_ | a, rest⟩ := r
      · exact hfits
      · exact hfits

theorem iterate {step : σ → Reader (Option σ)} (hstep : ∀ s, Sound d P E (step s)) (s : σ) :
    Sound d P E (Reader.iterate step s) := by
  intro ts hts
  induction hn : ts.length using Nat.strong_induction_on generalizing s ts with
  | _ n ih =>
      subst hn
      have hfits := hstep s ts hts
      rw [Reader.iterate]
      cases hnext : step s d ts with
      | error f =>
          rw [hnext] at hfits
          exact hfits
      | ok r =>
          have hmid := (hstep s).suffix hts hnext
          obtain ⟨_ | _ | next, mid⟩ := r
          · exact hmid
          · exact hmid
          · dsimp only
            split
            · next hless =>
                exact (ih _ hless next mid ((hstep s).subset hts hnext) rfl).trans hmid
            · exact hmid

theorem atEnd : Sound d P E Reader.atEnd := peek _

theorem untilEnd {step : σ → Reader σ} (hstep : ∀ s, Sound d P E (step s)) (s : σ) :
    Sound d P E (Reader.untilEnd step s) :=
  .iterate (fun s => atEnd.bind fun _ => .ite (.pure _) ((hstep s).bind fun _ => .pure _)) s

theorem advance : Sound d P E Reader.advance :=
  of_leaves .advance fun ts f h => by cases ts <;> cases h

theorem skip : Sound d P E Reader.skip := fun ts _ => List.tail_suffix ts

theorem rest : Sound d P E Reader.rest :=
  fun _ _ => List.nil_suffix

theorem keywords (ks : List String) : Sound d P E (Reader.keywords ks) := by
  refine of_leaves (.keywords ks) fun ts f h => ?_
  rw [Reader.keywords] at h
  split at h <;> cases h

theorem keyword (k : String) : Sound d P E (Reader.keyword k) := keywords [k]

theorem symbol (s : String) : Sound d P E (Reader.symbol s) := by
  refine of_leaves (.symbol s) fun ts f h => ?_
  rw [Reader.symbol] at h
  split at h <;> cases h

theorem oneOf (ks : List String) : Sound d P E (Reader.oneOf ks) := by
  refine of_leaves (.oneOf ks) fun ts f h => ?_
  unfold Reader.oneOf at h
  split at h
  · cases h
  · split at h <;> cases h

theorem peekUpper : Sound d P E Reader.peekUpper := peek _

theorem group : Sound d P E Reader.group := by
  refine of_leaves .group fun ts f h => ?_
  unfold Reader.group at h
  split at h
  · cases h
  · split at h <;> cases h

/-- The tokens of a group are of the pool. -/
theorem mem_group {ts us rest : List Token} (hts : ∀ t ∈ ts, P t)
    (h : Reader.group d ts = .ok (some us, rest)) : ∀ t ∈ us, P t := by
  unfold Reader.group at h
  split at h
  · cases h
  · next t ts =>
      split at h
      · cases h
        intro u hu
        exact hts u (List.mem_cons_of_mem t ((Token.groupFrom_prefix 1 ts).subset hu))
      · cases h

theorem afterGroup {f : List Token → Reader β}
    (hf : ∀ us, (∀ t ∈ us, P t) → Sound d P E (f us)) : Sound d P E (Reader.group >>= f) :=
  group.after (fun _ hts _ _ h => mem_group hts h) hf

theorem afterOptionalGroup {f : Option (List Token) → Reader β} (hnone : Sound d P E (f none))
    (hf : ∀ us, (∀ t ∈ us, P t) → Sound d P E (f (some us))) :
    Sound d P E (Reader.optional Reader.group >>= f) := by
  refine group.optional.after (Q := fun found => ∀ us ∈ found, ∀ t ∈ us, P t) ?_ fun found h => ?_
  · intro ts hts found rest h us hus
    obtain rfl := hus
    rw [Reader.optional] at h
    split at h
    · cases h
    · next hgroup =>
        cases h
        exact mem_group hts hgroup
  · cases found with
    | none => exact hnone
    | some us => exact hf us (h us rfl)

theorem mem_splitCommas {ts : List Token} (hts : ∀ t ∈ ts, P t) :
    ∀ part ∈ Token.splitCommas ts, ∀ t ∈ part, P t :=
  fun _ hpart t ht => hts t ((Token.splitCommas_infix hpart).subset ht)

theorem groupText : Sound d P E Reader.groupText := group.bind fun _ => .pure _

theorem skipGroup : Sound d P E Reader.skipGroup := group.optional.bind fun _ => .pure _

theorem value : Sound d P E Reader.value :=
  (peek _).bind fun _ => .ite (group.withSource.bind fun _ => .pure _)
    (advance.bind fun _ => .pure _)

theorem valueOr (default : List Char) : Sound d P E (Reader.valueOr default) :=
  value.optional.bind fun _ => .pure _

theorem sourceUntil (stops : List String) : Sound d P E (Reader.sourceUntil stops) := by
  have hdrop : Sound d P E (fun _ ts => .ok (some (), dropUntil stops ts) : Reader Unit) :=
    fun ts _ => dropUntil_suffix stops ts
  exact hdrop.withSource.bind fun _ => .pure _

section

variable (hE : Blames d P E)
include hE

theorem identifier : Sound d P E Reader.identifier := by
  intro ts hts
  cases ts with
  | nil => exact List.suffix_rfl
  | cons t ts =>
      unfold Reader.identifier
      dsimp only
      split
      · next hname =>
          cases hread : Identifier.read d t.text with
          | error f => exact hE t (hts t List.mem_cons_self) hname f hread
          | ok name => exact List.suffix_cons t ts
      · exact List.suffix_rfl

theorem moreParts (parts : List String) : Sound d P E (Reader.moreParts parts) := by
  refine .iterate (fun parts => (symbol ".").bind fun _ => .ite ?_ (.pure none)) parts
  refine (identifier hE).optional.bind fun part => ?_
  cases part with
  | none => exact .pure none
  | some part => exact .pure _

theorem qualifiedName : Sound d P E Reader.qualifiedName := by
  refine (identifier hE).bind fun name => (moreParts hE [name]).bind fun parts => ?_
  exact dialect.bind fun _ => .ofOption _

end

/-- The faults of a text are those of its tokens. -/
theorem run? {p : Reader α} (hp : Sound d P E p) {s : List Char} (hs : ∀ t ∈ Token.lex d s, P t)
    {f : Fault} (h : Reader.run? p d s = .error f) : E f := by
  have hfits := hp (Token.lex d s) hs
  unfold Reader.run? at h
  cases hr : p d (Token.lex d s) with
  | error e =>
      rw [hr] at h hfits
      cases h
      exact hfits
  | ok r =>
      rw [hr] at h
      cases h

end Sound

end Reader

end SchemaDrift
