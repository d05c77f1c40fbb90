import SchemaDrift.Proofs.Blame

namespace SchemaDrift

namespace Reader

variable {d : Dialect} {N : List Token → Prop} {α β σ : Type} {Q : α → Prop} {R : β → Prop}

def untilEndStep (step : σ → Reader σ) (s : σ) : Reader (Option σ) := do
  if ← atEnd then return none
  else return some (← step s)

abbrev Tame (d : Dialect) (p : Reader α) : Prop := Sound d (fun _ => True) (fun _ => True) p

theorem blames_true : Blames d (fun _ => True) (fun _ => True) := fun _ _ _ _ _ => trivial

/-- On tokens as in `N`, the reader takes one before it finds what `Q` holds of. -/
structure Moves (d : Dialect) (N : List Token → Prop) (Q : α → Prop) (p : Reader α) : Prop where
  tame : Tame d p
  takes : ∀ ts, N ts → ∀ a rest, p d ts = .ok (some a, rest) → Q a → rest.length < ts.length

theorem Sound.length_le {p : Reader α} (hp : Tame d p) {ts rest : List Token} {a : Option α}
    (h : p d ts = .ok (a, rest)) : rest.length ≤ ts.length :=
  (hp.suffix (fun _ _ => trivial) h).length_le

namespace Moves

theorem mono {N' : List Token → Prop} {Q' : α → Prop} {p : Reader α} (hp : Moves d N Q p)
    (hN : ∀ ts, N' ts → N ts) (hQ : ∀ a, Q' a → Q a) : Moves d N' Q' p :=
  ⟨hp.tame, fun ts hts a rest h ha => hp.takes ts (hN ts hts) a rest h (hQ a ha)⟩

/-- Nothing is claimed of what `Q` does not hold of. -/
theorem of_tame {p : Reader α} (hp : Tame d p) : Moves d N (fun _ => False) p :=
  ⟨hp, fun _ _ _ _ _ h => h.elim⟩

theorem pure {a : α} (h : ¬ Q a) : Moves d N Q (Pure.pure a : Reader α) := by
  refine ⟨.pure a, fun ts _ b rest hb hQ => ?_⟩
  cases hb
  exact absurd hQ h

theorem fail : Moves d N Q (Reader.fail : Reader α) := ⟨.fail, fun _ _ _ _ h _ => by cases h⟩

/-- Either the first reader takes a token, or it leaves all to the second one. -/
theorem bind {p : Reader α} {f : α → Reader β} (hp : Moves d N Q p) (hf : ∀ a, Tame d (f a))
    (hrest : ∀ a, ¬ Q a → Moves d N R (f a)) : Moves d N R (p >>= f) := by
  refine ⟨hp.tame.bind hf, fun ts hts b rest h hb => ?_⟩
  obtain ⟨a, mid, ha, hb'⟩ := bind_eq_some.1 h
  have hrestLength := (hf a).length_le hb'
  by_cases hQ : Q a
  · exact Nat.lt_of_le_of_lt hrestLength (hp.takes ts hts a mid ha hQ)
  · rcases Nat.lt_or_ge mid.length ts.length with hless | hge
    · exact Nat.lt_of_le_of_lt hrestLength hless
    · obtain rfl : mid = ts :=
        (hp.tame.suffix (fun _ _ => trivial) ha).eq_of_length_le hge
      exact (hrest a hQ).takes mid hts b rest hb' hb

/-- The first reader takes the token. -/
theorem first {p : Reader α} {f : α → Reader β} (hp : Moves d N (fun _ => True) p)
    (hf : ∀ a, Tame d (f a)) : Moves d N R (p >>= f) :=
  hp.bind hf fun _ h => absurd trivial h

/-- What comes after the first reader takes the token. -/
theorem after {p : Reader α} {f : α → Reader β} (hp : Tame d p) (hf : ∀ a, Moves d N R (f a)) :
    Moves d N R (p >>= f) :=
  (of_tame hp).bind (fun a => (hf a).tame) fun a _ => hf a

/-- Either the first reader finds something and takes a token, or it leaves all to what is done
then. -/
theorem orElse {p : Reader (Option α)} {f : Option α → Reader β}
    (hp : Moves d N (fun found => found.isSome = true) p) (hsome : ∀ a, Tame d (f (some a)))
    (hnone : Moves d N R (f none)) : Moves d N R (p >>= f) := by
  refine hp.bind (fun found => ?_) fun found hfound => ?_
  · cases found with
    | none => exact hnone.tame
    | some a => exact hsome a
  · cases found with
    | none => exact hnone
    | some a => exact absurd rfl hfound

theorem ite {c : Prop} [Decidable c] {p q : Reader α} (hp : Moves d N Q p) (hq : Moves d N Q q) :
    Moves d N Q (if c then p else q) := by
  split
  · exact hp
  · exact hq

theorem joined {c : Prop} [Decidable c] {p : Reader α} {q : Reader β} (hp : Tame d p)
    (hq : Moves d N R q) : Moves d N R (if c then p >>= fun _ => q else q) :=
  .ite (.after hp fun _ => hq) hq

/-- What is seen of the tokens is known of them afterwards. -/
theorem peek {g : List Token → α} {f : α → Reader β}
    (hf : ∀ a, Moves d (fun ts => N ts ∧ g ts = a) R (f a)) :
    Moves d N R (Reader.peek g >>= f) := by
  refine ⟨(Sound.peek g).bind fun a => (hf a).tame, fun ts hts b rest h hb => ?_⟩
  exact (hf (g ts)).takes ts ⟨hts, rfl⟩ b rest h hb

theorem advance : Moves d N (fun _ => True) Reader.advance := by
  refine ⟨.advance, fun ts _ t rest h _ => ?_⟩
  cases ts with
  | nil => cases h
  | cons t ts =>
      cases h
      exact Nat.lt_succ_self _

theorem skip (hN : ∀ ts, N ts → ts ≠ []) : Moves d N (fun _ => True) Reader.skip := by
  refine ⟨.skip, fun ts hts t rest h _ => ?_⟩
  cases ts with
  | nil => exact absurd rfl (hN [] hts)
  | cons t ts =>
      cases h
      exact Nat.lt_succ_self _

theorem group : Moves d N (fun _ => True) Reader.group := by
  refine ⟨.group, fun ts _ us rest h _ => ?_⟩
  unfold Reader.group at h
  split at h
  · cases h
  · split at h
    · cases h
      exact Nat.lt_succ_of_le (Token.groupFrom_length 1 _)
    · cases h

theorem withSource {p : Reader α} (hp : Moves d N (fun _ => True) p) :
    Moves d N (fun _ => True) (Reader.withSource p) := by
  refine ⟨hp.tame.withSource, fun ts hts a rest h _ => ?_⟩
  unfold Reader.withSource at h
  split at h
  · cases h
  · cases h
  · next hread =>
      cases h
      exact hp.takes ts hts _ _ hread trivial

theorem value : Moves d N (fun _ => True) Reader.value := by
  refine .after (.peek _) fun _ => .ite ?_ ?_
  · exact group.withSource.first fun _ => .pure _
  · exact advance.first fun _ => .pure _

theorem keywords {ks : List String} (hks : ks ≠ []) :
    Moves d N (fun found => found = true) (Reader.keywords ks) := by
  refine ⟨.keywords ks, fun ts _ found rest h hfound => ?_⟩
  unfold Reader.keywords at h
  split at h
  · next hat =>
      cases h
      have hlength := length_le_of_atKeywords hat
      have hpos := List.length_pos_iff.2 hks
      rw [List.length_drop]
      omega
  · cases h
    cases hfound

theorem keywordsAt {ks : List String} (hks : ks ≠ []) (hN : ∀ ts, N ts → atKeywords ks ts = true) :
    Moves d N (fun _ => True) (Reader.keywords ks) := by
  refine ⟨.keywords ks, fun ts hts found rest h _ => ?_⟩
  refine (keywords hks).takes ts hts found rest h ?_
  unfold Reader.keywords at h
  rw [if_pos (hN ts hts)] at h
  cases h
  rfl

/-- A clause that begins with keywords, and what there is if they are not there. -/
theorem keywordsIte {ks : List String} (hks : ks ≠ []) {p q : Reader β} (hp : Tame d p)
    (hq : Moves d N R q) :
    Moves d N R (Reader.keywords ks >>= fun found => if found = true then p else q) := by
  refine (keywords hks).bind (fun found => .ite hp hq.tame) fun found hfound => ?_
  rw [if_neg hfound]
  exact hq

theorem keywordIte {k : String} {p q : Reader β} (hp : Tame d p) (hq : Moves d N R q) :
    Moves d N R (Reader.keyword k >>= fun found => if found = true then p else q) :=
  keywordsIte (List.cons_ne_nil k []) hp hq

theorem symbolIte {s : String} {p q : Reader β} (hp : Tame d p) (hq : Moves d N R q) :
    Moves d N R (Reader.symbol s >>= fun found => if found = true then p else q) := by
  have hsymbol : Moves d N (fun found => found = true) (Reader.symbol s) := by
    refine ⟨.symbol s, fun ts _ found rest h hfound => ?_⟩
    unfold Reader.symbol at h
    split at h
    · next hat =>
        cases h
        cases ts with
        | nil => cases hat
        | cons t ts => exact Nat.lt_succ_self _
    · cases h
      cases hfound
  refine hsymbol.bind (fun found => .ite hp hq.tame) fun found hfound => ?_
  rw [if_neg hfound]
  exact hq

theorem oneOf (ks : List String) :
    Moves d N (fun found => found.isSome = true) (Reader.oneOf ks) := by
  refine ⟨.oneOf ks, fun ts _ found rest h hfound => ?_⟩
  unfold Reader.oneOf at h
  split at h
  · cases h
    cases hfound
  · split at h
    · cases h
      exact Nat.lt_succ_self _
    · cases h
      cases hfound

theorem oneOfAt {ks : List String} (hN : ∀ ts, N ts → ∃ k ∈ ks, atKeyword k ts = true) :
    Moves d N (fun _ => True) (Reader.oneOf ks) := by
  refine ⟨.oneOf ks, fun ts hts found rest h _ => (oneOf ks).takes ts hts found rest h ?_⟩
  obtain ⟨k, hk, hat⟩ := hN ts hts
  cases ts with
  | nil => cases hat
  | cons t ts =>
      have hfound : (ks.find? t.isKeyword).isSome = true := List.find?_isSome.2 ⟨k, hk, hat⟩
      obtain ⟨word, hword⟩ := Option.isSome_iff_exists.1 hfound
      unfold Reader.oneOf at h
      dsimp only at h
      rw [hword] at h
      cases h
      rfl

/-- A token is skipped first, or else the reader takes one. -/
theorem skipOr {c : Prop} [Decidable c] {p : Reader α} {f : α → Reader β}
    (hN : ∀ ts, N ts → ts ≠ []) (hp : ¬ c → Moves d N (fun _ => True) p) (htame : Tame d p)
    (hf : ∀ a, Tame d (f a)) :
    Moves d N R (if c then Reader.skip >>= fun _ => p >>= f else p >>= f) := by
  split
  · exact (skip hN).first fun _ => htame.bind hf
  · next hc => exact (hp hc).first hf

/-- A word in sight is a token in sight. -/
theorem peekUpper {f : Option String → Reader β}
    (hsome : ∀ word, Moves d (fun ts => N ts ∧ ts ≠ []) R (f (some word)))
    (hnone : Moves d N R (f none)) : Moves d N R (Reader.peekUpper >>= f) := by
  refine .peek fun word => ?_
  cases word with
  | none => exact hnone.mono (fun _ h => h.1) fun _ h => h
  | some word =>
      refine (hsome word).mono (fun ts h => ⟨h.1, ?_⟩) fun _ h => h
      rintro rfl
      cases h.2

theorem untilEnd {step : σ → Reader σ}
    (hstep : ∀ s, Moves d (fun ts => ts ≠ []) (fun _ => True) (step s)) (s : σ) :
    Moves d N (fun next => next.isSome = true) (Reader.untilEndStep step s) := by
  refine .peek fun ended => ?_
  cases ended with
  | true => exact .pure Bool.false_ne_true
  | false =>
      refine .first ((hstep s).mono (fun ts h => ?_) fun _ h => h) fun _ => .pure _
      rintro rfl
      cases h.2

end Moves

end Reader

namespace Grammar

open Reader

variable {d : Dialect} {N : List Token → Prop}

def moreStep (parts : List String) : Reader (Option (List String)) := do
  if ← symbol "." then
    match ← optional identifier with
    | some part => return some (parts ++ [part])
    | none => return none
  else return none

def methodStep (words : List String) : Reader (Option (List String)) := do
  match ← peekUpper with
  | some word =>
      skip
      return some (words ++ [word])
  | none => return none

theorem moves_moreStep (parts : List String) :
    Moves d N (fun next => next.isSome = true) (moreStep parts) := by
  refine .symbolIte ?_ (.pure Bool.false_ne_true)
  refine (Sound.identifier blames_true).optional.bind fun part => ?_
  cases part <;> exact .pure _

theorem moves_methodStep (words : List String) :
    Moves d N (fun next => next.isSome = true) (methodStep words) := by
  refine .peekUpper (fun word => ?_) (.pure Bool.false_ne_true)
  exact (Moves.skip fun _ h => h.2).first fun _ => .pure _

theorem moves_looseOption (options : Options) :
    Moves d (fun ts => ts ≠ []) (fun _ => True) (looseOption options) := by
  have htame (word : Option String) : Tame d (looseOption options) := sound_looseOption options
  refine .peekUpper (fun key => ?_) (.peek fun opens => ?_)
  · refine (Moves.skip fun _ h => h.2).first fun _ => (Sound.symbol _).bind fun _ => ?_
    refine (Sound.peek _).bind fun _ => .ite (Sound.value.optional.bind fun v => ?_) (.pure _)
    cases v with
    | none => exact .pure _
    | some v => exact (sound_optionValue v).bind fun _ => .pure _
  · refine .ite ?_ ?_
    · exact Moves.value.first fun v => (sound_optionValue v).bind fun _ => .pure _
    · exact (Moves.skip fun _ h => h.1).first fun _ => .pure _

theorem moves_typeStep (t : TypeDraft) :
    Moves d N (fun next => next.isSome = true) (typeStep t) := by
  refine .peek fun ts => ?_
  split
  · next ks hks =>
      have hne : ks ≠ [] := by
        rintro rfl
        exact absurd (List.mem_of_find?_eq_some hks) (by decide)
      have hat : atKeywords ks ts = true := by simpa using List.find?_some hks
      refine .first (Moves.keywordsAt hne fun us h => ?_) fun _ => .pure _
      obtain ⟨-, rfl⟩ := h
      exact hat
  · refine .ite (.after .dialect fun _ => Moves.group.first fun _ => .pure _) ?_
    split
    · next hopens =>
        refine (Moves.skip fun us h => ?_).first fun _ => Sound.skip.bind fun _ => .pure _
        obtain ⟨-, rfl⟩ := h
        rintro rfl
        cases hopens
    · exact .pure Bool.false_ne_true

theorem moves_referenceStep (k : ForeignKey) :
    Moves d N (fun next => next.isSome = true) (referenceStep k) := by
  refine .keywordsIte (by decide) (sound_referentialAction.bind fun _ => .pure _) ?_
  refine .keywordsIte (by decide) (sound_referentialAction.bind fun _ => .pure _) ?_
  exact .keywordIte (Sound.skip.bind fun _ => .pure _) (.pure Bool.false_ne_true)

theorem moves_event? : Moves d N (fun event => event.isSome = true) event? := by
  refine (Moves.oneOf _).orElse (fun word => ?_) (.pure Bool.false_ne_true)
  split <;> exact .pure _

theorem moves_eventStep (found : List Event × Bool) :
    Moves d N (fun next => next.isSome = true) (eventStep found) :=
  .ite (.pure Bool.false_ne_true) (moves_event?.orElse (fun event => sound_afterEvent found.1 event)
    (.pure Bool.false_ne_true))

theorem moves_createStep (o : CreateOptions) :
    Moves d N (fun next => next.isSome = true) (createStep o) := by
  have htook (o : CreateOptions) : Moves d (fun ts => N ts ∧ ts ≠ [])
      (fun next => next.isSome = true) (do skip; return some o) :=
    (Moves.skip fun _ h => h.2).first fun _ => .pure _
  refine .peekUpper (fun word => ?_) (.pure Bool.false_ne_true)
  dsimp only
  split
  · exact htook _
  · exact htook _
  · exact htook _
  · exact htook _
  · exact .ite (htook _) (.pure Bool.false_ne_true)
  · exact .pure Bool.false_ne_true

/-- Whatever a dialect finds of its own, it has taken a token. -/
structure Clauses.Move (d : Dialect) (clauses : Clauses) : Prop where
  createOption : Moves d (fun _ => True) (fun found => found = true) clauses.createOption
  createForm : Moves d (fun _ => True) (fun _ => True) clauses.createForm
  tableElement : ∀ t, Moves d (fun _ => True) (fun found => found.isSome = true)
    (clauses.tableElement t)
  tableClause : ∀ t, Moves d (fun _ => True) (fun found => found.isSome = true)
    (clauses.tableClause t)
  columnClause : ∀ c, Moves d (fun _ => True) (fun found => found.isSome = true)
    (clauses.columnClause c)
  indexClause : ∀ i, Moves d (fun _ => True) (fun found => found.isSome = true)
    (clauses.indexClause i)

theorem Clauses.move_common : Clauses.common.Move d where
  createOption := .pure Bool.false_ne_true
  createForm := .fail
  tableElement := fun _ => .pure Bool.false_ne_true
  tableClause := fun _ => .pure Bool.false_ne_true
  columnClause := fun _ => .pure Bool.false_ne_true
  indexClause := fun _ => .pure Bool.false_ne_true

namespace Postgres

theorem moves_tableClause (t : Table) :
    Moves d N (fun found => found.isSome = true) (tableClause t) := by
  have hname : Tame d (optional identifier) := (Sound.identifier blames_true).optional
  refine .keywordsIte (by decide) (sound_partition.optional.bind fun _ => .pure _) ?_
  refine .keywordIte ((sound_parents blames_true).bind fun _ => .pure _) ?_
  refine .keywordIte (hname.bind fun _ => .pure _) (.peek fun starts => ?_)
  cases starts with
  | true =>
      refine .first (Moves.skip fun ts h => ?_) fun _ => Sound.groupText.optional.bind fun _ =>
        (sound_canonical _).bind fun _ => .pure _
      rintro rfl
      cases h.2
  | false =>
      refine .keywordsIte (by decide) (.pure _) (.keywordsIte (by decide) (.pure _) ?_)
      refine .keywordsIte (by decide) ?_ (.keywordIte (hname.bind fun _ => .pure _) ?_)
      · exact (Sound.sourceUntil _).bind fun _ => (sound_canonical _).bind fun _ => .pure _
      · exact .pure Bool.false_ne_true

theorem moves_indexClause (i : Index) :
    Moves d N (fun found => found.isSome = true) (indexClause i) :=
  .keywordsIte (by decide) (.pure _)
    (.keywordsIte (by decide) (.pure _) (.pure Bool.false_ne_true))

theorem move_clauses : clauses.Move d :=
  { Clauses.move_common with
    tableClause := moves_tableClause
    indexClause := moves_indexClause }

end Postgres

namespace Sqlite

theorem moves_createForm : Moves d N (fun _ => True) createForm := by
  refine .after (.oneOf _) fun _ => .keywordsIte (by decide) ?_ .fail
  refine (Sound.keywords _).bind fun _ => (Sound.qualifiedName blames_true).bind fun _ => ?_
  refine (Sound.keyword _).bind fun _ => .ite ?_ .fail
  exact (Sound.identifier blames_true).bind fun _ => sound_arguments.bind fun _ => .pure _

theorem moves_tableClause (t : Table) :
    Moves d N (fun found => found.isSome = true) (tableClause t) :=
  .keywordsIte (by decide) (.pure _) (.keywordIte (.pure _) (.pure Bool.false_ne_true))

theorem moves_columnClause (c : Column) :
    Moves d N (fun found => found.isSome = true) (columnClause c) := by
  refine .keywordsIte (by decide) (Sound.peekUpper.bind fun action => ?_)
    (.pure Bool.false_ne_true)
  cases action with
  | none => exact .pure _
  | some action => exact Sound.skip.bind fun _ => .pure _

theorem move_clauses : clauses.Move d :=
  { Clauses.move_common with
    createForm := moves_createForm
    tableClause := moves_tableClause
    columnClause := moves_columnClause }

end Sqlite

namespace MySql

def hostStep (_ : Unit) : Reader (Option Unit) := do
  if ← symbol "@" then
    let _ ← optional value
    return some ()
  else return none

theorem moves_hostStep (u : Unit) :
    Moves d N (fun next => next.isSome = true) (hostStep u) :=
  .symbolIte (Sound.value.optional.bind fun _ => .pure _) (.pure Bool.false_ne_true)

theorem moves_createOption : Moves d N (fun found => found = true) createOption := by
  refine .keywordIte ?_ (.keywordIte ?_ (.keywordsIte (by decide) ?_ (.pure Bool.false_ne_true)))
  · refine (Sound.symbol _).bind fun _ => Sound.value.optional.bind fun _ => ?_
    exact Sound.skipGroup.bind fun _ => (sound_hosts ()).bind fun _ => .pure _
  · exact (Sound.symbol _).bind fun _ => Sound.skip.bind fun _ => .pure _
  · exact Sound.skip.bind fun _ => .pure _

theorem moves_indexClause (i : Index) :
    Moves d N (fun found => found.isSome = true) (indexClause i) := by
  have hassigned : Tame d (optional assigned) := sound_assigned.optional
  refine .keywordIte (hassigned.bind fun _ => .pure _) ?_
  refine .keywordIte (hassigned.bind fun _ => .pure _) ?_
  refine .keywordIte ((Sound.identifier blames_true).optional.bind fun method => ?_) ?_
  · cases method with
    | none => exact .pure _
    | some method => exact .ite (.pure _) (.pure _)
  refine .keywordIte (hassigned.bind fun comment => ?_) ?_
  · cases comment <;> exact .pure _
  exact .keywordIte (.pure _) (.keywordIte (.pure _) (.pure Bool.false_ne_true))

theorem moves_keyOption (i : Index) :
    Moves d (fun ts => ts ≠ []) (fun _ => True) (keyOption i) := by
  refine (moves_indexClause i).orElse (fun _ => .pure _) ?_
  exact (moves_looseOption _).first fun _ => .pure _

/-- A key begins with one of its words. -/
theorem keyKind_spec {ts : List Token} {kind : IndexKind} (h : keyKind ts = some kind) :
    ts ≠ [] ∧ (kind = .default → atKeyword "KEY" ts = true ∨ atKeyword "INDEX" ts = true) := by
  constructor
  · rintro rfl
    cases h
  · rintro rfl
    exact Bool.or_eq_true_iff.1 (Bool.and_eq_true_iff.1 (startsKey_of_keyKind h)).1

theorem tableElement_of_keyKind (t : Table) {ts : List Token} (h : keyKind ts = none) :
    tableElement t d ts = .ok (some none, ts) := by
  have hkind : peek keyKind d ts = .ok (some none, ts) := by rw [peek, h]
  rw [tableElement, bind_apply, hkind]
  rfl

/-- An element that begins as a key has lost a token, whether a key comes of it or not. -/
theorem moves_key (t : Table) :
    Moves d (fun ts => keyKind ts ≠ none) (fun _ => True) (tableElement t) := by
  refine .peek fun kind => ?_
  cases kind with
  | none => exact ⟨.pure none, fun ts hts _ _ _ _ => absurd hts.2 hts.1⟩
  | some kind =>
      have hword (hkind : ¬ kind ≠ .default) :
          Moves d (fun ts => keyKind ts ≠ none ∧ keyKind ts = some kind) (fun _ => True)
            (Reader.oneOf ["KEY", "INDEX"]) := by
        refine .oneOfAt fun ts hts => ?_
        rcases (keyKind_spec hts.2).2 (not_not.1 hkind) with hkey | hindex
        · exact ⟨"KEY", by decide, hkey⟩
        · exact ⟨"INDEX", by decide, hindex⟩
      refine .skipOr (fun ts h => (keyKind_spec h.2).1) hword (.oneOf _) fun _ => ?_
      refine (Sound.peek _).bind fun _ => ?_
      refine .iteAfter (.pure _) (Sound.identifier blames_true).optional fun name => ?_
      refine (Sound.keyword _).bind fun _ => .joined .skip ?_
      refine (sound_keyColumns blames_true).bind fun columns => ?_
      cases columns with
      | nil => exact .pure _
      | cons first others =>
          exact (Sound.untilEnd (sound_keyOption blames_true) _).bind fun _ => .pure _

theorem moves_tableElement (t : Table) :
    Moves d N (fun found => found.isSome = true) (tableElement t) := by
  refine ⟨(moves_key t).tame, fun ts _ found rest h hfound => ?_⟩
  refine (moves_key t).takes ts (fun hkind => ?_) found rest h trivial
  rw [tableElement_of_keyKind t hkind] at h
  cases h
  cases hfound

theorem moves_tableClause (t : Table) :
    Moves d N (fun found => found.isSome = true) (tableClause t) := by
  have hassigned : Tame d (optional assigned) := sound_assigned.optional
  refine .after (.peek _) fun _ => .joined .skip ?_
  refine .keywordIte (hassigned.bind fun _ => .pure _) ?_
  refine .keywordIte (hassigned.bind fun _ => .pure _) ?_
  refine .keywordIte (sound_assignedOption t _) ?_
  refine .keywordsIte (by decide) (sound_assignedOption t _) ?_
  refine .keywordIte (sound_assignedOption t _) ?_
  refine .keywordIte (sound_assignedOption t _) ?_
  refine .keywordsIte (by decide) (sound_partition.optional.bind fun _ => .pure _) ?_
  exact .keywordsIte (by decide) (.pure _) (.pure Bool.false_ne_true)

theorem move_clauses : clauses.Move d :=
  { Clauses.move_common with
    createOption := moves_createOption
    tableElement := moves_tableElement
    tableClause := moves_tableClause
    indexClause := moves_indexClause }

end MySql

namespace Db2

def placementStep (parts : List String) : Reader (Option (List String)) := do
  if ← symbol "." then return some (parts ++ (← optional identifier).toList)
  else return none

theorem moves_placementStep (parts : List String) :
    Moves d N (fun next => next.isSome = true) (placementStep parts) :=
  .symbolIte ((Sound.identifier blames_true).optional.bind fun _ => .pure _)
    (.pure Bool.false_ne_true)

theorem moves_storageClause (s : Storage) :
    Moves d N (fun found => found.isSome = true) (storageClause s) := by
  have hname : Tame d (optional identifier) := (Sound.identifier blames_true).optional
  have hstored : Tame d (optional (do optionValue (← value))) :=
    (Sound.value.bind fun v => sound_optionValue v).optional
  refine .keywordsIte (by decide) (hname.bind fun _ => .pure _) ?_
  refine .keywordIte (hname.bind fun _ => .pure _) ?_
  refine .keywordsIte (by decide) (hname.bind fun _ => .pure _) ?_
  refine .keywordIte (hstored.bind fun _ => .pure _) ?_
  exact .keywordIte (hstored.bind fun _ => .pure _) (.pure Bool.false_ne_true)

theorem moves_createForm : Moves d N (fun _ => True) createForm := by
  refine (Moves.oneOf _).orElse (fun word => ?_) .fail
  refine (Sound.keyword _).bind fun _ => .ite .failed ?_
  refine (Sound.qualifiedName blames_true).bind fun _ => (Sound.keyword _).bind fun _ => ?_
  refine .iteAfter (sound_placement blames_true).optional (.pure _) fun _ => ?_
  refine (Sound.keyword _).bind fun _ => .ite .failed ?_
  refine (Sound.qualifiedName blames_true).bind fun _ => (Sound.keyword _).bind fun _ => ?_
  refine .ite .failed ((Sound.identifier blames_true).bind fun _ => ?_)
  refine (Sound.keyword _).bind fun _ => ?_
  exact .ite (Sound.value.optional.bind fun _ => .pure _) (.pure _)

theorem moves_tableClause (t : Table) :
    Moves d N (fun found => found.isSome = true) (tableClause t) := by
  have hword : Tame d upperValue := sound_upperValue
  refine (moves_storageClause t.storage).orElse (fun _ => .pure _) ?_
  refine .keywordIte ((sound_placement blames_true).optional.bind fun _ => .pure _) ?_
  refine .keywordIte (hword.bind fun _ => .pure _) ?_
  refine .keywordIte (hword.bind fun _ => .pure _) ?_
  refine .keywordsIte (by decide) (sound_partition.optional.bind fun _ => .pure _) ?_
  exact .keywordsIte (by decide) (hword.bind fun _ => .pure _) (.pure Bool.false_ne_true)

theorem moves_columnClause (c : Column) :
    Moves d N (fun found => found.isSome = true) (columnClause c) := by
  refine .keywordsIte (by decide) ((Sound.sourceUntil _).bind fun s => .ite (.pure _) ?_) ?_
  · exact Sound.dialect.bind fun _ => .pure _
  refine .keywordsIte (by decide) (.pure _) ?_
  exact .keywordsIte (by decide) ((Sound.valueOr _).bind fun _ => .pure _)
    (.pure Bool.false_ne_true)

theorem moves_indexClause (i : Index) :
    Moves d N (fun found => found.isSome = true) (indexClause i) := by
  refine (moves_storageClause i.storage).orElse (fun _ => .pure _) ?_
  refine .keywordsIte (by decide) (.pure _) (.keywordsIte (by decide) (.pure _) ?_)
  refine .keywordIte (.pure _) (.keywordIte (.pure _) (.keywordIte (.pure _) ?_))
  refine .keywordIte ?_ (.pure Bool.false_ne_true)
  exact (sound_placement blames_true).optional.bind fun _ => .pure _

theorem move_clauses : clauses.Move d :=
  { Clauses.move_common with
    createForm := moves_createForm
    tableClause := moves_tableClause
    columnClause := moves_columnClause
    indexClause := moves_indexClause }

end Db2

theorem Clauses.move_ofDialect (d' : Dialect) : (Clauses.ofDialect d').Move d := by
  cases d'
  case postgres => exact Postgres.move_clauses
  case mySql => exact MySql.move_clauses
  case sqlite => exact Sqlite.move_clauses
  case db2 => exact Db2.move_clauses

section

variable {clauses : Clauses} (hclauses : clauses.Move d)

def optionStep (clauses : Clauses) (_ : Unit) : Reader (Option Unit) := do
  return if ← clauses.createOption then some () else none

include hclauses in
theorem moves_optionStep (u : Unit) :
    Moves d (fun _ => True) (fun next => next.isSome = true) (optionStep clauses u) := by
  refine hclauses.createOption.bind (fun _ => .pure _) fun found hfound => .pure ?_
  rw [if_neg hfound]
  exact Bool.false_ne_true

include hclauses in
theorem moves_tableStep (t : Table) :
    Moves d (fun ts => ts ≠ []) (fun _ => True) (tableStep clauses t) := by
  refine .symbolIte (.pure _) ?_
  refine ((hclauses.tableClause t).mono (fun _ _ => trivial) fun _ h => h).orElse
    (fun _ => .pure _) ?_
  exact (moves_looseOption _).first fun _ => .pure _

include hclauses in
theorem moves_indexStep (r : IndexDraft) :
    Moves d (fun ts => ts ≠ []) (fun _ => True) (indexStep clauses r) := by
  have hname : Tame d (optional identifier) := (Sound.identifier blames_true).optional
  refine ((hclauses.indexClause r.index).mono (fun _ _ => trivial) fun _ h => h).orElse
    (fun _ => .pure _) ?_
  refine .keywordIte ((sound_keyColumns blames_true).bind fun _ => .pure _) ?_
  refine .keywordIte (Sound.rest.bind fun s => (sound_canonicalExpression s).bind fun _ => .pure _)
    ?_
  refine .after (.peek _) fun _ => .ite ?_ ?_
  · refine (Moves.skip fun _ h => h).first fun _ => Sound.groupText.optional.bind fun _ => ?_
    exact (sound_canonical _).bind fun _ => .pure _
  refine .keywordIte (hname.bind fun _ => .pure _) (.keywordIte (hname.bind fun _ => .pure _) ?_)
  exact (moves_looseOption _).first fun _ => .pure _

include hclauses in
theorem moves_columnStep (r : ColumnDraft) :
    Moves d (fun ts => ts ≠ []) (fun _ => True) (columnStep clauses r) := by
  refine ((hclauses.columnClause r.column).mono (fun _ _ => trivial) fun _ h => h).orElse
    (fun _ => .pure _) ?_
  refine .after .peekUpper fun word => ?_
  dsimp only
  split
  · exact (Moves.skip fun _ h => h).first fun _ => .pure _
  · refine .first ?_ fun _ => .pure _
    refine .keywordIte ?_ .fail
    refine (Sound.qualifiedName blames_true).bind fun _ => ?_
    refine (sound_keyColumns blames_true).bind fun _ => ?_
    exact .iterate sound_referenceStep _
  · next word _ =>
      refine .keywordsIte (by decide) (.pure _) ?_
      refine .keywordsIte (by decide) ((Sound.oneOf _).bind fun _ => .pure _) ?_
      refine .keywordsIte (by decide) ?_ ?_
      · exact (Sound.sourceUntil _).bind fun _ => (sound_canonicalExpression _).bind fun _ =>
          .pure _
      · exact (Moves.skip fun _ h => h).first fun _ => sound_clauseAfter blames_true r word

end

end Grammar

end SchemaDrift
