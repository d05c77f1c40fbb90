import SchemaDrift.Proofs.Agreement
import SchemaDrift.Proofs.Headings
import SchemaDrift.Proofs.TypeExtents

namespace SchemaDrift

open Reader

/-- What a statement says of a trigger: with `UPDATE` go the columns after `OF`, if there are any,
and `rest` is all that follows the table. -/
structure TriggerText where
  name : QualifiedName
  timing : Timing
  events : List (Event × Option (List Token))
  table : QualifiedName
  rest : List Token

namespace Grammar

def timingPhrases : List (List String × Timing) :=
  [(["NO", "CASCADE", "BEFORE"], .before), (["BEFORE"], .before), (["AFTER"], .after),
    (["INSTEAD", "OF"], .insteadOf), ([], .before)]

def IsTiming (timing : Timing) (ts : List Token) : Prop :=
  ∃ ks, (ks, timing) ∈ timingPhrases ∧ atKeywords ks ts = true ∧ ts.length = ks.length

inductive IsEvent : Event → Option (List Token) → List Token → Prop
  | plain {e : Event} {t : Token} (ht : t.isKeyword e.text = true) : IsEvent e none [t]
  | columns {t of : Token} {ts : List Token} (ht : t.isKeyword "UPDATE" = true)
      (hof : of.isKeyword "OF" = true)
      (hts : ∀ u ∈ ts, u.isKeyword "ON" = false ∧ u.isKeyword "OR" = false) :
      IsEvent .update (some ts) (t :: of :: ts)

/-- What may stand behind an event. A comma behind columns is taken for one between columns. -/
def Separates (columns : Option (List Token)) (t : Token) : Prop :=
  t.isKeyword "OR" = true ∨ columns = none ∧ t.isSymbol "," = true

inductive IsEvents : List (Event × Option (List Token)) → List Token → Prop
  | last {e : Event} {columns : Option (List Token)} {ts : List Token}
      (h : IsEvent e columns ts) : IsEvents [(e, columns)] ts
  | trailing {e : Event} {columns : Option (List Token)} {ts : List Token} {t : Token}
      (h : IsEvent e columns ts) (ht : Separates columns t) : IsEvents [(e, columns)] (ts ++ [t])
  | cons {e : Event} {columns : Option (List Token)} {ts us : List Token} {t : Token}
      {es : List (Event × Option (List Token))} (h : IsEvent e columns ts)
      (ht : Separates columns t) (hes : IsEvents es us) :
      IsEvents ((e, columns) :: es) (ts ++ t :: us)

end Grammar

open Grammar

inductive TriggerText.WrittenIn (d : Dialect) : TriggerText → List Token → Prop
  | mk {x : TriggerText} {ts when what us : List Token} {on : Token}
      (hname : qualifiedName d ts = .ok (some x.name, when ++ (what ++ on :: us)))
      (htiming : IsTiming x.timing when) (hevents : IsEvents x.events what)
      (hon : on.isKeyword "ON" = true)
      (htable : qualifiedName d us = .ok (some x.table, x.rest)) : x.WrittenIn d ts

namespace Grammar

variable {d : Dialect} {t : Token} {ts us rest : List Token}

/-- A phrase that settles the matter, or else what comes next. -/
theorem keywords_ite {α : Type} (ks : List String) (a : α) (p : Reader α) (d : Dialect)
    (ts : List Token) :
    (keywords ks >>= fun found => if found = true then pure a else p) d ts =
      if atKeywords ks ts then .ok (some a, ts.drop ks.length) else p d ts := by
  rw [keywords_bind]
  rfl

/-- The first phrase that the tokens begin with is the one that counts. -/
theorem timing_of_find? {p : List String × Timing}
    (h : timingPhrases.find? (fun p => atKeywords p.1 ts) = some p) :
    timing d ts = .ok (some p.2, ts.drop p.1.length) := by
  have hempty : atKeywords [] ts = true := by cases ts <;> rfl
  simp only [timingPhrases, List.find?_cons, hempty] at h
  unfold timing keyword
  simp only [keywords_ite]
  generalize atKeywords ["NO", "CASCADE", "BEFORE"] ts = first,
    atKeywords ["BEFORE"] ts = second, atKeywords ["AFTER"] ts = third,
    atKeywords ["INSTEAD", "OF"] ts = fourth at h ⊢
  cases first <;> cases second <;> cases third <;> cases fourth <;> cases h <;> rfl

theorem exists_find?_timingPhrases (ts : List Token) :
    ∃ p, timingPhrases.find? (fun p => atKeywords p.1 ts) = some p := by
  have hlast : (([], .before) : List String × Timing) ∈ timingPhrases := by decide
  exact Option.isSome_iff_exists.1 (List.find?_isSome.2 ⟨_, hlast, by cases ts <;> rfl⟩)

theorem atKeywords_take {ks : List String} (h : atKeywords ks ts = true) :
    atKeywords ks (ts.take ks.length) = true ∧ (ts.take ks.length).length = ks.length := by
  induction ks generalizing ts with
  | nil => exact ⟨by simp [atKeywords], rfl⟩
  | cons k ks ih =>
      cases ts with
      | nil => cases h
      | cons t ts =>
          obtain ⟨ht, hts⟩ := Bool.and_eq_true_iff.1 h
          obtain ⟨htake, hlength⟩ := ih hts
          exact ⟨Bool.and_eq_true_iff.2 ⟨ht, htake⟩, congrArg (· + 1) hlength⟩

theorem exists_isTiming {when : Timing} (h : timing d ts = .ok (some when, rest)) :
    ∃ ws, ts = ws ++ rest ∧ IsTiming when ws := by
  obtain ⟨p, hp⟩ := exists_find?_timingPhrases ts
  rw [timing_of_find? hp] at h
  cases h
  have hat : atKeywords p.1 ts = true := by simpa using List.find?_some hp
  exact ⟨ts.take p.1.length, (List.take_append_drop _ _).symm, p.1,
    List.mem_of_find?_eq_some hp, atKeywords_take hat⟩

/-- The words of a timing are read for what they are where an event follows. -/
theorem IsTiming.timing_eq {when : Timing} {ws : List Token} (h : IsTiming when ws)
    {e : Event} (ht : t.isKeyword e.text = true) (us : List Token) :
    timing d (ws ++ t :: us) = .ok (some when, t :: us) := by
  obtain ⟨ks, hks, hws, hlength⟩ := h
  have hall := atKeywords_append hws (t :: us)
  -- The first word tells the phrases apart, and every phrase from an event.
  have hnot (word : String) (hword : ks.head?.getD e.text = word) {k : String}
      (hk : Text.asciiUpper word.toList ≠ Text.asciiUpper k.toList) (others : List String) :
      atKeywords (k :: others) (ws ++ t :: us) = false := by
    subst hword
    cases ks with
    | nil =>
        obtain rfl := List.eq_nil_of_length_eq_zero hlength
        exact atKeywords_cons_of_ne ht hk _ _
    | cons first ks =>
        cases ws with
        | nil => cases hlength
        | cons w ws => exact atKeywords_cons_of_ne (Bool.and_eq_true_iff.1 hws).1 hk _ _
  have hevent (k : String) (hk : k ∈ ["NO", "BEFORE", "AFTER", "INSTEAD"]) :
      Text.asciiUpper e.text.toList ≠ Text.asciiUpper k.toList := by
    revert k
    cases e <;> decide
  have hfirst : timingPhrases.find? (fun p => atKeywords p.1 (ws ++ t :: us)) =
      some (ks, when) := by
    simp only [timingPhrases, List.mem_cons, Prod.mk.injEq, List.not_mem_nil, or_false] at hks
    simp only [timingPhrases, List.find?_cons]
    rcases hks with ⟨rfl, rfl⟩ | ⟨rfl, rfl⟩ | ⟨rfl, rfl⟩ | ⟨rfl, rfl⟩ | ⟨rfl, rfl⟩
    · rw [hall]
    · rw [hnot "BEFORE" rfl (by decide), hall]
    · rw [hnot "AFTER" rfl (by decide), hnot "AFTER" rfl (by decide), hall]
    · rw [hnot "INSTEAD" rfl (by decide), hnot "INSTEAD" rfl (by decide),
        hnot "INSTEAD" rfl (by decide), hall]
    · rw [hnot _ rfl (hevent _ (by decide)), hnot _ rfl (hevent _ (by decide)),
        hnot _ rfl (hevent _ (by decide)), hnot _ rfl (hevent _ (by decide)), hall]
  rw [timing_of_find? hfirst, ← hlength, List.drop_left]

theorem event?_of_isKeyword {e : Event} (ht : t.isKeyword e.text = true) (ts : List Token) :
    event? d (t :: ts) = .ok (some (some e), ts) := by
  have hfind : ["INSERT", "UPDATE", "DELETE", "TRUNCATE"].find? t.isKeyword = some e.text := by
    have hne {k : String} (hk : Text.asciiUpper e.text.toList ≠ Text.asciiUpper k.toList) :
        t.isKeyword k = false := Token.not_isKeyword_of_ne ht hk
    simp only [List.find?_cons]
    cases e with
    | insert => rw [show t.isKeyword "INSERT" = true from ht]; rfl
    | update => rw [hne (by decide), show t.isKeyword "UPDATE" = true from ht]; rfl
    | delete =>
        rw [hne (by decide), hne (by decide), show t.isKeyword "DELETE" = true from ht]
        rfl
    | truncate =>
        rw [hne (by decide), hne (by decide), hne (by decide),
          show t.isKeyword "TRUNCATE" = true from ht]
        rfl
  unfold event?
  rw [bind_of_eq (oneOf_of_find? hfind ts)]
  cases e <;> rfl

theorem event?_of_not (h : ∀ e : Event, atKeyword e.text ts = false) :
    event? d ts = .ok (some none, ts) := by
  have hnone : oneOf ["INSERT", "UPDATE", "DELETE", "TRUNCATE"] d ts = .ok (some none, ts) := by
    refine oneOf_of_not fun k hk => ?_
    simp only [List.mem_cons, List.not_mem_nil, or_false] at hk
    rcases hk with rfl | rfl | rfl | rfl
    · exact h .insert
    · exact h .update
    · exact h .delete
    · exact h .truncate
  unfold event?
  rw [bind_of_eq hnone]
  rfl

def atSeparator (ts : List Token) : Bool := atKeyword "OR" ts || atSymbol "," ts

def pastColumns (e : Event) (ts : List Token) : List Token :=
  if e = .update ∧ atKeyword "OF" ts = true then
    ts.tail.dropWhile (fun t => !t.isKeyword "ON" && !t.isKeyword "OR")
  else ts

theorem atKeywords_single (k : String) (ts : List Token) : atKeywords [k] ts = atKeyword k ts := by
  cases ts with
  | nil => rfl
  | cons t ts => exact Bool.and_true _

theorem separator_bind {α : Type} (f : Bool → Reader α) (d : Dialect) (ts : List Token) :
    (keyword "OR" >>= fun or => if or = true then pure true >>= f else symbol "," >>= f) d ts =
      f (atSeparator ts) d (if atSeparator ts then ts.tail else ts) := by
  rw [keyword, keywords_bind, atKeywords_single, atSeparator]
  cases atKeyword "OR" ts with
  | true =>
      cases ts <;> rfl
  | false =>
      change (symbol "," >>= f) d ts = _
      rw [Bool.false_or]
      cases hcomma : atSymbol "," ts with
      | true => exact bind_of_eq (if_pos hcomma)
      | false => exact bind_of_eq (if_neg (Bool.eq_false_iff.1 hcomma))

/-- One event with its columns and the separator behind it. -/
theorem eventStep_eq {e : Event} (ht : t.isKeyword e.text = true) (found : List Event)
    (d : Dialect) (ts : List Token) : eventStep (found, true) d (t :: ts) =
      .ok (some (some (found ++ [e], atSeparator (pastColumns e ts))),
        if atSeparator (pastColumns e ts) then (pastColumns e ts).tail
        else pastColumns e ts) := by
  unfold eventStep
  change (event? >>= _) d (t :: ts) = _
  rw [bind_of_eq (event?_of_isKeyword ht ts)]
  dsimp only
  by_cases he : e = .update
  · rw [if_pos he, keyword, keywords_bind, atKeywords_single]
    by_cases hof : atKeyword "OF" ts = true
    · have hpast : pastColumns e ts =
          ts.tail.dropWhile (fun t => !t.isKeyword "ON" && !t.isKeyword "OR") :=
        if_pos ⟨he, hof⟩
      have hskip : skipColumns d (ts.drop 1) = .ok (some (), pastColumns e ts) := by
        rw [hpast, skipColumns, List.drop_one]
      rw [if_pos hof, if_pos rfl, List.length_singleton, bind_of_eq hskip, separator_bind]
      rfl
    · have hpast : pastColumns e ts = ts := if_neg fun hcolumns => hof hcolumns.2
      rw [hpast, if_neg hof, if_neg Bool.false_ne_true, separator_bind]
      rfl
  · have hpast : pastColumns e ts = ts := if_neg fun hcolumns => he hcolumns.1
    rw [hpast, if_neg he, separator_bind]
    rfl

theorem eventStep_stop (h : ∀ e : Event, atKeyword e.text ts = false) (found : List Event) :
    eventStep (found, true) d ts = .ok (some none, ts) := by
  unfold eventStep
  change (event? >>= _) d ts = _
  rw [bind_of_eq (event?_of_not h)]
  rfl

theorem iterate_eventStep_done (found : List Event) (ts : List Token) :
    iterate eventStep (found, false) d ts = .ok (some (found, false), ts) :=
  iterate_of_stop rfl

theorem pastColumns_length (e : Event) (ts : List Token) :
    (pastColumns e ts).length ≤ ts.length := by
  rw [pastColumns]
  split
  · exact ((List.dropWhile_suffix _).trans (List.tail_suffix ts)).length_le
  · exact Nat.le_refl _

/-- What is passed over is an event as it is written. -/
theorem exists_isEvent {e : Event} (ht : t.isKeyword e.text = true) (ts : List Token) :
    ∃ columns ws, t :: ts = ws ++ pastColumns e ts ∧ IsEvent e columns ws ∧
      ∀ u ∈ (pastColumns e ts).head?, u.isKeyword "OR" = true ∨ u.isSymbol "," = true →
        Separates columns u := by
  by_cases hcolumns : e = .update ∧ atKeyword "OF" ts = true
  · obtain ⟨rfl, hof⟩ := hcolumns
    cases ts with
    | nil => cases hof
    | cons of us =>
        have hpast : pastColumns .update (of :: us) =
            us.dropWhile (fun t => !t.isKeyword "ON" && !t.isKeyword "OR") := if_pos ⟨rfl, hof⟩
        rw [hpast]
        refine ⟨_, t :: of :: us.takeWhile (fun t => !t.isKeyword "ON" && !t.isKeyword "OR"),
          ?_, .columns ht hof ?_, ?_⟩
        · rw [List.cons_append, List.cons_append, List.takeWhile_append_dropWhile]
        · intro u hu
          simpa using List.mem_takeWhile_imp hu
        · intro u hu hsep
          have hstop := List.head?_dropWhile_not
            (fun t : Token => !t.isKeyword "ON" && !t.isKeyword "OR") us
          rw [Option.mem_def.1 hu] at hstop
          dsimp only at hstop
          rcases hsep with hor | hcomma
          · exact .inl hor
          · rw [Token.isKeyword_of_isSymbol hcomma, Token.isKeyword_of_isSymbol hcomma] at hstop
            cases hstop
  · have hpast : pastColumns e ts = ts := if_neg hcolumns
    rw [hpast]
    exact ⟨none, [t], rfl, .plain ht, fun u _ hsep => hsep.imp id fun hcomma => ⟨rfl, hcomma⟩⟩

/-- What is read as events is written as events. -/
theorem exists_isEvents {found all : List Event} {more : Bool}
    (h : iterate eventStep (found, true) d ts = .ok (some (all, more), rest)) :
    (all = found ∧ rest = ts) ∨
      ∃ es ws, ts = ws ++ rest ∧ IsEvents es ws ∧ all = found ++ es.map Prod.fst := by
  induction hn : ts.length using Nat.strong_induction_on generalizing ts found with
  | _ n ih =>
      subst hn
      by_cases hevent : ∃ e : Event, atKeyword e.text ts = true
      · obtain ⟨e, he⟩ := hevent
        cases ts with
        | nil => cases he
        | cons t ts =>
            have ht : t.isKeyword e.text = true := he
            obtain ⟨columns, ws, hws, hevent, hsep⟩ := exists_isEvent ht ts
            have hlength := pastColumns_length e ts
            cases hat : atSeparator (pastColumns e ts) with
            | false =>
                have hstep := eventStep_eq ht found d ts
                rw [hat, if_neg Bool.false_ne_true] at hstep
                rw [iterate_of_step hstep (Nat.lt_succ_of_le hlength),
                  iterate_eventStep_done] at h
                cases h
                exact .inr ⟨[(e, columns)], ws, hws, .last hevent, rfl⟩
            | true =>
                obtain ⟨u, us, hpast⟩ : ∃ u us, pastColumns e ts = u :: us := by
                  cases hpast : pastColumns e ts with
                  | nil =>
                      rw [hpast] at hat
                      cases hat
                  | cons u us => exact ⟨u, us, rfl⟩
                have hstep := eventStep_eq ht found d ts
                rw [hat, if_pos rfl, hpast, List.tail_cons] at hstep
                rw [hpast] at hws hsep hlength hat
                have hu := hsep u rfl (Bool.or_eq_true_iff.1 hat)
                rw [List.length_cons] at hlength
                have hless : us.length < (t :: ts).length := by
                  rw [List.length_cons]
                  omega
                rw [iterate_of_step hstep hless] at h
                right
                rcases ih us.length hless h rfl with ⟨rfl, rfl⟩ | ⟨es, vs, rfl, hes, rfl⟩
                · refine ⟨[(e, columns)], ws ++ [u], ?_, .trailing hevent hu, rfl⟩
                  rw [hws, List.append_assoc, List.singleton_append]
                · refine ⟨(e, columns) :: es, ws ++ u :: vs, ?_, .cons hevent hu hes, ?_⟩
                  · rw [hws, List.append_assoc, List.cons_append]
                  · rw [List.map_cons, List.append_assoc, List.singleton_append]
      · push Not at hevent
        rw [iterate_of_stop (eventStep_stop (fun e => Bool.eq_false_iff.2 (hevent e)) found)] at h
        cases h
        exact .inl ⟨rfl, rfl⟩

theorem IsEvent.exists_pastColumns {e : Event} {columns : Option (List Token)}
    (h : IsEvent e columns ts) : ∃ t us, ts = t :: us ∧ t.isKeyword e.text = true ∧
      ∀ u vs, u.isKeyword "ON" = true ∨ Separates columns u →
        pastColumns e (us ++ u :: vs) = u :: vs := by
  cases h with
  | @plain _ t ht =>
      refine ⟨t, [], rfl, ht, fun u vs hu => if_neg fun hcolumns => ?_⟩
      have hof : u.isKeyword "OF" = true := hcolumns.2
      rcases hu with hon | hor | ⟨-, hcomma⟩
      · rw [Token.not_isKeyword_of_ne hon (by decide)] at hof
        cases hof
      · rw [Token.not_isKeyword_of_ne hor (by decide)] at hof
        cases hof
      · rw [Token.isKeyword_of_isSymbol hcomma] at hof
        cases hof
  | @columns t of ts ht hof hts =>
      refine ⟨t, of :: ts, rfl, ht, fun u vs hu => ?_⟩
      have hstop : u.isKeyword "ON" = true ∨ u.isKeyword "OR" = true := by
        rcases hu with hon | hor | ⟨hnone, -⟩
        · exact .inl hon
        · exact .inr hor
        · cases hnone
      have hpast : pastColumns .update (of :: ts ++ u :: vs) = (ts ++ u :: vs).dropWhile
          (fun t => !t.isKeyword "ON" && !t.isKeyword "OR") := if_pos ⟨rfl, hof⟩
      rw [hpast, List.dropWhile_append_of_pos, List.dropWhile_cons_of_neg]
      · rcases hstop with hon | hor
        · simp [hon]
        · simp [hor]
      · intro v hv
        simp [hts v hv]

theorem not_atSeparator {on : Token} (hon : on.isKeyword "ON" = true) (us : List Token) :
    atSeparator (on :: us) = false := by
  have hname := Token.isName_of_isWord (Token.isWord_of_isKeyword hon)
  have hcomma : atSymbol "," (on :: us) = false := Token.isSymbol_of_isName hname ","
  rw [atSeparator, atKeyword_cons_of_ne hon (by decide), hcomma, Bool.or_self]

theorem atSeparator_of_separates {columns : Option (List Token)} (ht : Separates columns t)
    (us : List Token) : atSeparator (t :: us) = true :=
  Bool.or_eq_true_iff.2 (ht.imp id And.right)

/-- What is written as events before `ON` is read as these events. -/
theorem IsEvents.iterate_eq {es : List (Event × Option (List Token))} (h : IsEvents es ts)
    {on : Token} (hon : on.isKeyword "ON" = true) (us : List Token) (found : List Event) :
    ∃ more, iterate eventStep (found, true) d (ts ++ on :: us) =
      .ok (some (found ++ es.map Prod.fst, more), on :: us) := by
  -- A separator takes the reading to what follows it.
  have hgoesOn {e : Event} {columns : Option (List Token)} {ws : List Token} {u : Token}
      (hevent : IsEvent e columns ws) (hu : Separates columns u) (vs : List Token)
      (found : List Event) : iterate eventStep (found, true) d (ws ++ u :: vs) =
        iterate eventStep (found ++ [e], true) d vs := by
    obtain ⟨t, ts, rfl, ht, hpast⟩ := hevent.exists_pastColumns
    have hstep := eventStep_eq ht found d (ts ++ u :: vs)
    rw [hpast u vs (.inr hu), atSeparator_of_separates hu, if_pos rfl, List.tail_cons] at hstep
    refine iterate_of_step hstep ?_
    simp only [List.length_cons, List.length_append]
    omega
  induction h generalizing found with
  | @last e columns ts hevent =>
      obtain ⟨t, ts, rfl, ht, hpast⟩ := hevent.exists_pastColumns
      have hstep := eventStep_eq ht found d (ts ++ on :: us)
      rw [hpast on us (.inl hon), not_atSeparator hon, if_neg Bool.false_ne_true] at hstep
      refine ⟨false, (iterate_of_step hstep ?_).trans (iterate_eventStep_done _ _)⟩
      simp only [List.length_cons, List.length_append]
      omega
  | @trailing e columns ts t hevent ht =>
      refine ⟨true, ?_⟩
      rw [List.append_assoc, List.singleton_append, hgoesOn hevent ht]
      refine iterate_of_stop (eventStep_stop (fun e => ?_) _)
      cases e <;> exact atKeyword_cons_of_ne hon (by decide) us
  | @cons e columns ts vs t es hevent ht hes ih =>
      obtain ⟨more, hmore⟩ := ih (found ++ [e])
      refine ⟨more, ?_⟩
      rw [List.append_assoc, List.cons_append, hgoesOn hevent ht, hmore, List.append_assoc]
      rfl

theorem IsEvents.exists_cons {es : List (Event × Option (List Token))} (h : IsEvents es ts) :
    es.map Prod.fst ≠ [] ∧ ∃ (e : Event) (t : Token) (us : List Token),
      ts = t :: us ∧ t.isKeyword e.text = true := by
  cases h with
  | @last e _ _ hevent =>
      obtain ⟨t, us, rfl, ht, -⟩ := hevent.exists_pastColumns
      exact ⟨List.cons_ne_nil _ _, e, t, us, rfl, ht⟩
  | @trailing e _ _ _ hevent _ =>
      obtain ⟨t, us, rfl, ht, -⟩ := hevent.exists_pastColumns
      exact ⟨List.cons_ne_nil _ _, e, t, _, rfl, ht⟩
  | @cons e _ _ _ _ _ hevent _ _ =>
      obtain ⟨t, us, rfl, ht, -⟩ := hevent.exists_pastColumns
      exact ⟨List.cons_ne_nil _ _, e, t, _, rfl, ht⟩

/-- Neither the order of the events nor their number counts. -/
theorem sortEvents_eq_iff {es fs : List Event} :
    sortEvents es = sortEvents fs ↔ ∀ e, e ∈ es ↔ e ∈ fs := by
  have hmem (es : List Event) (e : Event) : e ∈ sortEvents es ↔ e ∈ es := by
    have hall : e ∈ [Event.insert, .update, .delete, .truncate] := by cases e <;> decide
    rw [sortEvents, List.mem_filter, and_iff_right hall, List.contains_iff_mem]
  constructor
  · intro h e
    rw [← hmem es, h, hmem]
  · intro h
    refine List.filter_congr fun e _ => ?_
    rw [Bool.eq_iff_iff, List.contains_iff_mem, List.contains_iff_mem, h]

end Grammar

namespace TriggerText

variable {d : Dialect} {x : TriggerText} {ts us rest : List Token}

def trigger (d : Dialect) (x : TriggerText) : Trigger :=
  ⟨x.name, x.table, x.timing, sortEvents (x.events.map Prod.fst),
    canonicalSql d (Token.span x.rest)⟩

end TriggerText

namespace Grammar

variable {d : Dialect} {x : TriggerText} {t : Token} {ts us rest : List Token}

def triggerBody : Reader Trigger := do
  let name ← qualifiedName
  let timing ← timing
  let (events, _) ← iterate eventStep ([], true)
  if events.isEmpty then fail
  if !(← keyword "ON") then fail
  let table ← qualifiedName
  return ⟨name, table, timing, sortEvents events, ← canonical (← Reader.rest)⟩

theorem trigger_eq : trigger = (keywords ["IF", "NOT", "EXISTS"] >>= fun _ => triggerBody) := rfl

theorem keyword_of_isKeyword {k : String} (ht : t.isKeyword k = true) (ts : List Token) :
    keyword k d (t :: ts) = .ok (some true, ts) := by
  have hat : atKeywords [k] (t :: ts) = true := (atKeywords_single k (t :: ts)).trans ht
  exact keywords_of_atKeywords hat

theorem exists_of_keyword {k : String} (h : keyword k d ts = .ok (some true, rest)) :
    ∃ t, ts = t :: rest ∧ t.isKeyword k = true := by
  rw [keyword, keywords] at h
  split at h
  · next hat =>
      cases ts with
      | nil => cases hat
      | cons t ts =>
          cases h
          exact ⟨t, rfl, (Bool.and_eq_true_iff.1 hat).1⟩
  · cases h

theorem exists_of_oneOf {ks : List String} {k : String}
    (h : oneOf ks d ts = .ok (some (some k), rest)) :
    ∃ t, ts = t :: rest ∧ t.isKeyword k = true := by
  cases ts with
  | nil => cases h
  | cons t ts =>
      rw [oneOf] at h
      split at h
      · next found hfound =>
          cases h
          exact ⟨t, rfl, List.find?_some hfound⟩
      · cases h

theorem triggerBody_of_writtenIn (h : x.WrittenIn d ts) :
    triggerBody d ts = .ok (some (x.trigger d), []) := by
  cases h with
  | @mk when what us on hname htiming hevents hon htable =>
      obtain ⟨hne, e, t, vs, rfl, ht⟩ := hevents.exists_cons
      have hnonempty : (x.events.map Prod.fst).isEmpty = false := List.isEmpty_eq_false_iff.2 hne
      obtain ⟨more, hiterate⟩ := hevents.iterate_eq (d := d) hon us []
      rw [List.cons_append] at hname hiterate
      unfold triggerBody
      rw [bind_of_eq hname, bind_of_eq (htiming.timing_eq ht _), bind_of_eq hiterate]
      simp only [List.nil_append, hnonempty, Bool.false_eq_true, if_false]
      rw [bind_of_eq (keyword_of_isKeyword hon us)]
      simp only [Bool.not_true, Bool.false_eq_true, if_false]
      rw [bind_of_eq htable]
      rfl

theorem exists_writtenIn_of_triggerBody {a : Trigger}
    (h : triggerBody d ts = .ok (some a, rest)) : ∃ x : TriggerText, x.WrittenIn d ts := by
  obtain ⟨name, ts₁, hname, h⟩ := bind_eq_some.1 h
  obtain ⟨when, ts₂, hwhen, h⟩ := bind_eq_some.1 h
  obtain ⟨⟨events, more⟩, ts₃, hevents, h⟩ := bind_eq_some.1 h
  dsimp only at h
  split at h
  · obtain ⟨_, _, hfail, -⟩ := bind_eq_some.1 h
    cases hfail
  · next hnonempty =>
      obtain ⟨on, ts₄, hon, h⟩ := bind_eq_some.1 h
      split at h
      · obtain ⟨_, _, hfail, -⟩ := bind_eq_some.1 h
        cases hfail
      · next hfound =>
          obtain ⟨table, ts₅, htable, -⟩ := bind_eq_some.1 h
          obtain ⟨ws, rfl, hws⟩ := exists_isTiming hwhen
          rcases exists_isEvents hevents with ⟨rfl, -⟩ | ⟨es, vs, rfl, hes, -⟩
          · exact absurd rfl hnonempty
          · rw [Bool.not_eq_true, Bool.not_eq_false'] at hfound
            obtain ⟨t, rfl, ht⟩ := exists_of_keyword (hfound ▸ hon)
            exact ⟨⟨name, when, es, table, ts₅⟩, hname, hws, hes, ht, htable⟩

def triggerHeading (clauses : Clauses) : Reader Unit := do
  skip
  let _ ← keywords ["OR", "REPLACE"]
  dialectOptions clauses ()
  let _ ← iterate createStep ⟨false, .default, false⟩
  if !(← keyword "TRIGGER") then fail
  let _ ← keywords ["IF", "NOT", "EXISTS"]

/-- What `create` passes over before a trigger is its heading. -/
theorem exists_trigger_of_create {a : Trigger}
    (h : (skip >>= fun _ => create (Clauses.ofDialect d)) d ts = .ok (some (.trigger a), rest)) :
    ∃ us vs, triggerHeading (Clauses.ofDialect d) d ts = .ok (some (), us) ∧
      triggerBody d us = .ok (some a, vs) := by
  obtain ⟨_, ts₁, hskip, h⟩ := bind_eq_some.1 h
  obtain ⟨_, ts₂, hreplace, h⟩ := bind_eq_some.1 h
  obtain ⟨_, ts₃, hoptions, h⟩ := bind_eq_some.1 h
  obtain ⟨form, ts₄, hform, h⟩ := bind_eq_some.1 h
  cases form with
  | some o =>
      obtain ⟨rfl, -⟩ := pure_eq_some.1 h
      rcases Clauses.yields_createForm d _ _ _ _ (attempt_eq_some.1 hform) with hkind | hkind
      · cases hkind
      · cases hkind
  | none =>
      rw [eq_of_attempt_eq_none hform] at h
      obtain ⟨o, ts₅, ho, h⟩ := bind_eq_some.1 h
      obtain ⟨kind, ts₆, hkind, h⟩ := bind_eq_some.1 h
      have hother {α : Type} {p : Reader α} {f : α → Object}
          (h : (p >>= fun a => pure (f a)) d ts₆ = .ok (some (.trigger a), rest))
          (hf : ∀ b, f b ≠ .trigger a) : False := by
        obtain ⟨b, _, -, h⟩ := bind_eq_some.1 h
        exact hf b (pure_eq_some.1 h).1
      split at h
      case h_4 =>
        obtain ⟨b, ts₇, hbody, h⟩ := bind_eq_some.1 h
        obtain ⟨hb, -⟩ := pure_eq_some.1 h
        rw [trigger_eq] at hbody
        obtain ⟨found, us, hguard, hbody⟩ := bind_eq_some.1 hbody
        refine ⟨us, ts₇, ?_, Object.trigger.inj hb ▸ hbody⟩
        obtain ⟨t, rfl, ht⟩ := exists_of_oneOf hkind
        have hword := keyword_of_isKeyword (d := d) ht ts₆
        unfold triggerHeading
        rw [bind_of_eq hskip, bind_of_eq hreplace, bind_of_eq hoptions, bind_of_eq ho,
          bind_of_eq hword]
        simp only [Bool.not_true, Bool.false_eq_true, if_false]
        rw [bind_of_eq hguard]
        rfl
      case h_8 => cases h
      all_goals
        refine (hother h fun b hb => ?_).elim
        cases hb

end Grammar

def TriggerText.Of (d : Dialect) (s : String) (x : TriggerText) : Prop :=
  ∃ ts, triggerHeading (Clauses.ofDialect d) d (Token.lex d s.toList) = .ok (some (), ts) ∧
    x.WrittenIn d ts

section

variable {d : Dialect} {s t : String} {a b : Trigger}

theorem Object.exists_trigger (h : Object.ofStatement? d s = .ok (some (.trigger a))) :
    ∃ us vs, triggerHeading (Clauses.ofDialect d) d (Token.lex d s.toList) = .ok (some (), us) ∧
      triggerBody d us = .ok (some a, vs) := by
  obtain ⟨found, hfound, h⟩ := Outcome.bind_eq_ok.1 h
  cases found with
  | none => cases h
  | some found =>
      cases found with
      | change => cases h
      | object o =>
          cases h
          obtain ⟨rest, hread⟩ := Definition.exists_create hfound fun raw h => by cases h
          exact exists_trigger_of_create hread

theorem TriggerText.exists_of (h : Object.ofStatement? d s = .ok (some (.trigger a))) :
    ∃ x, Of d s x := by
  obtain ⟨us, vs, hheading, hbody⟩ := Object.exists_trigger h
  obtain ⟨x, hx⟩ := exists_writtenIn_of_triggerBody hbody
  exact ⟨x, us, hheading, hx⟩

/-- A statement defines what it says. -/
theorem TriggerText.Of.trigger_eq {x : TriggerText} (hx : Of d s x)
    (h : Object.ofStatement? d s = .ok (some (.trigger a))) : x.trigger d = a := by
  obtain ⟨us, vs, hheading, hbody⟩ := Object.exists_trigger h
  obtain ⟨us', hheading', hx⟩ := hx
  rw [hheading] at hheading'
  cases hheading'
  rw [triggerBody_of_writtenIn hx] at hbody
  cases hbody
  rfl

/-- Two triggers of one name compare as equal just where their statements agree on the timing, on
the set of events, on the table and on the canonical text behind it. The columns of `UPDATE OF` are
read but not kept. -/
theorem trigger_details_eq_nil_iff (hs : Object.ofStatement? d s = .ok (some (.trigger a)))
    (ht : Object.ofStatement? d t = .ok (some (.trigger b))) (hname : a.name = b.name)
    (detectRenames : Bool) :
    (∃ x, TriggerText.Of d s x) ∧ (∃ y, TriggerText.Of d t y) ∧
      ∀ x y, TriggerText.Of d s x → TriggerText.Of d t y →
        (Details.object detectRenames (.trigger a) (.trigger b) = [] ↔
          x.timing = y.timing ∧
          (∀ e, e ∈ x.events.map Prod.fst ↔ e ∈ y.events.map Prod.fst) ∧
          x.table = y.table ∧
          canonicalSql d (Token.span x.rest) = canonicalSql d (Token.span y.rest)) := by
  refine ⟨TriggerText.exists_of hs, TriggerText.exists_of ht, fun x y hx hy => ?_⟩
  obtain rfl := hx.trigger_eq hs
  obtain rfl := hy.trigger_eq ht
  change Details.trigger (x.trigger d) (y.trigger d) = [] ↔ _
  rw [Details.trigger_eq_nil_iff hname, ← sortEvents_eq_iff]
  have hname : x.name = y.name := hname
  simp only [TriggerText.trigger, Trigger.mk.injEq, hname, true_and]
  tauto

end

def auditSql (column : String) : String :=
  s!"CREATE TRIGGER audit AFTER UPDATE OF {column} ON users EXECUTE FUNCTION f()"

def auditAnew : String :=
  "create or replace trigger audit after insert or update on public.users execute function f()"

def auditTrigger (events : List Event) : Trigger :=
  ⟨⟨none, "audit"⟩, ⟨none, "users"⟩, .after, events, "execute function f()"⟩

theorem trigger_details_eq_nil_iff_auditAnew :
    Object.ofStatement? .postgres (auditSql "email OR INSERT") =
        .ok (some (.trigger (auditTrigger [.insert, .update]))) ∧
      Object.ofStatement? .postgres auditAnew =
        .ok (some (.trigger (auditTrigger [.insert, .update]))) ∧
      ∃ x y, TriggerText.Of .postgres (auditSql "email OR INSERT") x ∧
        TriggerText.Of .postgres auditAnew y ∧ x.timing = y.timing ∧
        (∀ e, e ∈ x.events.map Prod.fst ↔ e ∈ y.events.map Prod.fst) ∧ x.table = y.table ∧
        canonicalSql .postgres (Token.span x.rest) =
          canonicalSql .postgres (Token.span y.rest) := by
  have hs : Object.ofStatement? .postgres (auditSql "email OR INSERT") =
      .ok (some (.trigger (auditTrigger [.insert, .update]))) := by decide +kernel
  have ht : Object.ofStatement? .postgres auditAnew =
      .ok (some (.trigger (auditTrigger [.insert, .update]))) := by decide +kernel
  obtain ⟨⟨x, hx⟩, ⟨y, hy⟩, hiff⟩ := trigger_details_eq_nil_iff hs ht rfl true
  exact ⟨hs, ht, x, y, hx, hy, (hiff x y hx hy).1 (by decide)⟩

def auditText (column : String) : TriggerText where
  name := ⟨none, "audit"⟩
  timing := .after
  events := [(.update, some [⟨.word, [' '], column.toList⟩])]
  table := ⟨none, "users"⟩
  rest := Token.lex .postgres " EXECUTE FUNCTION f()".toList

theorem auditText_of {column : String} (hcolumn : column ∈ ["email", "name"]) :
    TriggerText.Of .postgres (auditSql column) (auditText column) := by
  have hheading : ∀ column ∈ ["email", "name"],
      triggerHeading (Clauses.ofDialect .postgres) .postgres
        (Token.lex .postgres (auditSql column).toList) =
          .ok (some (), (Token.lex .postgres (auditSql column).toList).drop 2) := by
    decide +kernel
  have hname : ∀ column ∈ ["email", "name"],
      qualifiedName .postgres ((Token.lex .postgres (auditSql column).toList).drop 2) =
        .ok (some ⟨none, "audit"⟩, Token.lex .postgres " AFTER".toList ++
          ((Token.lex .postgres " UPDATE OF".toList ++ [⟨.word, [' '], column.toList⟩]) ++
            ⟨.word, [' '], "ON".toList⟩ ::
              Token.lex .postgres " users EXECUTE FUNCTION f()".toList)) := by
    decide +kernel
  have htiming : IsTiming .after (Token.lex .postgres " AFTER".toList) :=
    ⟨["AFTER"], by decide, by decide +kernel, by decide +kernel⟩
  have hevents : IsEvent .update (some [⟨.word, [' '], column.toList⟩])
      (Token.lex .postgres " UPDATE OF".toList ++ [⟨.word, [' '], column.toList⟩]) := by
    have hwords : Token.lex .postgres " UPDATE OF".toList =
        [⟨.word, [' '], "UPDATE".toList⟩, ⟨.word, [' '], "OF".toList⟩] := by
      decide +kernel
    have hplain : ∀ column ∈ ["email", "name"],
        (⟨.word, [' '], column.toList⟩ : Token).isKeyword "ON" = false ∧
          (⟨.word, [' '], column.toList⟩ : Token).isKeyword "OR" = false := by
      decide
    rw [hwords]
    refine .columns (by decide) (by decide) fun u hu => ?_
    rw [List.mem_singleton.1 hu]
    exact hplain column hcolumn
  have htable : qualifiedName .postgres
      (Token.lex .postgres " users EXECUTE FUNCTION f()".toList) =
        .ok (some ⟨none, "users"⟩, Token.lex .postgres " EXECUTE FUNCTION f()".toList) := by
    decide +kernel
  exact ⟨_, hheading column hcolumn, .mk (hname column hcolumn) htiming (.last hevents)
    (by decide) htable⟩

/-- Two triggers on the update of different columns compare as equal. -/
theorem update_columns_lost : ∃ a b x y,
    Object.ofStatement? .postgres (auditSql "email") = .ok (some (.trigger a)) ∧
    Object.ofStatement? .postgres (auditSql "name") = .ok (some (.trigger b)) ∧
    a.name = b.name ∧ TriggerText.Of .postgres (auditSql "email") x ∧
    TriggerText.Of .postgres (auditSql "name") y ∧
    Details.object true (.trigger a) (.trigger b) = [] ∧
    x.events = [(.update, some [⟨.word, [' '], "email".toList⟩])] ∧
    y.events = [(.update, some [⟨.word, [' '], "name".toList⟩])] := by
  have hread : ∀ column ∈ ["email", "name"], Object.ofStatement? .postgres (auditSql column) =
      .ok (some (.trigger (auditTrigger [.update]))) := by
    decide +kernel
  exact ⟨_, _, auditText "email", auditText "name", hread _ (by decide), hread _ (by decide), rfl,
    auditText_of (by decide), auditText_of (by decide), by decide, rfl, rfl⟩

end SchemaDrift
