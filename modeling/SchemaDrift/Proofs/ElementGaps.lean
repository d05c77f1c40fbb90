import SchemaDrift.Proofs.AddedConstraints

namespace SchemaDrift

open Reader

namespace Reader

variable {α β : Type} {p q : Reader α}

/-- What is found is the same whatever is skipped before the first token, and so is what is left,
but for that token where nothing is taken. -/
def IgnoresGap (p : Reader α) : Prop :=
  ∀ d gap ts, p d (Token.regap gap ts) = p d ts ∨ ∃ found,
    p d ts = .ok (found, ts) ∧ p d (Token.regap gap ts) = .ok (found, Token.regap gap ts)

theorem Begins.ignoresGap (h : Begins p) : IgnoresGap p :=
  fun d gap ts => (h d gap ts).imp_right fun hnone => ⟨none, hnone⟩

namespace IgnoresGap

theorem pure (a : α) : IgnoresGap (Pure.pure a : Reader α) :=
  fun _ _ _ => .inr ⟨some a, rfl, rfl⟩

theorem fail : IgnoresGap (Reader.fail : Reader α) := Begins.fail.ignoresGap

theorem peek {f : List Token → α} (hf : ∀ gap ts, f (Token.regap gap ts) = f ts) :
    IgnoresGap (Reader.peek f) := by
  intro d gap ts
  refine .inr ⟨some (f ts), rfl, ?_⟩
  rw [Reader.peek, hf]

theorem ite {c : Prop} [Decidable c] (hp : IgnoresGap p) (hq : IgnoresGap q) :
    IgnoresGap (if c then p else q) := by
  split
  · exact hp
  · exact hq

theorem bind {f : α → Reader β} (hp : IgnoresGap p) (hf : ∀ a, IgnoresGap (f a)) :
    IgnoresGap (p >>= f) := by
  intro d gap ts
  change Reader.bind p f d _ = Reader.bind p f d _ ∨
    ∃ found, Reader.bind p f d _ = _ ∧ Reader.bind p f d _ = _
  unfold Reader.bind
  rcases hp d gap ts with hsame | ⟨found, hfound, hfound'⟩
  · exact .inl (by rw [hsame])
  · rw [hfound, hfound']
    cases found with
    | none => exact .inr ⟨none, rfl, rfl⟩
    | some a => exact hf a d gap ts

/-- What follows the keywords does not matter. -/
theorem keywords (k : String) (ks : List String) {f : Bool → Reader α} (hf : IgnoresGap (f false)) :
    IgnoresGap (Reader.keywords (k :: ks) >>= f) := by
  intro d gap ts
  rcases keywords_regap k ks f d gap ts with hsame | ⟨hfalse, hfalse'⟩
  · exact .inl hsame
  · rw [hfalse, hfalse']
    exact hf d gap ts

theorem within_regap (h : IgnoresGap p) (gap : List Char) (ts : List Token) :
    within (Token.regap gap ts) p = within ts p := by
  funext d us
  unfold within
  rcases h d gap ts with hsame | ⟨found, hfound, hfound'⟩
  · rw [hsame]
  · rw [hfound, hfound']

end IgnoresGap

theorem begins_identifier : Begins identifier := by
  intro d gap ts
  cases ts with
  | nil => exact .inl rfl
  | cons t ts =>
      rw [Token.regap, identifier, identifier]
      by_cases ht : t.isName = true
      · exact .inl ((if_pos ht).trans (if_pos ht).symm)
      · exact .inr ⟨if_neg ht, if_neg ht⟩

theorem rest_regap (d : Dialect) (gap : List Char) (ts : List Token) :
    rest d (Token.regap gap ts) = .ok (some (Token.span ts), []) := by
  rw [rest, Token.span_regap]

theorem withSource_regap {d : Dialect} {gap : List Char} {ts : List Token}
    (h : p d (Token.regap gap ts) = p d ts) :
    withSource p d (Token.regap gap ts) = withSource p d ts := by
  have hlength : (Token.regap gap ts).length = ts.length := by
    cases ts <;> rfl
  simp only [withSource, h, Token.take_regap, Token.span_regap, hlength]

end Reader

namespace Grammar

theorem typeName_regap (d : Dialect) (gap : List Char) (ts : List Token) :
    typeName d (Token.regap gap ts) = typeName d ts := by
  have hwords : typeWords d (Token.regap gap ts) = typeWords d ts := by
    cases ts <;> rfl
  change Reader.bind _ _ d _ = Reader.bind _ _ d _
  unfold Reader.bind
  rw [withSource_regap hwords]

theorem startsTypeless_regap (gap : List Char) (ts : List Token) :
    startsTypeless (Token.regap gap ts) = startsTypeless ts := by
  cases ts <;> rfl

theorem IsWholeDefault.regap {ts : List Token} (h : IsWholeDefault ts) (gap : List Char) :
    IsWholeDefault (Token.regap gap ts) where
  taken := by
    have htaken := dropUntil_map_folded columnClauseWords (Token.regap gap ts)
    rw [Token.map_folded_regap, dropUntil_map_folded, h.taken] at htaken
    exact List.map_eq_nil_iff.1 htaken.symm
  typed := by
    intro t ht
    have hlast := congrArg List.getLast? (Token.map_ungapped_regap gap ts)
    rw [List.getLast?_map, List.getLast?_map, ht] at hlast
    obtain ⟨u, hu, hut⟩ := Option.map_eq_some_iff.1 hlast.symm
    rw [← Token.isSymbol_ungapped, ← hut, Token.isSymbol_ungapped, h.typed u hu]

theorem atKeyword_regap (k : String) (gap : List Char) (ts : List Token) :
    atKeyword k (Token.regap gap ts) = atKeyword k ts := by
  cases ts <;> rfl

namespace MySql

theorem keyKind_regap (gap : List Char) (ts : List Token) :
    keyKind (Token.regap gap ts) = keyKind ts := by
  cases ts <;> rfl

/-- A key begins with a word of its own. -/
theorem exists_of_keyKind {ts : List Token} (h : keyKind ts = some .default) :
    ∃ t us, ts = t :: us ∧ ∃ k ∈ ["KEY", "INDEX"], t.isKeyword k = true := by
  have hword := (Bool.and_eq_true_iff.1 (startsKey_of_keyKind h)).1
  cases ts with
  | nil => cases hword
  | cons t us =>
      refine ⟨t, us, rfl, ?_⟩
      rcases Bool.or_eq_true_iff.1 hword with ht | ht
      · exact ⟨"KEY", by decide, ht⟩
      · exact ⟨"INDEX", by decide, ht⟩

theorem ignoresGap_tableElement (t : Table) : IgnoresGap (tableElement t) := by
  intro d gap ts
  unfold tableElement
  rw [bind_of_eq (p := peek keyKind) rfl, bind_of_eq (p := peek keyKind) rfl, keyKind_regap]
  cases hkind : keyKind ts with
  | none => exact .inr ⟨some none, rfl, rfl⟩
  | some kind =>
      left
      dsimp only
      by_cases hdefault : kind = .default
      · subst hdefault
        obtain ⟨u, us, rfl, k, hk, hu⟩ := exists_of_keyKind hkind
        obtain ⟨found, hfind⟩ := exists_find?_isKeyword hk hu
        have hregap : oneOf ["KEY", "INDEX"] d (Token.regap gap (u :: us)) =
            .ok (some (some found), us) :=
          oneOf_of_find? (t := { u with gap := gap ++ u.gap }) hfind us
        rw [if_neg (not_not_intro rfl), bind_of_eq hregap, bind_of_eq (oneOf_of_find? hfind us)]
      · have hskip : skip d (Token.regap gap ts) = .ok (some (), ts.tail) := by
          cases ts <;> rfl
        rw [if_pos hdefault, bind_of_eq hskip, bind_of_eq (p := skip) rfl]

end MySql

theorem ignoresGap_tableElement (d : Dialect) (t : Table) :
    IgnoresGap (tableElement (Clauses.ofDialect d) t) := by
  have hclause : IgnoresGap ((Clauses.ofDialect d).tableElement t) := by
    cases d with
    | postgres | sqlite | db2 => exact .pure none
    | mySql => exact MySql.ignoresGap_tableElement t
  refine .bind (.peek fun gap ts => by cases ts <;> rfl) fun _ => .ite (.pure t) ?_
  refine .bind (.peek (atKeyword_regap "LIKE")) fun _ => .ite .fail (.bind hclause fun found => ?_)
  cases found with
  | some u => exact .pure u
  | none =>
      refine .keywords "PERIOD" _ ?_
      refine .bind (.peek startsConstraint_regap) fun _ => .ite ?_ ?_
      · refine .bind (.peek (atKeyword_regap "EXCLUDE")) fun _ => .ite ?_ ?_
        · exact fun d gap ts => .inl (bind_of_eq (rest_regap d gap ts))
        · exact (begins_tableConstraint.bind _).ignoresGap
      · exact (begins_identifier.bind _).bind _ |>.ignoresGap

theorem tableElements_map_regap (d : Dialect) (gap : List Char) (t : Table)
    (parts : List (List Token)) : tableElements (Clauses.ofDialect d) t
      (parts.map (Token.regap gap)) = tableElements (Clauses.ofDialect d) t parts := by
  induction parts generalizing t with
  | nil => rfl
  | cons part parts ih =>
      rw [List.map_cons, tableElements, tableElements,
        (ignoresGap_tableElement d t).within_regap gap part]
      exact congrArg _ (funext ih)

/-- The elements of a table, each read as if it stood alone. -/
theorem tableElements_elementTokens (d d' : Dialect) (t : Table) (ss : List (List Char)) :
    tableElements (Clauses.ofDialect d) t (Token.elementTokens d' ss) =
      tableElements (Clauses.ofDialect d) t (ss.map (Token.lex d')) := by
  cases ss with
  | nil => rfl
  | cons s ss =>
      have hothers : ss.map (fun s => Token.regap [' '] (Token.lex d' s)) =
          (ss.map (Token.lex d')).map (Token.regap [' ']) := by
        rw [List.map_map]
        rfl
      rw [Token.elementTokens, hothers, List.map_cons, tableElements, tableElements]
      exact congrArg _ (funext fun u => tableElements_map_regap d [' '] u _)

end Grammar

end SchemaDrift
