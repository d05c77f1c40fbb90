import SchemaDrift.Proofs.ByteCursor

namespace SchemaDrift

namespace Bytes

open Text

def Extent.isName (e : Extent) : Bool := e.kind == .word || e.kind == .quoted

def readAll? (text : List Char) : List Extent → Option (List Token)
  | [] => some []
  | e :: es => (e.read? text).bind fun t => (readAll? text es).map (t :: ·)

def render? (text : List Char) (es : List Extent) : Option (List Char) :=
  (readAll? text es).map Token.render

def canonical? (d : Dialect) (text : List Char) : Option (List Char) :=
  (lex? d text).bind (render? text)

/-- `Token.groupFrom`, with a count of the open parentheses that must not go below zero. -/
def groupFrom? (text : List Char) : Nat → List Extent → Option (List Extent × List Extent)
  | _, [] => some ([], [])
  | depth, e :: es =>
      (e.read? text).bind fun t =>
        if t.isSymbol ")" then
          if depth = 0 then none
          else if depth - 1 = 0 then some ([], es)
          else (groupFrom? text (depth - 1) es).map fun group => (e :: group.1, group.2)
        else
          (groupFrom? text (if t.isSymbol "(" then depth + 1 else depth) es).map fun group =>
            (e :: group.1, group.2)

def dropBrackets? (text : List Char) : List Extent → Option (List Extent)
  | e :: f :: es =>
      (e.read? text).bind fun t => (f.read? text).bind fun u =>
        if t.text == ['['] && u.text == [']'] then dropBrackets? text es else some (e :: f :: es)
  | es => some es

def dropCastWords? (text : List Char) : List Extent → Option (List Extent)
  | [] => some []
  | e :: es =>
      (e.read? text).bind fun t =>
        if t.isCastWord then dropCastWords? text es else some (e :: es)

def dropGroup? (text : List Char) : List Extent → Option (List Extent)
  | [] => some []
  | e :: es =>
      (e.read? text).bind fun t =>
        if t.isSymbol "(" then (groupFrom? text 1 es).map Prod.snd else some (e :: es)

def dropCastType? (text : List Char) : List Extent → Option (List Extent)
  | [] => some []
  | e :: es =>
      if e.isName then
        (dropCastWords? text es).bind fun rest =>
          (dropGroup? text rest).bind (dropBrackets? text)
      else some (e :: es)

def dropCasts? (text : List Char) (es : List Extent) : Option (List Extent) :=
  match es with
  | [] => some []
  | e :: es =>
      (e.read? text).bind fun t =>
        if t.isSymbol "::" then
          match dropCastType? text es with
          | none => none
          | some rest =>
              if rest.length < es.length + 1 then dropCasts? text rest else none
        else (dropCasts? text es).map (e :: ·)
termination_by es.length

def unwrapOperandsOnce? (text : List Char) (before : Option Extent) (es : List Extent) :
    Option (List Extent) :=
  match es with
  | a :: b :: c :: rest =>
      (a.read? text).bind fun t => (c.read? text).bind fun u =>
        if t.isSymbol "(" && b.kind != .symbol && u.isSymbol ")" &&
            !((before.map Extent.isName).getD false) then
          unwrapOperandsOnce? text before (b :: rest)
        else (unwrapOperandsOnce? text (some a) (b :: c :: rest)).map (a :: ·)
  | es => some es
termination_by es.length

def unwrapOperands? (text : List Char) (es : List Extent) : Option (List Extent) :=
  match unwrapOperandsOnce? text none es with
  | none => none
  | some us => if us.length < es.length then unwrapOperands? text us else some es
termination_by es.length

def unwrap? (text : List Char) : List Extent → Option (Option (List Extent))
  | [] => some none
  | e :: es =>
      (e.read? text).bind fun t =>
        if t.isSymbol "(" then
          (groupFrom? text 1 es).map fun group =>
            if group.1.length < es.length && group.2.isEmpty then some group.1 else none
        else some none

def unwrapAll? (text : List Char) (es : List Extent) : Option (List Extent) :=
  match unwrap? text es with
  | none => none
  | some none => some es
  | some (some us) => if us.length < es.length then unwrapAll? text us else none
termination_by es.length

def canonicalExpr? (d : Dialect) (text : List Char) : Option (List Char) :=
  (lex? d text).bind fun es => (dropCasts? text es).bind fun es =>
    (unwrapOperands? text es).bind fun es => (unwrapAll? text es).bind (render? text)

/-- The tokens `ts` are what the text says where `es` are. They need not follow one another. -/
abbrev Reading (text : List Char) (es : List Extent) (ts : List Token) : Prop :=
  List.Forall₂ (fun e t => Extent.read? text e = some t) es ts

variable {text : List Char} {e : Extent} {es : List Extent} {t : Token} {ts : List Token}

theorem kind_of_read? (h : e.read? text = some t) : e.kind = t.kind := by
  obtain ⟨run, -, rfl⟩ := Option.map_eq_some_iff.1 h
  rfl

theorem isName_of_read? (h : e.read? text = some t) : e.isName = t.isName := by
  rw [Extent.isName, Token.isName, kind_of_read? h]

theorem exists_reading (h : Along text es ts) : ∃ us, Reading text es us ∧
    us.map Token.folded = ts.map Token.folded := by
  induction ts generalizing es with
  | nil =>
      rw [List.length_eq_zero_iff.1 h.length_eq]
      exact ⟨[], .nil, rfl⟩
  | cons t ts ih =>
      obtain ⟨e, es, rfl, he, hes⟩ := h.exists_cons
      obtain ⟨us, hus, hfolded⟩ := ih hes
      exact ⟨_, .cons he.read?_eq hus, congrArg (List.cons t.folded) hfolded⟩

theorem render?_eq (h : Reading text es ts) : render? text es = some (Token.render ts) := by
  have hread : readAll? text es = some ts := by
    induction h with
    | nil => rfl
    | cons he _ ih =>
        rw [readAll?, he, Option.bind_some, ih]
        rfl
  rw [render?, hread, Option.map_some]

theorem exists_groupFrom? (h : Reading text es ts) {depth : Nat} (hdepth : 1 ≤ depth) :
    ∃ group, groupFrom? text depth es = some group ∧
      Reading text group.1 (Token.groupFrom depth ts).1 ∧
      Reading text group.2 (Token.groupFrom depth ts).2 := by
  induction h generalizing depth with
  | nil => exact ⟨_, rfl, .nil, .nil⟩
  | @cons e t es ts he hes ih =>
      rw [groupFrom?, he, Option.bind_some, Token.groupFrom]
      by_cases hcloses : t.isSymbol ")" = true
      · rw [if_pos hcloses, if_pos hcloses, if_neg (Nat.ne_of_gt hdepth)]
        by_cases hlast : depth ≤ 1
        · rw [if_pos hlast, if_pos (by omega)]
          exact ⟨_, rfl, .nil, hes⟩
        · rw [if_neg hlast, if_neg (by omega)]
          have hnext : 1 ≤ depth - 1 := by omega
          obtain ⟨group, hgroup, hinner, hrest⟩ := ih hnext
          rw [hgroup]
          exact ⟨_, rfl, .cons he hinner, hrest⟩
      · rw [if_neg hcloses, if_neg hcloses]
        have hnext : 1 ≤ if t.isSymbol "(" then depth + 1 else depth := by split <;> omega
        obtain ⟨group, hgroup, hinner, hrest⟩ := ih hnext
        rw [hgroup]
        exact ⟨_, rfl, .cons he hinner, hrest⟩

theorem exists_dropBrackets? (h : Reading text es ts) :
    ∃ rest, dropBrackets? text es = some rest ∧
      Reading text rest (Token.dropBrackets ts) := by
  fun_induction Token.dropBrackets ts generalizing es with
  | case1 t u ts hbrackets ih =>
      cases h with
      | cons he h =>
          cases h with
          | cons hf hes =>
              rw [dropBrackets?, he, hf, Option.bind_some, Option.bind_some, if_pos hbrackets]
              exact ih hes
  | case2 t u ts hbrackets =>
      have hall := h
      cases h with
      | cons he h =>
          cases h with
          | cons hf hes =>
              rw [dropBrackets?, he, hf, Option.bind_some, Option.bind_some, if_neg hbrackets]
              exact ⟨_, rfl, hall⟩
  | case3 ts hshort =>
      refine ⟨es, ?_, h⟩
      rw [dropBrackets?]
      rintro e f es rfl
      cases h with
      | cons he h =>
          cases h with
          | cons hf hes => exact hshort _ _ _ rfl

theorem exists_dropCastWords? (h : Reading text es ts) :
    ∃ rest, dropCastWords? text es = some rest ∧
      Reading text rest (ts.dropWhile Token.isCastWord) := by
  induction h with
  | nil => exact ⟨_, rfl, .nil⟩
  | @cons e t es ts he hes ih =>
      rw [dropCastWords?, he, Option.bind_some]
      by_cases hword : t.isCastWord = true
      · rw [if_pos hword, List.dropWhile_cons_of_pos hword]
        exact ih
      · rw [if_neg hword, List.dropWhile_cons_of_neg hword]
        exact ⟨_, rfl, .cons he hes⟩

theorem exists_dropGroup? (he : e.read? text = some t) (hes : Reading text es ts) :
    ∃ rest, dropGroup? text (e :: es) = some rest ∧
      Reading text rest (if t.isSymbol "(" then (Token.groupFrom 1 ts).2 else t :: ts) := by
  rw [dropGroup?, he, Option.bind_some]
  by_cases hopens : t.isSymbol "(" = true
  · obtain ⟨group, hgroup, -, hrest⟩ := exists_groupFrom? hes (Nat.le_refl 1)
    rw [if_pos hopens, if_pos hopens, hgroup]
    exact ⟨_, rfl, hrest⟩
  · rw [if_neg hopens, if_neg hopens]
    exact ⟨_, rfl, .cons he hes⟩

theorem exists_dropCastType? (h : Reading text es ts) :
    ∃ rest, dropCastType? text es = some rest ∧ Reading text rest (Token.dropCastType ts) := by
  cases h with
  | nil => exact ⟨_, rfl, .nil⟩
  | @cons e t es ts he hes =>
      rw [dropCastType?, isName_of_read? he, Token.dropCastType]
      by_cases hname : t.isName = true
      · obtain ⟨words, hwords, hrest⟩ := exists_dropCastWords? hes
        rw [if_pos hname, if_pos hname, hwords, Option.bind_some]
        dsimp only
        generalize ts.dropWhile Token.isCastWord = us at hrest
        cases hrest with
        | nil => exact ⟨_, rfl, .nil⟩
        | cons hf hfs =>
            obtain ⟨group, hgroup, hreading⟩ := exists_dropGroup? hf hfs
            rw [hgroup, Option.bind_some]
            exact exists_dropBrackets? hreading
      · rw [if_neg hname, if_neg hname]
        exact ⟨_, rfl, .cons he hes⟩

theorem exists_dropCasts? (h : Reading text es ts) :
    ∃ rest, dropCasts? text es = some rest ∧ Reading text rest (Token.dropCasts ts) := by
  fun_induction Token.dropCasts ts generalizing es with
  | case1 =>
      cases h
      exact ⟨[], by rw [dropCasts?], .nil⟩
  | case2 t ts hcast ih =>
      cases h with
      | cons he hes =>
          obtain ⟨rest, hrest, hreading⟩ := exists_dropCastType? hes
          have hlt := Nat.lt_succ_of_le (Token.dropCastType_length ts)
          rw [← hreading.length_eq, ← hes.length_eq] at hlt
          rw [dropCasts?, he, Option.bind_some, if_pos hcast, hrest]
          dsimp only
          rw [if_pos hlt]
          exact ih hreading
  | case3 t ts hcast ih =>
      cases h with
      | cons he hes =>
          obtain ⟨rest, hrest, hreading⟩ := ih hes
          rw [dropCasts?, he, Option.bind_some, if_neg hcast, hrest]
          exact ⟨_, rfl, .cons he hreading⟩

theorem exists_unwrapOperandsOnce? {before : Option Extent} {before' : Option Token}
    (hbefore : before.map Extent.isName = before'.map Token.isName) (h : Reading text es ts) :
    ∃ rest, unwrapOperandsOnce? text before es = some rest ∧
      Reading text rest (Token.unwrapOperandsOnce before' ts) := by
  fun_induction Token.unwrapOperandsOnce before' ts generalizing before es with
  | case1 before' a b c ts hunwraps ih =>
      cases h with
      | cons ha h =>
          cases h with
          | cons hb h =>
              cases h with
              | cons hc hes =>
                  rw [unwrapOperandsOnce?, ha, hc, Option.bind_some, Option.bind_some,
                    kind_of_read? hb, hbefore, if_pos hunwraps]
                  exact ih hbefore (.cons hb hes)
  | case2 before' a b c ts hunwraps ih =>
      cases h with
      | cons ha h =>
          have htail := h
          cases h with
          | cons hb h =>
              cases h with
              | cons hc hes =>
                  have hname : (some _).map Extent.isName = (some a).map Token.isName :=
                    congrArg some (isName_of_read? ha)
                  obtain ⟨rest, hrest, hreading⟩ := ih hname htail
                  rw [unwrapOperandsOnce?, ha, hc, Option.bind_some, Option.bind_some,
                    kind_of_read? hb, hbefore, if_neg hunwraps, hrest]
                  exact ⟨_, rfl, .cons ha hreading⟩
  | case3 before' ts hshort =>
      refine ⟨es, ?_, h⟩
      rw [unwrapOperandsOnce?]
      rintro a b c rest rfl
      cases h with
      | cons ha h =>
          cases h with
          | cons hb h =>
              cases h with
              | cons hc hes => exact hshort _ _ _ _ rfl

theorem exists_unwrapOperands? (h : Reading text es ts) :
    ∃ rest, unwrapOperands? text es = some rest ∧
      Reading text rest (Token.unwrapOperands ts) := by
  have hnone : (none : Option Extent).map Extent.isName = (none : Option Token).map Token.isName :=
    rfl
  fun_induction Token.unwrapOperands ts generalizing es with
  | case1 ts hless ih =>
      obtain ⟨us, hus, hreading⟩ := exists_unwrapOperandsOnce? hnone h
      rw [← hreading.length_eq, ← h.length_eq] at hless
      rw [unwrapOperands?, hus]
      dsimp only
      rw [if_pos hless]
      exact ih hreading
  | case2 ts hless =>
      obtain ⟨us, hus, hreading⟩ := exists_unwrapOperandsOnce? hnone h
      rw [← hreading.length_eq, ← h.length_eq] at hless
      rw [unwrapOperands?, hus]
      dsimp only
      rw [if_neg hless]
      exact ⟨es, rfl, h⟩

/-- What is unwrapped is the same in both. -/
theorem exists_unwrap? (h : Reading text es ts) :
    ∃ found, unwrap? text es = some found ∧
      Option.Rel (Reading text) found (Token.unwrap? ts) := by
  cases h with
  | nil => exact ⟨_, rfl, .none⟩
  | @cons e t es ts he hes =>
      obtain ⟨group, hgroup, hinner, hrest⟩ := exists_groupFrom? hes (Nat.le_refl 1)
      have hlen := hinner.length_eq
      have hlen' := hes.length_eq
      have hempty : group.2.isEmpty = (Token.groupFrom 1 ts).2.isEmpty := by
        rw [Bool.eq_iff_iff, List.isEmpty_iff_length_eq_zero, List.isEmpty_iff_length_eq_zero,
          hrest.length_eq]
      rw [unwrap?, he, Option.bind_some, Token.unwrap?, Bool.and_assoc]
      by_cases hopens : t.isSymbol "(" = true
      · rw [if_pos hopens, hgroup, hopens, Bool.true_and, Option.map_some, hlen, hlen', hempty]
        refine ⟨_, rfl, ?_⟩
        split
        · exact .some hinner
        · exact .none
      · rw [if_neg hopens, Bool.eq_false_iff.2 hopens, Bool.false_and]
        exact ⟨_, rfl, .none⟩

theorem exists_unwrapAll? (h : Reading text es ts) :
    ∃ rest, unwrapAll? text es = some rest ∧ Reading text rest (Token.unwrapAll ts) := by
  fun_induction Token.unwrapAll ts generalizing es with
  | case1 ts us hsome ih =>
      obtain ⟨found, hfound, hrel⟩ := exists_unwrap? h
      rw [hsome] at hrel
      cases hrel with
      | some hreading =>
          have hlt := Token.unwrap?_length hsome
          rw [← hreading.length_eq, ← h.length_eq] at hlt
          rw [unwrapAll?, hfound]
          dsimp only
          rw [if_pos hlt]
          exact ih hreading
  | case2 ts hnone =>
      obtain ⟨found, hfound, hrel⟩ := exists_unwrap? h
      rw [hnone] at hrel
      cases hrel
      rw [unwrapAll?, hfound]
      exact ⟨es, rfl, h⟩

theorem exists_lex? (d : Dialect) (text : List Char) :
    ∃ es ts, lex? d text = some es ∧ Reading text es ts ∧
      ts.map Token.folded = (Token.lex d text).map Token.folded := by
  obtain ⟨ts, hreading, hfolded⟩ := exists_reading (Along.of_lex? d (lex?_eq d text))
  exact ⟨_, ts, lex?_eq d text, hreading, hfolded⟩

theorem canonical?_eq (d : Dialect) (text : List Char) :
    canonical? d text = some (Token.canonical d text) := by
  obtain ⟨es, ts, hlex, hreading, hfolded⟩ := exists_lex? d text
  rw [canonical?, hlex, Option.bind_some, render?_eq hreading, ← Token.render_map_folded ts,
    hfolded, Token.render_map_folded, Token.canonical]

theorem render_unwrap_map_folded (ts : List Token) :
    Token.render (Token.unwrapAll (Token.unwrapOperands
        (Token.dropCasts (ts.map Token.folded)))) =
      Token.render (Token.unwrapAll (Token.unwrapOperands (Token.dropCasts ts))) := by
  rw [Token.dropCasts_map_folded, Token.unwrapOperands_map_folded, Token.unwrapAll_map_folded,
    Token.render_map_folded]

/-- No slice fails on the way to the canonical form of an expression, and no count goes below
zero. -/
theorem canonicalExpr?_eq (d : Dialect) (text : List Char) :
    canonicalExpr? d text = some (Token.canonicalExpr d text) := by
  obtain ⟨es, ts, hlex, hreading, hfolded⟩ := exists_lex? d text
  obtain ⟨kept, hkept, hreading⟩ := exists_dropCasts? hreading
  obtain ⟨bare, hbare, hreading⟩ := exists_unwrapOperands? hreading
  obtain ⟨inner, hinner, hreading⟩ := exists_unwrapAll? hreading
  rw [canonicalExpr?, hlex, Option.bind_some, hkept, Option.bind_some, hbare, Option.bind_some,
    hinner, Option.bind_some, render?_eq hreading, ← render_unwrap_map_folded ts, hfolded,
    render_unwrap_map_folded, Token.canonicalExpr]

end Bytes

end SchemaDrift
