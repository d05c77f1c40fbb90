import SchemaDrift.Catalog
import SchemaDrift.Proofs.ConstraintStatements
import SchemaDrift.Proofs.ElementGaps
import SchemaDrift.Proofs.Outcomes
import SchemaDrift.Proofs.Substance
import SchemaDrift.Script

namespace SchemaDrift

def nameStarts : List Char := "abcdefghijklmnopqrstuvwxyz_".toList

def nameChars : List Char := nameStarts ++ "0123456789".toList

def isPlainName (s : String) : Bool :=
  match s.toList with
  | [] => false
  | c :: cs => nameStarts.contains c && cs.all nameChars.contains

theorem exists_cons_of_isPlainName {s : String} (h : isPlainName s = true) :
    ∃ c cs, s.toList = c :: cs ∧ c ∈ nameStarts ∧ ∀ e ∈ c :: cs, e ∈ nameChars := by
  unfold isPlainName at h
  split at h
  · cases h
  · next c cs hs =>
      obtain ⟨hc, hcs⟩ := Bool.and_eq_true_iff.1 h
      rw [List.contains_iff_mem] at hc
      refine ⟨c, cs, hs, hc, fun e he => ?_⟩
      rcases List.mem_cons.1 he with rfl | he
      · exact List.mem_append_left _ hc
      · exact List.contains_iff_mem.1 (List.all_eq_true.1 hcs e he)

theorem nameChars_plain {c : Char} (hc : c ∈ nameChars) :
    Token.isWordChar c = true ∧ Text.isSpace c = false ∧ Identifier.isAscii c = true ∧
      Text.lowerChar c = [c] ∧ c ≠ 'Σ' := by
  have hall : nameChars.all (fun c => Token.isWordChar c && !Text.isSpace c &&
      Identifier.isAscii c && Text.lowerChar c == [c] && c != 'Σ') = true := by decide
  simpa [and_assoc] using List.all_eq_true.1 hall c hc

namespace Identifier

theorem lower_of_plain {s : List Char} (h : ∀ c ∈ s, c ∈ nameChars) : Text.lower s = s := by
  have hfrom (before : List Char) : Text.lowerFrom before s = s := by
    induction s generalizing before with
    | nil => rfl
    | cons c s ih =>
        obtain ⟨-, -, -, hlower, hsigma⟩ := nameChars_plain (h c List.mem_cons_self)
        rw [Text.lowerFrom, if_neg (by simpa using hsigma), hlower,
          ih (fun e he => h e (List.mem_cons_of_mem c he))]
        rfl
  exact hfrom []

theorem trim_of_plain {s : List Char} (h : ∀ c ∈ s, c ∈ nameChars) : Text.trim s = s :=
  Text.trim_of_ends (fun c hc => (nameChars_plain (h c (List.mem_of_head? hc))).2.1)
    (fun c hc => (nameChars_plain (h c (List.mem_of_getLast? hc))).2.1)

/-- A plain name stands for itself. -/
theorem read_of_isPlainName {s : String} (h : isPlainName s = true) :
    read .postgres s.toList = .ok s := by
  obtain ⟨c, cs, hs, -, hchars⟩ := exists_cons_of_isPlainName h
  rw [← hs] at hchars
  have hfold : fold .postgres s.toList = s.toList := lower_of_plain hchars
  have hends : endsAscii s.toList = true := by
    have hascii {o : Option Char} (ho : ∀ e ∈ o, e ∈ nameChars) :
        (o.map isAscii).getD true = true := by
      cases o with
      | none => rfl
      | some e => exact (nameChars_plain (ho e rfl)).2.2.1
    rw [endsAscii, hascii fun e he => hchars e (List.mem_of_head? he),
      hascii fun e he => hchars e (List.mem_of_getLast? he)]
    rfl
  have hquote : unquote s.toList = none :=
    unquote_of_isWordChar fun e he => (nameChars_plain (hchars e he)).1
  rw [read, trim_of_plain hchars, hfold, hends, hquote, String.ofList_toList]
  split
  · rfl
  · rw [if_neg (by decide), Option.getD_none, String.ofList_toList]

end Identifier

theorem isWordText_of_isPlainName {s : String} (h : isPlainName s = true) :
    Token.isWordText s.toList = true := by
  obtain ⟨c, cs, hs, hc, hchars⟩ := exists_cons_of_isPlainName h
  have hstarts : nameStarts.all Token.isWordStart = true := by decide
  rw [hs, Token.isWordText, List.all_eq_true.1 hstarts c hc, Bool.true_and, List.all_eq_true]
  exact fun e he => (nameChars_plain (hchars e (List.mem_cons_of_mem c he))).1

structure ColumnTexts where
  name : String
  dataType : String
  default : Option String
  nullable : Bool
deriving DecidableEq, Repr

structure ConstraintTexts where
  name : String
  definition : String
deriving DecidableEq, Repr

structure TableTexts where
  name : String
  columns : List ColumnTexts
  constraints : List ConstraintTexts
deriving DecidableEq, Repr

def ColumnTexts.row (table : String) (c : ColumnTexts) : Catalog.ColumnRow :=
  ⟨"public", table, c.name, c.dataType, c.nullable, c.default, false, false⟩

def ConstraintTexts.row (table : String) (c : ConstraintTexts) : Catalog.ConstraintRow :=
  ⟨"public", table, c.name, c.definition⟩

def ColumnTexts.element (c : ColumnTexts) : String :=
  c.name ++ " " ++ c.dataType ++
    (match c.default with
      | some e => " DEFAULT " ++ e
      | none => "") ++
    (if c.nullable then "" else " NOT NULL")

def ConstraintTexts.element (c : ConstraintTexts) : String :=
  "CONSTRAINT " ++ c.name ++ " " ++ c.definition

namespace TableTexts

def catalog (t : TableTexts) : Catalog where
  tables := [⟨"public", t.name, none, none, []⟩]
  columns := t.columns.map (ColumnTexts.row t.name)
  constraints := t.constraints.map (ConstraintTexts.row t.name)
  indexes := []

def elements (t : TableTexts) : List String :=
  t.columns.map ColumnTexts.element ++ t.constraints.map ConstraintTexts.element

def statement (t : TableTexts) : String :=
  "CREATE TABLE " ++ t.name ++ " (" ++ commaList t.elements ++ ")"

end TableTexts

open Reader Grammar

@[reducible]
def decidableForm {α β : Type} [DecidableEq β] {f : α → β} (part : β → Option α)
    (hpart : ∀ a, part (f a) = some a) (x : β) {P : α → Prop} [DecidablePred P] :
    Decidable (∃ a, x = f a ∧ P a) :=
  decidable_of_iff (∃ a ∈ part x, x = f a ∧ P a)
    ⟨fun ⟨a, _, h⟩ => ⟨a, h⟩, fun ⟨a, ha, h⟩ => ⟨a, ha ▸ hpart a, ha, h⟩⟩

@[mk_iff]
structure IsSelfContained (s : String) : Prop where
  closed : Token.closedFrom .postgres none s.toList = true
  item : Token.IsItem (Token.lex .postgres s.toList)

instance (s : String) : Decidable (IsSelfContained s) := decidable_of_iff' _ (isSelfContained_iff s)

def IsTakenWhole (e : String) : Prop :=
  (∃ t, Token.lex .postgres e.toList = [t] ∧ t.isKeyword "NULL" = true) ∨
    IsWholeDefault (Token.lex .postgres e.toList) ∧
      ∀ t ∈ (Token.lex .postgres e.toList).head?, t.endsAlone = true

instance (e : String) : Decidable (IsTakenWhole e) :=
  have : Decidable (∃ t, Token.lex .postgres e.toList = [t] ∧ t.isKeyword "NULL" = true) :=
    decidableForm List.head? (fun _ => rfl) _
  inferInstanceAs (Decidable (_ ∨ _ ∧ _))

/-- The type is read whole, and is none of the serial types; the words of the column stand for
nothing else; and a column that takes its values from a sequence is not nullable. -/
@[mk_iff]
structure ColumnTexts.IsRegular (c : ColumnTexts) : Prop where
  name : isPlainName c.name = true
  element : startsOther (Token.lex .postgres c.element.toList) = false
  typeText : IsSelfContained c.dataType
  type : ∃ p, typeName .postgres (Token.lex .postgres c.dataType.toList) = .ok (some p, []) ∧
    p.serial = false
  typed : startsTypeless (Token.lex .postgres c.dataType.toList) = false
  default : ∀ e ∈ c.default, IsSelfContained e ∧ IsTakenWhole e ∧
    (DefaultValue.ofText .postgres e.toList = .identity → c.nullable = false)

instance (c : ColumnTexts) : Decidable c.IsRegular :=
  have : Decidable (∃ p, typeName .postgres (Token.lex .postgres c.dataType.toList) =
      .ok (some p, []) ∧ p.serial = false) :=
    decidableForm (fun found => found.toOption.bind Prod.fst) (fun _ => rfl) _
  decidable_of_iff' _ (ColumnTexts.isRegular_iff c)

@[mk_iff]
structure ConstraintTexts.IsRegular (c : ConstraintTexts) : Prop where
  name : isPlainName c.name = true
  free : ∀ k ∈ unnamedWords, sameKeyword c.name k = false
  text : IsSelfContained c.definition
  unnamed : atKeyword "CONSTRAINT" (Token.lex .postgres c.definition.toList) = false
  accepted : ∃ k, constraintOfText .postgres c.definition none = .ok (some k) ∧ k.name = none

instance (c : ConstraintTexts) : Decidable c.IsRegular :=
  have : Decidable (∃ k, constraintOfText .postgres c.definition none = .ok (some k) ∧
      k.name = none) :=
    decidableForm (fun found => found.toOption.bind id) (fun _ => rfl) _
  decidable_of_iff' _ (ConstraintTexts.isRegular_iff c)

@[mk_iff]
structure TableTexts.IsRegular (t : TableTexts) : Prop where
  name : isPlainName t.name = true
  columns : ∀ c ∈ t.columns, c.IsRegular
  constraints : ∀ c ∈ t.constraints, c.IsRegular
  distinct : ∀ a ∈ t.columns, ∀ b ∈ t.columns, a.name = b.name → a = b
  split : ∃ s, Statement.split .postgres t.statement = [.ok s] ∧ s.text = t.statement

instance (t : TableTexts) : Decidable t.IsRegular :=
  have : Decidable (∃ s, Statement.split .postgres t.statement = [.ok s] ∧
      s.text = t.statement) :=
    decidableForm (fun items => items.head?.bind Except.toOption) (fun _ => rfl) _
  decidable_of_iff' _ (TableTexts.isRegular_iff t)

section

open Token

theorem isSelfContained_of_isWordText {s : String} (h : isWordText s.toList = true) :
    IsSelfContained s where
  closed := closedFrom_of_isWordText h
  item := by
    rw [lex_of_isWordText h]
    exact isItem_of_isWord rfl

def IsLaid (s : String) (ts : List Token) : Prop := ∃ gap, ts = regap gap (lex .postgres s.toList)

theorem isItem_of_laid {parts : List String} {tss : List (List Token)}
    (htss : List.Forall₂ IsLaid parts tss) (hparts : ∀ s ∈ parts, IsSelfContained s) :
    IsItem tss.flatten := by
  induction htss with
  | nil => exact ⟨rfl, rfl⟩
  | cons hts _ ih =>
      obtain ⟨gap, rfl⟩ := hts
      obtain ⟨hpart, hparts⟩ := List.forall_mem_cons.1 hparts
      exact (hpart.item.regap gap).append (ih hparts)

section

variable {parts : List String} (hparts : ∀ s ∈ parts, IsSelfContained s)

include hparts

theorem closedFrom_parts : ∀ s ∈ parts.map String.toList, closedFrom .postgres none s = true :=
  List.forall_mem_map.2 fun s hs => (hparts s hs).closed

theorem exists_laid : ∃ tss,
    lex .postgres ([' '].intercalate (parts.map String.toList)) = tss.flatten ∧
      List.Forall₂ IsLaid parts tss := by
  obtain ⟨tss, hlex, htss⟩ := regap_lex_intercalate (closedFrom_parts hparts) []
  rw [regap_nil] at hlex
  exact ⟨tss, hlex, (List.forall₂_map_left_iff (f := String.toList)).1 htss⟩

theorem isSelfContained_intercalate {s : String}
    (hs : s.toList = [' '].intercalate (parts.map String.toList)) : IsSelfContained s where
  closed := by
    rw [hs]
    exact closedFrom_intercalate (closedFrom_parts hparts)
  item := by
    obtain ⟨tss, hlex, htss⟩ := exists_laid hparts
    rw [hs, hlex]
    exact isItem_of_laid htss hparts

end

theorem isElement_of_parts {word s : String} {others : List String}
    (hword : isWordText word.toList = true)
    (hparts : ∀ part ∈ word :: others, IsSelfContained part)
    (hs : s.toList = [' '].intercalate ((word :: others).map String.toList)) :
    IsElement .postgres s.toList where
  closed := (isSelfContained_intercalate hparts hs).closed
  item := (isSelfContained_intercalate hparts hs).item
  ne_nil := by
    obtain ⟨tss, hlex, htss⟩ := exists_laid hparts
    obtain ⟨_, _, ⟨g, rfl⟩, -, rfl⟩ := List.forall₂_cons_left_iff.1 htss
    rw [hs, hlex, lex_of_isWordText hword]
    exact List.cons_ne_nil _ _

namespace ColumnTexts

variable {c : ColumnTexts}

def defaultParts (c : ColumnTexts) : List String :=
  match c.default with
  | some e => ["DEFAULT", e]
  | none => []

def nullabilityParts (c : ColumnTexts) : List String := if c.nullable then [] else ["NOT", "NULL"]

def parts (c : ColumnTexts) : List String :=
  c.name :: c.dataType :: (c.defaultParts ++ c.nullabilityParts)

theorem toList_element (c : ColumnTexts) :
    c.element.toList = [' '].intercalate (c.parts.map String.toList) := by
  rw [element, parts, defaultParts, nullabilityParts]
  cases c.default <;> cases c.nullable <;> simp [List.intercalate]

end ColumnTexts

theorem ofText_null {d : Dialect} {s : List Char} {t : Token} (hs : lex d s = [t])
    (ht : t.isKeyword "NULL" = true) : DefaultValue.ofText d s = .none := by
  obtain ⟨hword, htext⟩ := Bool.and_eq_true_iff.1 ht
  have hsymbol := isSymbol_of_isName (isName_of_isWord hword)
  have hpiece : t.piece = "null".toList := by
    rw [piece, if_pos hword, ← Text.lower_asciiUpper, beq_iff_eq.1 htext]
    rfl
  have hcasts : dropCasts [t] = [t] := by
    rw [dropCasts, hsymbol, dropCasts]
    rfl
  have honce : unwrapOperandsOnce none [t] = [t] := by simp [unwrapOperandsOnce]
  have hoperands : unwrapOperands [t] = [t] := by
    rw [unwrapOperands, honce, if_neg (Nat.lt_irrefl _)]
  have hnone : unwrap? [t] = none := by simp [unwrap?, hsymbol]
  have hall : unwrapAll [t] = [t] := by
    rw [unwrapAll]
    split
    · next us hus =>
        rw [hnone] at hus
        cases hus
    · rfl
  have htext : Token.canonicalExpr d s = "null".toList := by
    rw [Token.canonicalExpr, hs, hcasts, hoperands, hall, render, hpiece, renderAfter,
      List.append_nil]
  rw [DefaultValue.ofText, SchemaDrift.canonicalExpr, htext]
  rfl

theorem ofText_span_lex {d : Dialect} {s : List Char}
    (h : ∀ t ∈ (lex d s).head?, t.endsAlone = true) :
    DefaultValue.ofText d (span (lex d s)) = DefaultValue.ofText d s := by
  rw [DefaultValue.ofText, SchemaDrift.canonicalExpr, canonicalExpr_span_lex h,
    DefaultValue.ofText, SchemaDrift.canonicalExpr]

theorem isKeyword_of_ungapped {t : Token} {k : String} (h : t.ungapped = (bareWord k).ungapped) :
    t.isKeyword k = true := by
  rw [← isKeyword_ungapped, h, isKeyword_ungapped, isKeyword, Text.sameWord, bareWord,
    beq_self_eq_true]
  rfl

theorem read_of_ungapped {t : Token} {name : String} (hname : isPlainName name = true)
    (h : t.ungapped = (bareWord name).ungapped) :
    t.isName = true ∧ Identifier.read .postgres t.text = .ok name := by
  have htext := congrArg Token.text h
  change t.text = name.toList at htext
  rw [htext]
  exact ⟨congrArg Token.isName h, Identifier.read_of_isPlainName hname⟩

namespace ColumnTexts

variable {c : ColumnTexts}

def value (c : ColumnTexts) : DefaultValue :=
  (c.default.map (fun e => DefaultValue.ofText .postgres e.toList)).getD .none

def column (c : ColumnTexts) (type : DataType) (ordinal : Nat) : Column :=
  ⟨c.name, type, c.nullable, c.value.text?, if c.value = .identity then .identity else .plain,
    ordinal, []⟩

theorem columnOfRow_row {p : ParsedType}
    (hp : typeName .postgres (lex .postgres c.dataType.toList) = .ok (some p, []))
    (table : String) (ordinal : Nat) :
    Catalog.columnOfRow .postgres (c.row table) ordinal = .ok (c.column p.dataType ordinal) := by
  have htype : typeOfText .postgres c.dataType = .ok p.dataType := by
    unfold typeOfText run?
    rw [hp]
    rfl
  have hgeneration : Catalog.columnGeneration .postgres (c.row table) =
      (c.value.text?, if c.value = .identity then .identity else .plain) := by
    change (c.value.text?, if (false || decide (c.value = .identity)) = true then _ else _) = _
    simp only [Bool.false_or, decide_eq_true_eq]
  unfold Catalog.columnOfRow
  rw [hgeneration, show (c.row table).dataType = c.dataType from rfl, htype]
  rfl

theorem IsRegular.settle_column (h : c.IsRegular) (type : DataType) (ordinal : Nat) :
    settle .postgres (c.column type ordinal) = c.column type ordinal := by
  unfold settle
  split
  · next hidentity =>
      have hvalue : c.value = .identity := by
        by_contra hvalue
        rw [column, if_neg hvalue] at hidentity
        cases hidentity.2
      have hnullable : c.nullable = false := by
        unfold value at hvalue
        cases hdefault : c.default with
        | none =>
            rw [hdefault] at hvalue
            cases hvalue
        | some e =>
            rw [hdefault] at hvalue
            exact (h.default e hdefault).2.2 hvalue
      rw [column, hnullable]
  · rfl

theorem nullabilityClause_of_laid {tss : List (List Token)}
    (h : List.Forall₂ IsLaid c.nullabilityParts tss) :
    NullabilityClause c.nullable tss.flatten := by
  unfold nullabilityParts at h
  cases hn : c.nullable with
  | true =>
      rw [hn, if_pos rfl, List.forall₂_nil_left_iff] at h
      rw [h]
      exact .nullable
  | false =>
      rw [hn, if_neg Bool.false_ne_true] at h
      obtain _ | ⟨⟨g, rfl⟩, _ | ⟨⟨g', rfl⟩, ⟨⟩⟩⟩ := h
      rw [lex_of_isWordText rfl, lex_of_isWordText rfl]
      exact .notNull (isKeyword_of_ungapped rfl) (isKeyword_of_ungapped rfl)

theorem IsRegular.defaultClause (h : c.IsRegular) {others : List String} {tss : List (List Token)}
    (htss : List.Forall₂ IsLaid (c.defaultParts ++ others) tss) : ∃ uss,
    List.Forall₂ IsLaid others uss ∧ DefaultClause .postgres c.value uss.flatten tss.flatten := by
  unfold defaultParts at htss
  cases hdefault : c.default with
  | none =>
      rw [hdefault] at htss
      rw [value, hdefault]
      exact ⟨tss, htss, .absent _⟩
  | some e =>
      obtain ⟨htext, hwhole, -⟩ := h.default e hdefault
      rw [hdefault] at htss
      obtain _ | ⟨⟨g, rfl⟩, _ | ⟨⟨g', rfl⟩, htss⟩⟩ := htss
      refine ⟨_, htss, ?_⟩
      have hword : (⟨.word, g ++ [], "DEFAULT".toList⟩ : Token).isKeyword "DEFAULT" = true :=
        isKeyword_of_ungapped rfl
      rw [value, hdefault, lex_of_isWordText rfl, Option.map_some, Option.getD_some]
      rcases hwhole with ⟨u, hlex, hu⟩ | ⟨hwhole, hstart⟩
      · rw [hlex, ofText_null hlex hu]
        exact .null (u := { u with gap := g' ++ u.gap }) hword hu _
      · have hclause (us : List Token) := DefaultClause.whole (d := .postgres) hword
          (htext.item.regap g').parens (hwhole.regap g') us
        rw [span_regap, ofText_span_lex hstart] at hclause
        exact hclause _

theorem IsRegular.isSelfContained (h : c.IsRegular) : ∀ s ∈ c.parts, IsSelfContained s := by
  intro s hs
  rcases List.mem_cons.1 hs with rfl | hs
  · exact isSelfContained_of_isWordText (isWordText_of_isPlainName h.name)
  rcases List.mem_cons.1 hs with rfl | hs
  · exact h.typeText
  rcases List.mem_append.1 hs with hs | hs
  · unfold defaultParts at hs
    cases hdefault : c.default with
    | none =>
        rw [hdefault] at hs
        exact absurd hs List.not_mem_nil
    | some e =>
        rw [hdefault] at hs
        rcases List.mem_cons.1 hs with rfl | hs
        · exact isSelfContained_of_isWordText rfl
        · rw [List.mem_singleton.1 hs]
          exact (h.default e hdefault).1
  · have hwords : ∀ s ∈ ["NOT", "NULL"], isWordText s.toList = true := by decide
    unfold nullabilityParts at hs
    split at hs
    · exact absurd hs List.not_mem_nil
    · exact isSelfContained_of_isWordText (hwords s hs)

theorem IsRegular.isElement (h : c.IsRegular) : IsElement .postgres c.element.toList :=
  isElement_of_parts (isWordText_of_isPlainName h.name) h.isSelfContained c.toList_element

/-- The statement has the column of the row. -/
theorem IsRegular.tableElement_eq (h : c.IsRegular) {p : ParsedType}
    (hp : typeName .postgres (lex .postgres c.dataType.toList) = .ok (some p, [])) (table : Table) :
    tableElement Postgres.clauses table .postgres (lex .postgres c.element.toList) =
      .ok (some { table with
        columns := table.columns ++ [c.column p.dataType (table.columns.length + 1)] }, []) := by
  obtain ⟨tss, hlex, htss⟩ := exists_laid h.isSelfContained
  rw [← toList_element] at hlex
  unfold parts at htss
  obtain _ | ⟨⟨g, rfl⟩, _ | ⟨⟨g', rfl⟩, htss⟩⟩ := htss
  obtain ⟨nss, hnss, hdefault⟩ := h.defaultClause htss
  rw [lex_of_isWordText (isWordText_of_isPlainName h.name), List.flatten_cons,
    List.flatten_cons] at hlex
  change _ = [_] ++ _ at hlex
  rw [List.singleton_append] at hlex
  have htype : typeName .postgres (regap g' (lex .postgres c.dataType.toList)) =
      .ok (some p, []) := by
    rw [typeName_regap, hp]
  have htyped : startsTypeless (regap g' (lex .postgres c.dataType.toList)) = false := by
    rw [startsTypeless_regap, h.typed]
  obtain ⟨p', hp', hserial⟩ := h.type
  rw [hp] at hp'
  cases hp'
  obtain ⟨hname, hread⟩ := read_of_ungapped h.name
    (t := ⟨.word, g ++ [], c.name.toList⟩) rfl
  refine tableElement_column (by rw [hlex]; exact List.cons_ne_nil _ _) h.element ?_
  rw [hlex, ← h.settle_column]
  exact column_eq hname hread htyped (h.typeText.item.regap g').parens htype hserial hdefault
    (nullabilityClause_of_laid hnss)

end ColumnTexts

namespace ConstraintTexts

variable {c : ConstraintTexts}

theorem constraintOfText_eq {d : Dialect} {s : String} {k : Constraint} {rest : List Token}
    (h : tableConstraint d (lex d s.toList) = .ok (some k, rest)) (name : Option String) :
    constraintOfText d s name = .ok (some { k with name := k.name.orElse fun _ => name }) := by
  unfold constraintOfText run?
  rw [h]
  rfl

theorem IsRegular.exists_constraint (h : c.IsRegular) : ∃ k rest,
    tableConstraint .postgres (lex .postgres c.definition.toList) = .ok (some k, rest) ∧
      k.name = none := by
  obtain ⟨k, hk, hname⟩ := h.accepted
  cases hfound : tableConstraint .postgres (lex .postgres c.definition.toList) with
  | error e =>
      unfold constraintOfText run? at hk
      rw [hfound] at hk
      cases hk
  | ok found =>
      obtain ⟨_ | k', rest⟩ := found
      · unfold constraintOfText run? at hk
        rw [hfound] at hk
        cases hk
      · rw [constraintOfText_eq hfound] at hk
        cases hk
        refine ⟨k', rest, rfl, ?_⟩
        cases hk' : k'.name with
        | none => rfl
        | some a =>
            rw [hk'] at hname
            cases hname

def parts (c : ConstraintTexts) : List String := ["CONSTRAINT", c.name, c.definition]

theorem toList_element (c : ConstraintTexts) :
    c.element.toList = [' '].intercalate (c.parts.map String.toList) := by
  unfold element parts
  simp [List.intercalate]

theorem IsRegular.isSelfContained (h : c.IsRegular) : ∀ s ∈ c.parts, IsSelfContained s := by
  intro s hs
  rcases List.mem_cons.1 hs with rfl | hs
  · exact isSelfContained_of_isWordText rfl
  rcases List.mem_cons.1 hs with rfl | hs
  · exact isSelfContained_of_isWordText (isWordText_of_isPlainName h.name)
  · rw [List.mem_singleton.1 hs]
    exact h.text

theorem IsRegular.isElement (h : c.IsRegular) : IsElement .postgres c.element.toList :=
  isElement_of_parts rfl h.isSelfContained c.toList_element

/-- The statement has the constraint of the row. -/
theorem IsRegular.tableElement_eq (h : c.IsRegular) (table : Table) :
    ∃ k rest, constraintOfText .postgres c.definition (some c.name) = .ok (some k) ∧
      tableElement Postgres.clauses table .postgres (lex .postgres c.element.toList) =
        .ok (some { table with constraints := table.constraints ++ [k] }, rest) := by
  obtain ⟨k, rest, hread, hnone⟩ := h.exists_constraint
  have hlive := constraintOfText_eq hread (some c.name)
  rw [hnone] at hlive
  obtain ⟨tss, hlex, htss⟩ := exists_laid h.isSelfContained
  rw [← toList_element] at hlex
  unfold parts at htss
  obtain _ | ⟨⟨g, rfl⟩, _ | ⟨⟨g', rfl⟩, _ | ⟨⟨g'', rfl⟩, ⟨⟩⟩⟩⟩ := htss
  rw [lex_of_isWordText (s := "CONSTRAINT") rfl,
    lex_of_isWordText (isWordText_of_isPlainName h.name), List.flatten_cons, List.flatten_cons,
    List.flatten_singleton] at hlex
  have hword : (⟨.word, g ++ [], "CONSTRAINT".toList⟩ : Token).isKeyword "CONSTRAINT" = true :=
    isKeyword_of_ungapped rfl
  obtain ⟨hname, hread'⟩ := read_of_ungapped h.name
    (t := ⟨.word, g' ++ [], c.name.toList⟩) rfl
  have hwords : ∀ w ∈ unnamedWords,
      (⟨.word, g' ++ [], c.name.toList⟩ : Token).isKeyword w = false := by
    intro w hw
    rw [isKeyword, Bool.and_eq_false_iff]
    exact .inr (h.free w hw)
  have hunnamed : atKeyword "CONSTRAINT" (regap g'' (lex .postgres c.definition.toList)) =
      false := by
    rw [atKeyword_regap, h.unnamed]
  refine ⟨_, rest, hlive, ?_⟩
  rw [hlex]
  exact tableElement_constraint hword (tableConstraint_named hword hname hread' hwords hunnamed
    (tableConstraint_regap hread g''))

end ConstraintTexts

end

section

variable {t : TableTexts}

theorem any_named (name : String) (a : Table) :
    [(⟨"public", name, a⟩ : Catalog.Entry)].any (Catalog.named "public" name) = true := by
  simp [Catalog.named]

theorem changeLast_named (name : String) (a : Table) (f : Table → Table) :
    Catalog.changeLast (Catalog.named "public" name) f [⟨"public", name, a⟩] =
      [⟨"public", name, f a⟩] := by
  simp [Catalog.changeLast, Catalog.named]

theorem addColumn_row {c : ColumnTexts} {p : ParsedType}
    (hp : typeName .postgres (Token.lex .postgres c.dataType.toList) = .ok (some p, []))
    (name : String) (a : Table) :
    Catalog.addColumn .postgres [⟨"public", name, a⟩] (c.row name) = .ok [⟨"public", name,
      { a with columns := a.columns ++ [c.column p.dataType (a.columns.length + 1)] }⟩] := by
  unfold Catalog.addColumn
  change (if [(⟨"public", name, a⟩ : Catalog.Entry)].any (Catalog.named "public" name) = true
    then _ else _) = _
  rw [if_pos (any_named name a), ColumnTexts.columnOfRow_row hp]
  exact congrArg Except.ok (changeLast_named name a _)

theorem addConstraint_row {c : ConstraintTexts} {k : Constraint}
    (hk : constraintOfText .postgres c.definition (some c.name) = .ok (some k))
    (name : String) (a : Table) (unread : List String) :
    Catalog.addConstraint .postgres ([⟨"public", name, a⟩], unread) (c.row name) =
      .ok ([⟨"public", name, { a with constraints := a.constraints ++ [k] }⟩], unread) := by
  unfold Catalog.addConstraint
  change (if [(⟨"public", name, a⟩ : Catalog.Entry)].any (Catalog.named "public" name) = true
    then _ else _) = _
  rw [if_pos (any_named name a)]
  change (constraintOfText .postgres c.definition (some c.name) >>= _) = _
  rw [hk]
  exact congrArg (fun es => Except.ok (es, unread)) (changeLast_named name a _)

def Table.WrittenAs (cs : List ColumnTexts) (columns : List Column) : Prop :=
  ∀ c ∈ columns, ∃ texts ∈ cs, ∃ p ordinal,
    typeName .postgres (Token.lex .postgres texts.dataType.toList) = .ok (some p, []) ∧
      c = texts.column p.dataType ordinal

theorem columns_read {cs : List ColumnTexts} (hcs : ∀ c ∈ cs, c.IsRegular) (name : String)
    (a : Table) : ∃ columns : List Column,
      (cs.map (ColumnTexts.row name)).foldlM (Catalog.addColumn .postgres) [⟨"public", name, a⟩] =
        .ok [⟨"public", name, { a with columns := a.columns ++ columns }⟩] ∧
      (∀ us, tableElements Postgres.clauses a
          (cs.map fun c => Token.lex .postgres c.element.toList) .postgres us =
        .ok (some { a with columns := a.columns ++ columns }, us)) ∧
      Table.WrittenAs cs columns := by
  induction cs generalizing a with
  | nil =>
      refine ⟨[], ?_, fun us => ?_, fun c hc => absurd hc List.not_mem_nil⟩
      · rw [List.append_nil]
        rfl
      · rw [List.append_nil]
        rfl
  | cons c cs ih =>
      have hc := hcs c List.mem_cons_self
      obtain ⟨p, hp, -⟩ := hc.type
      let column := c.column p.dataType (a.columns.length + 1)
      obtain ⟨columns, hlive, hdeclared, hwritten⟩ :=
        ih (fun c hc => hcs c (List.mem_cons_of_mem _ hc))
          { a with columns := a.columns ++ [column] }
      refine ⟨column :: columns, ?_, fun us => ?_, ?_⟩
      · rw [List.map_cons, List.foldlM_cons, addColumn_row hp]
        change List.foldlM _ _ _ = _
        rw [hlive, List.append_assoc]
        rfl
      · rw [List.map_cons, tableElements_cons (hc.tableElement_eq hp a), hdeclared,
          List.append_assoc]
        rfl
      · intro e he
        rcases List.mem_cons.1 he with rfl | he
        · exact ⟨c, List.mem_cons_self, p, _, hp, rfl⟩
        · obtain ⟨texts, htexts, rest⟩ := hwritten e he
          exact ⟨texts, List.mem_cons_of_mem c htexts, rest⟩

theorem constraints_read {cs : List ConstraintTexts} (hcs : ∀ c ∈ cs, c.IsRegular) (name : String)
    (a : Table) : ∃ constraints : List Constraint,
      (cs.map (ConstraintTexts.row name)).foldlM (Catalog.addConstraint .postgres)
          ([⟨"public", name, a⟩], []) =
        .ok ([⟨"public", name, { a with constraints := a.constraints ++ constraints }⟩], []) ∧
      ∀ us, tableElements Postgres.clauses a
          (cs.map fun c => Token.lex .postgres c.element.toList) .postgres us =
        .ok (some { a with constraints := a.constraints ++ constraints }, us) := by
  induction cs generalizing a with
  | nil =>
      refine ⟨[], ?_, fun us => ?_⟩
      · rw [List.append_nil]
        rfl
      · rw [List.append_nil]
        rfl
  | cons c cs ih =>
      obtain ⟨k, rest, hk, helement⟩ := (hcs c List.mem_cons_self).tableElement_eq a
      obtain ⟨constraints, hlive, hdeclared⟩ :=
        ih (fun c hc => hcs c (List.mem_cons_of_mem _ hc))
          { a with constraints := a.constraints ++ [k] }
      refine ⟨k :: constraints, ?_, fun us => ?_⟩
      · rw [List.map_cons, List.foldlM_cons, addConstraint_row hk]
        change List.foldlM _ _ _ = _
        rw [hlive, List.append_assoc]
        rfl
      · rw [List.map_cons, tableElements_cons helement, hdeclared, List.append_assoc]
        rfl

/-- Where no two columns share a name, the columns are told apart by their names, also when those
of a primary key are made not nullable. -/
theorem Table.WrittenAs.unambiguous {cs : List ColumnTexts} {table : Table}
    (hcolumns : Table.WrittenAs cs table.columns) (hindexes : table.indexes = [])
    (hcs : ∀ a ∈ cs, ∀ b ∈ cs, a.name = b.name → a = b) :
    table.enforcePrimaryKey.Unambiguous := by
  refine ⟨fun c hc e he hname => ?_, ?_⟩
  · obtain ⟨c, hctable, rfl⟩ := List.mem_map.1 hc
    obtain ⟨e, hetable, rfl⟩ := List.mem_map.1 he
    obtain ⟨texts, htexts, p, m, hp, rfl⟩ := hcolumns c hctable
    obtain ⟨texts', htexts', q, n, hq, rfl⟩ := hcolumns e hetable
    have hnames {names : List String} (c : Column) :
        (if names.contains c.name then { c with nullable := false } else c).name = c.name := by
      split <;> rfl
    rw [hnames, hnames] at hname
    obtain rfl := hcs texts htexts texts' htexts' hname
    rw [hp] at hq
    cases hq
    change Column.sameDefinition
      (if table.primaryKeyColumns.contains texts.name then _ else _)
      (if table.primaryKeyColumns.contains texts.name then _ else _) = true
    split <;> simp [Column.sameDefinition, ColumnTexts.column, DataType.sameAs]
  · change ∀ i ∈ table.indexes, ∀ j ∈ table.indexes, _
    rw [hindexes]
    exact fun i hi => absurd hi List.not_mem_nil

def TableTexts.declaration (t : TableTexts) : Declaration :=
  ⟨"CREATE TABLE " ++ t.name, t.elements, ""⟩

theorem TableTexts.text_declaration (t : TableTexts) : t.declaration.text = t.statement :=
  String.append_empty

theorem TableTexts.IsRegular.declaration (h : t.IsRegular) :
    t.declaration.IsRegular .postgres (.unqualified t.name) := by
  have hparts : ∀ s ∈ ["CREATE", "TABLE", t.name], IsSelfContained s := by
    intro s hs
    rcases List.mem_cons.1 hs with rfl | hs
    · exact isSelfContained_of_isWordText rfl
    rcases List.mem_cons.1 hs with rfl | hs
    · exact isSelfContained_of_isWordText rfl
    · rw [List.mem_singleton.1 hs]
      exact isSelfContained_of_isWordText (isWordText_of_isPlainName h.name)
  have hheading : t.declaration.heading.toList =
      [' '].intercalate (["CREATE", "TABLE", t.name].map String.toList) := by
    simp [TableTexts.declaration, List.intercalate]
  refine ⟨(isSelfContained_intercalate hparts hheading).closed, ?_, ?_⟩
  · obtain ⟨tss, hlex, htss⟩ := exists_laid hparts
    obtain _ | ⟨⟨g, rfl⟩, _ | ⟨⟨g', rfl⟩, _ | ⟨⟨g'', rfl⟩, ⟨⟩⟩⟩⟩ := htss
    rw [Token.lex_of_isWordText (s := "CREATE") rfl, Token.lex_of_isWordText (s := "TABLE") rfl,
      Token.lex_of_isWordText (isWordText_of_isPlainName h.name), ← hheading] at hlex
    rw [hlex]
    obtain ⟨hname, hread⟩ := read_of_ungapped h.name (t := ⟨.word, g'' ++ [], t.name.toList⟩) rfl
    exact @IsCreateHeading.mk _ _ _ _ [] [] [] _ (isKeyword_of_ungapped rfl) (.inl rfl)
      (fun t ht => absurd ht List.not_mem_nil) (isKeyword_of_ungapped rfl) (.inl rfl)
      (isNamed_of_isName hname hread)
  · intro e he
    rcases List.mem_append.1 he with he | he
    · obtain ⟨c, hc, rfl⟩ := List.mem_map.1 he
      exact (h.columns c hc).isElement
    · obtain ⟨c, hc, rfl⟩ := List.mem_map.1 he
      exact (h.constraints c hc).isElement

/-- The rows describe the table that the statement defines. -/
theorem TableTexts.IsRegular.exists_table (h : t.IsRegular) : ∃ table : Table,
    t.catalog.entries .postgres = .ok ([⟨"public", t.name, table⟩], []) ∧
    Definition.ofStatement? .postgres t.statement =
      .ok (some (.object (.table table.enforcePrimaryKey))) ∧
    table.name = .unqualified t.name ∧ table.enforcePrimaryKey.Unambiguous := by
  obtain ⟨columns, hlive, hdeclared, hwritten⟩ :=
    columns_read h.columns t.name (.new (.unqualified t.name))
  obtain ⟨constraints, hlive', hdeclared'⟩ := constraints_read h.constraints t.name
    { Table.new (.unqualified t.name) with columns := [] ++ columns }
  refine ⟨{ Table.new (.unqualified t.name) with columns, constraints }, ?_, ?_, rfl,
    hwritten.unambiguous rfl h.distinct⟩
  · have htables : t.catalog.tables.mapM (Catalog.Entry.ofRow .postgres) =
        .ok [⟨"public", t.name, .new (.unqualified t.name)⟩] := rfl
    unfold Catalog.entries
    rw [htables]
    change (List.foldlM (Catalog.addColumn .postgres) _ (t.columns.map (ColumnTexts.row t.name)) >>=
      _) = _
    rw [hlive]
    exact hlive'
  · have hall : (t.elements.map String.toList).map (Token.lex .postgres) =
        t.columns.map (fun c => Token.lex .postgres c.element.toList) ++
          t.constraints.map (fun c => Token.lex .postgres c.element.toList) := by
      rw [TableTexts.elements, List.map_append, List.map_append, List.map_map, List.map_map,
        List.map_map, List.map_map]
      rfl
    have helements : tableElements Postgres.clauses (.new (.unqualified t.name))
        ((t.elements.map String.toList).map (Token.lex .postgres)) .postgres [] =
          .ok (some { Table.new (.unqualified t.name) with columns, constraints }, []) := by
      rw [hall, tableElements_append (hdeclared [])]
      exact hdeclared' []
    have hlaid := congrFun (congrFun (tableElements_elementTokens .postgres .postgres
      (.new (.unqualified t.name)) (t.elements.map String.toList)) .postgres) []
    have htail : (Token.lexFrom .postgres (some ')') [] []).1 = [] := by rw [Token.lexFrom]
    rw [← t.text_declaration]
    refine h.declaration.ofStatement?_iff.2 ⟨[], ?_⟩
    change declared _ _ _ .postgres (Token.lexFrom .postgres (some ')') [] []).1 = _
    rw [htail]
    exact (bind_of_eq (hlaid.trans helements)).trans untilEnd_nil

theorem Catalog.model_of_entries {d : Dialect} {c : Catalog} {e : Entry}
    (h : c.entries d = .ok ([e], [])) (hindexes : c.indexes = []) :
    c.model d = .ok (Model.empty.insert (.table e.table.enforcePrimaryKey)) := by
  unfold Catalog.model
  rw [h, hindexes]
  rfl

/-- A live table and the statement made of its texts are one table, whatever its name, its columns
with their types, defaults and nullability, and its constraints. Nothing is left out of the live
table, and there is no difference between the two in either direction. -/
theorem live_table_agrees_with_statement (t : TableTexts) (h : t.IsRegular) (label : String) :
    ∃ live declared, t.catalog.model .postgres = .ok live ∧
      Model.ofScripts .postgres [⟨label, t.statement⟩] = .ok declared ∧
      live.keys = [⟨.table, .unqualified t.name⟩] ∧ live.warnings = [] ∧
      ∀ detectRenames, (Plan.between detectRenames live declared).operations = [] ∧
        (Plan.between detectRenames declared live).operations = [] := by
  obtain ⟨table, hentries, hstatement, hname, hunambiguous⟩ := h.exists_table
  obtain ⟨s, hsplit, htext⟩ := h.split
  have hitems : ([(⟨label, t.statement⟩ : Script)].flatMap fun s =>
      Statement.split .postgres s.sql).map Statement.Item.text? = [some t.statement] := by
    rw [List.flatMap_singleton, hsplit, ← htext]
    rfl
  have hdeclared := Model.ofScripts_table hitems hstatement ""
  have hobjects := Model.objects_define Model.empty "" (.table table.enforcePrimaryKey)
  have hlive := Catalog.model_of_entries hentries rfl
  have hsame : (Model.empty.insert (.table table.enforcePrimaryKey)).objects =
      (Model.empty.define "" (.table table.enforcePrimaryKey)).objects := hobjects.symm
  have hsubstance := congrArg (List.map Object.substance) hsame
  refine ⟨_, _, hlive, hdeclared, ?_, rfl, fun detectRenames => ⟨?_, ?_⟩⟩
  · change [(⟨.table, table.name⟩ : ObjectKey)] = _
    rw [hname]
  · refine (Plan.operations_eq_nil_iff_of_substance hsubstance).2 fun u hu => ?_
    cases List.mem_singleton.1 hu
    exact hunambiguous
  · refine (Plan.operations_eq_nil_iff_of_substance hsubstance.symm).2 fun u hu => ?_
    rw [hobjects] at hu
    cases List.mem_singleton.1 hu
    exact hunambiguous

end

def ordersTexts : TableTexts where
  name := "orders"
  columns := [⟨"id", "integer", some "nextval('orders_id_seq'::regclass)", false⟩,
    ⟨"placed", "date", some "NULL", true⟩, ⟨"note", "text", some "'n/a'::text", true⟩]
  constraints := [⟨"orders_pkey", "PRIMARY KEY (id)"⟩]

theorem ordersTexts_isRegular : ordersTexts.IsRegular := by decide +kernel

theorem live_table_agrees_with_statement_orders :
    ∃ live declared, ordersTexts.catalog.model .postgres = .ok live ∧
      Model.ofScripts .postgres [⟨"orders.sql", ordersTexts.statement⟩] = .ok declared ∧
      live.keys = [⟨.table, .unqualified "orders"⟩] ∧ live.warnings = [] ∧
      ∀ detectRenames, (Plan.between detectRenames live declared).operations = [] ∧
        (Plan.between detectRenames declared live).operations = [] :=
  live_table_agrees_with_statement ordersTexts ordersTexts_isRegular "orders.sql"

def nullCastTexts : TableTexts :=
  ⟨"t", [⟨"a", "character varying(20)", some "NULL::character varying", true⟩], []⟩

/-- The default of a live column often is a cast of `NULL`. In a statement the default ends with
`NULL`, and what is left of the cast counts as an attribute of the column. -/
theorem null_cast_read_as_attribute : ∃ live declared,
    nullCastTexts.catalog.model .postgres = .ok live ∧
      Model.ofScripts .postgres [⟨"t.sql", nullCastTexts.statement⟩] = .ok declared ∧
      (Plan.between false live declared).operations = [⟨.alter, .table, .unqualified "t",
        ["column a attributes changed from [] to [CHARACTER SET varying]"]⟩] := by
  have hread : (do
      let live ← nullCastTexts.catalog.model .postgres
      let declared ← Model.ofScripts .postgres [⟨"t.sql", nullCastTexts.statement⟩]
      return (Plan.between false live declared).operations) =
      .ok [⟨.alter, .table, .unqualified "t",
        ["column a attributes changed from [] to [CHARACTER SET varying]"]⟩] := by
    decide +kernel
  obtain ⟨live, hlive, hread⟩ := Outcome.bind_eq_ok.1 hread
  obtain ⟨declared, hdeclared, hread⟩ := Outcome.bind_eq_ok.1 hread
  exact ⟨live, declared, hlive, hdeclared, Except.ok.inj hread⟩

end SchemaDrift
