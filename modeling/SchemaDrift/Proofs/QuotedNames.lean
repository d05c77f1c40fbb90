import SchemaDrift.Proofs.QuotedTokens
import SchemaDrift.Reader

namespace SchemaDrift

inductive NameQuote
  | double
  | backtick
  | bracket
deriving DecidableEq, Repr

namespace Identifier

variable {close : Char}

def doubled (close : Char) (s : List Char) : List Char :=
  s.flatMap (fun c => if c = close then [c, c] else [c])

theorem doubled_cons_self (s : List Char) :
    doubled close (close :: s) = close :: close :: doubled close s := by
  rw [doubled, List.flatMap_cons, if_pos rfl]
  rfl

theorem doubled_cons_of_ne {c : Char} (hc : c ≠ close) (s : List Char) :
    doubled close (c :: s) = c :: doubled close s := by
  rw [doubled, List.flatMap_cons, if_neg hc]
  rfl

theorem length_doubled (s : List Char) : (doubled close s).length = s.length + s.count close := by
  induction s with
  | nil => rfl
  | cons c s ih =>
      by_cases hc : c = close
      · subst hc
        rw [doubled_cons_self, List.count_cons_self]
        simp only [List.length_cons, ih]
        omega
      · rw [doubled_cons_of_ne hc, List.count_cons_of_ne hc]
        simp only [List.length_cons, ih]
        omega

theorem doubled_eq_self_iff {s : List Char} : doubled close s = s ↔ close ∉ s := by
  constructor
  · intro h
    have hlen := congrArg List.length h
    rw [length_doubled] at hlen
    rw [← List.count_eq_zero]
    omega
  · intro h
    induction s with
    | nil => rfl
    | cons c s ih =>
        obtain ⟨hne, hs⟩ := List.ne_and_not_mem_of_not_mem_cons h
        rw [doubled_cons_of_ne (Ne.symm hne), ih hs]

theorem undouble_cons_of_ne {c : Char} (hc : c ≠ close) (s : List Char) :
    undouble close (c :: s) = c :: undouble close s := by
  cases s with
  | nil => rfl
  | cons e s =>
      have hc : (c == close) = false := beq_eq_false_iff_ne.2 hc
      rw [undouble, hc, Bool.false_and, if_neg Bool.false_ne_true]

/-- A run of quotes is read in pairs from its left end, and has been written in such pairs. -/
theorem undouble_doubled (s : List Char) : undouble close (doubled close s) = s := by
  induction s with
  | nil => rfl
  | cons c s ih =>
      by_cases hc : c = close
      · subst hc
        rw [doubled_cons_self, undouble, BEq.rfl, Bool.and_self, if_pos rfl, ih]
      · rw [doubled_cons_of_ne hc, undouble_cons_of_ne hc, ih]

/-- A doubled quote does not close, so that the quote behind the text is the first that does. -/
theorem quoteTail_doubled {rest : List Char} (hrest : rest.head? ≠ some close) (s : List Char) :
    QuoteTail close false (doubled close s ++ [close]) rest := by
  induction s with
  | nil => exact .close hrest
  | cons c s ih =>
      by_cases hc : c = close
      · subst hc
        rw [doubled_cons_self]
        exact .doubled ih
      · rw [doubled_cons_of_ne hc]
        exact .plain (fun h => absurd h Bool.false_ne_true) hc ih

end Identifier

namespace NameQuote

open Identifier

variable {q : NameQuote} {d : Dialect} {last : Option Char}

def opening : NameQuote → Char
  | double => '"'
  | backtick => '\x60'
  | bracket => '['

def closing : NameQuote → Char
  | double => '"'
  | backtick => '\x60'
  | bracket => ']'

def isOf (d : Dialect) : NameQuote → Bool
  | double | backtick => true
  | bracket => d.bracketIdentifiers

def write (q : NameQuote) (s : List Char) : List Char :=
  q.opening :: (doubled q.closing s ++ [q.closing])

/-- The quotes of a dialect are those at which its lexer begins a quoted name. -/
theorem head_eq_quoted_iff {c : Char} {cs : List Char} {n : Nat} :
    Token.head d last c cs = (some .quoted, n) ↔
      ∃ q : NameQuote, q.isOf d = true ∧ c = q.opening ∧ n = Token.quotedSize q.closing false cs := by
  constructor
  · intro h
    obtain ⟨close, hmarks, hsize⟩ := Token.marks_of_head h
    generalize hb : false = backslash at hmarks
    cases hmarks with
    | single => exact absurd (Prod.mk.inj h).1 (by decide)
    | double => exact ⟨double, rfl, rfl, hsize⟩
    | backtick => exact ⟨backtick, rfl, rfl, hsize⟩
    | bracket hd => exact ⟨bracket, hd, rfl, hsize⟩
  · rintro ⟨q, hq, rfl, rfl⟩
    cases q with
    | double => rfl
    | backtick => rfl
    | bracket => exact Token.head_of_bracket hq last cs

/-- The token of a written name ends where the text of it does, whatever comes next but one more
closing quote. -/
theorem lexFrom_write (hq : q.isOf d = true) {rest : List Char}
    (hrest : rest.head? ≠ some q.closing) (gap s : List Char) :
    (Token.lexFrom d last gap (q.write s ++ rest)).1 =
      ⟨.quoted, gap.reverse, q.write s⟩ ::
        (Token.lexFrom d (q.write s).getLast? [] rest).1 := by
  have hclose : q.closing ≠ '\\' := by cases q <;> decide
  have htail := quoteTail_doubled hrest s
  have hhead : Token.head d last q.opening (doubled q.closing s ++ [q.closing] ++ rest) =
      (some .quoted, Token.quotedSize q.closing false
        (doubled q.closing s ++ [q.closing] ++ rest)) :=
    head_eq_quoted_iff.2 ⟨q, hq, rfl, rfl⟩
  rw [Token.quotedSize, Text.quotedSize_of_quoteTail hclose htail, Option.getD_some] at hhead
  exact Token.lexFrom_token hhead

theorem lex_write (hq : q.isOf d = true) (s : List Char) :
    Token.lex d (q.write s) = [⟨.quoted, [], q.write s⟩] := by
  have hend : ([] : List Char).head? ≠ some q.closing := by simp
  have hlex : (Token.lexFrom d none [] (q.write s ++ [])).1 = _ := lexFrom_write hq hend [] s
  rw [List.append_nil, Token.lexFrom] at hlex
  exact hlex

theorem getLast?_write (q : NameQuote) (s : List Char) :
    (q.write s).getLast? = some q.closing := by
  rw [write, ← List.cons_append, List.getLast?_concat]

theorem inner_write (q : NameQuote) (s : List Char) :
    Identifier.inner (q.write s) = doubled q.closing s := by
  rw [Identifier.inner, write, List.tail_cons, List.dropLast_concat]

/-- What is read back. Only the quotes that close as they open are undoubled. -/
def readBack (q : NameQuote) (s : List Char) : List Char :=
  if q = bracket then doubled ']' s else s

theorem unquote_write (q : NameQuote) (s : List Char) :
    unquote (q.write s) = some (q.readBack s) := by
  rw [unquote, getLast?_write, inner_write]
  cases q with
  | double => exact congrArg some (undouble_doubled s)
  | backtick => exact congrArg some (undouble_doubled s)
  | bracket => rfl

theorem read_write (q : NameQuote) (d : Dialect) (s : List Char) :
    Identifier.read d (q.write s) = .ok (String.ofList (q.readBack s)) := by
  have hspace : Text.isSpace q.opening = false ∧ Text.isSpace q.closing = false := by
    cases q <;> exact ⟨by decide, by decide⟩
  have hascii : isAscii q.opening = true ∧ isAscii q.closing = true := by
    cases q <;> exact ⟨rfl, rfl⟩
  have htrim : Text.trim (q.write s) = q.write s := by
    refine Text.trim_of_ends ?_ ?_
    · rintro c ⟨⟩
      exact hspace.1
    · intro c hc
      rw [getLast?_write] at hc
      cases hc
      exact hspace.2
  have hsize : ¬ Text.byteSize (q.write s) < 2 := by
    have hopen := Char.utf8Size_pos q.opening
    have hclose := Char.utf8Size_pos q.closing
    rw [write, Text.byteSize, Text.byteSize_append, Text.byteSize, Text.byteSize]
    omega
  have hends : endsAscii (q.write s) = true := by
    rw [endsAscii, getLast?_write]
    exact Bool.and_eq_true_iff.2 hascii
  rw [Identifier.read, htrim]
  simp only [hsize, hends, unquote_write, if_false, Bool.not_true, Bool.false_eq_true,
    Option.getD_some]

theorem readBack_eq_self_iff {s : List Char} :
    q.readBack s = s ↔ (q = bracket → ']' ∉ s) := by
  by_cases hq : q = bracket
  · rw [readBack, if_pos hq, doubled_eq_self_iff]
    exact (imp_iff_right hq).symm
  · rw [readBack, if_neg hq]
    exact iff_of_true rfl fun h => absurd h hq

/-- A name between quotes of the dialect, with the closing quotes in it doubled, is one token that
covers the text, and a name is read from it. It is the name that was written, but for a name in
brackets with a closing bracket: there the doubled brackets stay. -/
theorem identifier_write (q : NameQuote) (d : Dialect) (hq : q.isOf d = true) (s : String) :
    Token.lex d (q.write s.toList) = [⟨.quoted, [], q.write s.toList⟩] ∧
    ∃ name, Reader.identifier d (Token.lex d (q.write s.toList)) = .ok (some name, []) ∧
      (name = s ↔ (q = bracket → ']' ∉ s.toList)) ∧
      (q = bracket → name.toList = doubled ']' s.toList) := by
  refine ⟨lex_write hq s.toList, String.ofList (q.readBack s.toList), ?_, ?_, ?_⟩
  · rw [lex_write hq]
    simp only [Reader.identifier, Token.isName, read_write]
    rfl
  · rw [← readBack_eq_self_iff, ← String.toList_inj, String.toList_ofList]
  · intro hbracket
    rw [String.toList_ofList, readBack, if_pos hbracket]

def quotedQuotes : List Char := NameQuote.double.write "\"\"日 本\"".toList

theorem identifier_write_quotes :
    (quotedQuotes = "\"\"\"\"\"日 本\"\"\"".toList ∧
      Token.lex .db2 quotedQuotes = [⟨.quoted, [], quotedQuotes⟩] ∧
      Reader.identifier .db2 (Token.lex .db2 quotedQuotes) = .ok (some "\"\"日 本\"", [])) ∧
    Token.lex .sqlite (bracket.write "a[b".toList) = [⟨.quoted, [], "[a[b]".toList⟩] ∧
    Reader.identifier .sqlite (Token.lex .sqlite (bracket.write "a[b".toList)) =
      .ok (some "a[b", []) := by
  obtain ⟨hlex, name, hread, hname, -⟩ :=
    identifier_write double .db2 rfl "\"\"日 本\""
  obtain ⟨hlex', name', hread', hname', -⟩ :=
    identifier_write bracket .sqlite rfl "a[b"
  obtain rfl := hname.2 (fun h => absurd h (by decide))
  obtain rfl := hname'.2 (fun _ => by decide)
  exact ⟨⟨by decide, hlex, hread⟩, hlex', hread'⟩

/-- A closing bracket is doubled in the text and stays so in the name. -/
theorem bracketed_bracket :
    bracket.write "a]b".toList = "[a]]b]".toList ∧ isOf .sqlite bracket = true ∧
    Token.lex .sqlite "[a]]b]".toList = [⟨.quoted, [], "[a]]b]".toList⟩] ∧
    Reader.identifier .sqlite (Token.lex .sqlite "[a]]b]".toList) = .ok (some "a]]b", []) ∧
    "a]]b" ≠ "a]b" := by
  decide +kernel

end NameQuote

end SchemaDrift
