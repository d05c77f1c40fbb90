import SchemaDrift.Dialect
import SchemaDrift.Text.Search

/-!
The lexical pieces that the splitting of a script into statements tells apart. Each piece is given
by its kind and its size, which is never zero.
-/

namespace SchemaDrift

/-- The token that ends a statement. It is never empty. -/
structure Delimiter where
  head : Char
  tail : List Char
deriving DecidableEq, Repr

namespace Delimiter

def semicolon : Delimiter := ⟨';', []⟩

def toList (d : Delimiter) : List Char := d.head :: d.tail

def ofList? : List Char → Option Delimiter
  | [] => none
  | c :: cs => some ⟨c, cs⟩

end Delimiter

inductive Unclosed
  | string
  | identifier
  | dollarQuote
  | comment
  | block
deriving DecidableEq, Repr

def Unclosed.reason : Unclosed → String
  | string => "unterminated string literal"
  | identifier => "unterminated quoted identifier"
  | dollarQuote => "unterminated dollar-quoted string"
  | comment => "unterminated block comment"
  | block => "unterminated BEGIN ... END block"

/-- A comment or a directive may change the delimiter. -/
inductive Piece
  | blank
  | comment (sets : Option Delimiter)
  | directive (sets : Option Delimiter)
  | delimiter
  | quoted
  | word
  | mark
deriving DecidableEq, Repr

namespace Piece

def isWordStart (c : Char) : Bool := c.isAlpha || c == '_' || c.toNat ≥ 128

def isWordChar (c : Char) : Bool := c.isAlphanum || c == '_' || c == '$' || c.toNat ≥ 128

def headWord? : List Char → Option (List Char)
  | [] => none
  | c :: cs => if isWordStart c then some ((c :: cs).takeWhile isWordChar) else none

/-- Block comments nest. -/
def commentSize : Nat → List Char → Option Nat
  | _, [] => none
  | depth, '/' :: '*' :: cs => (commentSize (depth + 1) cs).map (· + 2)
  | depth, '*' :: '/' :: cs =>
      if depth ≤ 1 then some 2 else (commentSize (depth - 1) cs).map (· + 2)
  | depth, _ :: cs => (commentSize depth cs).map (· + 1)

/-- How far a word goes on after its first character. It stops where the delimiter starts. -/
def wordTailSize (delimiter : Delimiter) : List Char → Nat
  | [] => 0
  | c :: cs =>
      if isWordChar c && !Text.startsWith (c :: cs) delimiter.toList
      then wordTailSize delimiter cs + 1 else 0

/-- The directive `#SET TERMINATOR token` in the body of a line comment. -/
def terminator? (body : List Char) : Option Delimiter :=
  match Text.trimStart body with
  | '#' :: rest =>
      match Text.words rest with
      | set :: terminator :: token :: _ =>
          if Text.sameWord set "SET".toList && Text.sameWord terminator "TERMINATOR".toList
          then Delimiter.ofList? token else none
      | _ => none
  | _ => none

/-- Whether a quote after `behind` opens a literal with backslash escapes: an `E` stands directly
before it and is not the end of a longer word. -/
def followsEscapePrefix : List Char → Bool
  | e :: behind => (e == 'E' || e == 'e') && !((behind.head?.map isWordChar).getD false)
  | [] => false

/-- A quoted run with `size` characters after the first. -/
def closed (what : Unclosed) (size : Option Nat) : Except Unclosed (Piece × Nat) :=
  match size with
  | some n => .ok (.quoted, n + 1)
  | none => .error what

/-- The piece at the head of `c :: cs`, when it is part of a statement. `behind` holds what
precedes, backwards. -/
def ofCode (d : Dialect) (delimiter : Delimiter) (behind : List Char) (c : Char) (cs : List Char) :
    Except Unclosed (Piece × Nat) :=
  if c == '\'' then
    closed .string (Text.quotedSize '\'' (d.backslashEscapes || followsEscapePrefix behind) cs)
  else if c == '"' then closed .identifier (Text.quotedSize '"' d.backslashEscapes cs)
  else if c == '\x60' then closed .identifier (Text.quotedSize '\x60' false cs)
  else if c == '[' && d.bracketIdentifiers then closed .identifier (Text.quotedSize ']' false cs)
  else if c == '$' && d.dollarQuotes then
    match Text.dollarTagSize (c :: cs) with
    | none => .ok (.mark, 1)
    | some tag =>
        closed .dollarQuote ((Text.indexOf? ((c :: cs).take tag) ((c :: cs).drop tag)).map
          (fun body => tag + body + tag - 1))
  else if isWordStart c && !((behind.head?.map isWordChar).getD false) then
    .ok (.word, wordTailSize delimiter cs + 1)
  else .ok (.mark, 1)

/-- The size of a `DELIMITER` directive at the head of a text, with the delimiter it sets. -/
def directive? (d : Dialect) (s : List Char) : Option (Option Delimiter × Nat) :=
  if d.delimiterDirective then
    match headWord? s with
    | none => none
    | some w =>
        if Text.sameWord w "DELIMITER".toList then
          let rest := (s.drop w.length).takeWhile (· != '\n')
          some ((Text.words rest).head?.bind Delimiter.ofList?, w.length + rest.length)
        else none
  else none

/-- The piece at the head of `c :: cs`. A directive is one only outside statements. -/
def next (d : Dialect) (delimiter : Delimiter) (started : Bool) (behind : List Char)
    (c : Char) (cs : List Char) : Except Unclosed (Piece × Nat) :=
  if c == '-' && cs.head? == some '-' then
    let body := cs.tail.takeWhile (· != '\n')
    .ok (.comment (if d.terminatorDirective then terminator? body else none), body.length + 2)
  else if c == '#' && d.hashComments then .ok (.comment none, Text.lineSize cs + 1)
  else if c == '/' && cs.head? == some '*' then
    match commentSize 1 cs.tail with
    | some n => .ok (.comment none, n + 2)
    | none => .error .comment
  else if Text.isBlank c then .ok (.blank, 1)
  else match (if started then none else directive? d (c :: cs)) with
    | some (sets, n) => .ok (.directive sets, n)
    | none =>
        if Text.startsWith (c :: cs) delimiter.toList then
          .ok (.delimiter, delimiter.tail.length + 1)
        else ofCode d delimiter behind c cs

theorem isWordChar_of_isWordStart {c : Char} (h : isWordStart c = true) : isWordChar c = true := by
  simp only [isWordStart, isWordChar, Char.isAlphanum, Bool.or_eq_true] at h ⊢
  rcases h with (h | h) | h <;> simp [h]

theorem headWord?_pos {s w : List Char} (h : headWord? s = some w) : 0 < w.length := by
  cases s with
  | nil => simp [headWord?] at h
  | cons c cs =>
      simp only [headWord?, Option.ite_none_right_eq_some, Option.some.injEq] at h
      obtain ⟨hc, rfl⟩ := h
      simp [isWordChar_of_isWordStart hc]

theorem directive?_pos {d : Dialect} {s : List Char} {sets : Option Delimiter} {n : Nat}
    (h : directive? d s = some (sets, n)) : 0 < n := by
  unfold directive? at h
  split at h
  · split at h
    · simp at h
    · next w hw =>
        have := headWord?_pos hw
        split at h
        · simp only [Option.some.injEq, Prod.mk.injEq] at h
          omega
        · simp at h
  · simp at h

theorem closed_pos {what : Unclosed} {size : Option Nat} {p : Piece} {n : Nat}
    (h : closed what size = .ok (p, n)) : 0 < n := by
  cases size <;> simp [closed] at h
  omega

theorem ofCode_pos {d : Dialect} {delimiter : Delimiter} {behind : List Char} {c : Char}
    {cs : List Char} {p : Piece} {n : Nat} (h : ofCode d delimiter behind c cs = .ok (p, n)) :
    0 < n := by
  unfold ofCode at h
  split at h
  · exact closed_pos h
  split at h
  · exact closed_pos h
  split at h
  · exact closed_pos h
  split at h
  · exact closed_pos h
  split at h
  · split at h
    · cases h; decide
    · exact closed_pos h
  split at h
  · cases h; omega
  · cases h; decide

theorem next_pos {d : Dialect} {delimiter : Delimiter} {started : Bool} {behind : List Char}
    {c : Char} {cs : List Char} {p : Piece} {n : Nat}
    (h : next d delimiter started behind c cs = .ok (p, n)) : 0 < n := by
  unfold next at h
  split at h
  · cases h; omega
  split at h
  · cases h; omega
  split at h
  · split at h
    · cases h; omega
    · cases h
  split at h
  · cases h; decide
  split at h
  · next hsets =>
      cases h
      split at hsets
      · cases hsets
      · exact directive?_pos hsets
  split at h
  · cases h; omega
  · exact ofCode_pos h

end Piece

end SchemaDrift
