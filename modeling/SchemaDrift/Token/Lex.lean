import SchemaDrift.Dialect
import SchemaDrift.Text.Search

/-!
The tokens of one statement. Each token carries the text skipped before it, so that the source
between two tokens can be read off them. Nothing fails: a quote that is never closed runs to the
end.
-/

namespace SchemaDrift

inductive TokenKind
  | word
  | quoted
  | string
  | number
  | symbol
deriving DecidableEq, Repr, Inhabited

/-- `gap` is what is skipped before the token: blanks, comments and the letter before a literal. -/
structure Token where
  kind : TokenKind
  gap : List Char
  text : List Char
deriving DecidableEq, Repr, Inhabited

namespace Token

def isWord (t : Token) : Bool := t.kind == .word

def isName (t : Token) : Bool := t.kind == .word || t.kind == .quoted

def isSymbol (t : Token) (s : String) : Bool := t.kind == .symbol && t.text == s.toList

def isKeyword (t : Token) (keyword : String) : Bool :=
  t.isWord && Text.sameWord t.text keyword.toList

def span : List Token → List Char
  | [] => []
  | t :: ts => t.text ++ ts.flatMap (fun u => u.gap ++ u.text)

def isWordStart (c : Char) : Bool := c.isAlpha || c == '_' || c.toNat ≥ 128

def isWordChar (c : Char) : Bool :=
  c.isAlphanum || c == '_' || c == '$' || c == '#' || c.toNat ≥ 128

/-- Letters that belong to the literal directly after them. -/
def isLiteralPrefix (c : Char) : Bool := "EeNnXxBb".toList.contains c

def twoCharSymbols : List (Char × Char) :=
  [(':', ':'), ('<', '='), ('>', '='), ('<', '>'), ('!', '='), ('|', '|'), ('=', '>'), (':', '=')]

/-- How long a comment is after its opener. Comments do not nest here. -/
def commentSize (s : List Char) : Nat :=
  match Text.indexOf? ['*', '/'] s with
  | some n => n + 2
  | none => s.length

def quotedSize (close : Char) (backslash : Bool) (s : List Char) : Nat :=
  (Text.quotedSize close backslash s).getD s.length

/-- The size of what follows a dollar sign: a body between tags, or the digits of a parameter. -/
def dollarSize (s : List Char) : TokenKind × Nat :=
  match Text.dollarTagSize ('$' :: s) with
  | some tag =>
      let body := ('$' :: s).drop tag
      match Text.indexOf? (('$' :: s).take tag) body with
      | some n => (.string, tag + n + tag - 1)
      | none => (.string, s.length)
  | none => (.symbol, (s.takeWhile Char.isDigit).length)

/-- The kind of the token at the head of `c :: cs`, none for a skipped stretch, and the number of
characters in it after the first. `last` is the character before. -/
def head (d : Dialect) (last : Option Char) (c : Char) (cs : List Char) : Option TokenKind × Nat :=
  if Text.isBlank c then (none, 0)
  else if c == '-' && cs.head? == some '-' then (none, Text.lineSize cs)
  else if c == '/' && cs.head? == some '*' then (none, commentSize cs.tail + 1)
  else if c == '\'' then
    (some .string,
      quotedSize '\'' (d.backslashEscapes || last == some 'E' || last == some 'e') cs)
  else if c == '"' || c == '\x60' then (some .quoted, quotedSize c false cs)
  else if c == '[' && d.bracketIdentifiers then (some .quoted, quotedSize ']' false cs)
  else if c == '$' && d.dollarQuotes then ((dollarSize cs).1, (dollarSize cs).2)
  else if c.isDigit || (c == '.' && (cs.head?.map Char.isDigit).getD false) then
    (some .number, (cs.takeWhile (fun e => e.isAlphanum || e == '.')).length)
  else if isWordStart c then
    if isLiteralPrefix c && cs.head? == some '\'' then (none, 0)
    else (some .word, (cs.takeWhile isWordChar).length)
  else if (cs.head?.map (fun e => twoCharSymbols.contains (c, e))).getD false then (some .symbol, 1)
  else (some .symbol, 0)

/-- The tokens of a text, and what is left after the last. `gap` runs backwards. -/
def lexFrom (d : Dialect) (last : Option Char) (gap : List Char) (s : List Char) :
    List Token × List Char :=
  match s with
  | [] => ([], gap.reverse)
  | c :: cs =>
      let run := c :: cs.take (head d last c cs).2
      let rest := cs.drop (head d last c cs).2
      match (head d last c cs).1 with
      | none => lexFrom d run.getLast? (run.reverse ++ gap) rest
      | some kind =>
          let (tokens, trailing) := lexFrom d run.getLast? [] rest
          (⟨kind, gap.reverse, run⟩ :: tokens, trailing)
termination_by s.length
decreasing_by all_goals simp only [List.length_drop, List.length_cons]; omega

def lex (d : Dialect) (s : List Char) : List Token := (lexFrom d none [] s).1

/-- Gaps and tokens together are the text. -/
theorem lexFrom_append (d : Dialect) (last : Option Char) (gap s : List Char) :
    (lexFrom d last gap s).1.flatMap (fun t => t.gap ++ t.text) ++ (lexFrom d last gap s).2 =
      gap.reverse ++ s := by
  fun_induction lexFrom d last gap s with
  | case1 => simp
  | case2 last gap c cs run rest h ih =>
      rw [ih]
      simp [run, rest]
  | case3 last gap c cs run rest kind h tokens trailing hrec ih =>
      rw [hrec] at ih
      simp only [List.reverse_nil, List.nil_append] at ih
      simp [ih, run, rest]

end Token

end SchemaDrift
