import SchemaDrift.Token.Lex
import SchemaDrift.Text.Case

/-!
Canonical text: one spacing and one letter case for every way to write the same tokens, and for
expressions also the same text with and without casts and needless parentheses.
-/

namespace SchemaDrift.Token

def isTightBefore (symbol : List Char) : Bool :=
  [")", ",", ".", "(", "::", "]", "["].any (fun s => s.toList == symbol)

def isTightAfter (symbol : List Char) : Bool :=
  ["(", ".", "::", "["].any (fun s => s.toList == symbol)

/-- Words fold to lower case. Everything else stays as it is. -/
def piece (t : Token) : List Char := if t.isWord then Text.lower t.text else t.text

/-- Whether no blank separates two neighbours. -/
def tight (t u : Token) : Bool :=
  (u.kind == .symbol && isTightBefore u.text) || (t.kind == .symbol && isTightAfter t.text)

def renderAfter (t : Token) : List Token → List Char
  | [] => []
  | u :: us => (if tight t u then [] else [' ']) ++ u.piece ++ renderAfter u us

def render : List Token → List Char
  | [] => []
  | t :: ts => t.piece ++ renderAfter t ts

def canonical (d : Dialect) (s : List Char) : List Char := render (lex d s)

/-- Words that go on a type after its first word in a cast. -/
def castWords : List String := ["VARYING", "PRECISION", "WITH", "WITHOUT", "TIME", "ZONE"]

def isCastWord (t : Token) : Bool := castWords.any t.isKeyword

/-- The tokens of a group, and what follows the parenthesis that closes it. `depth` counts the
parentheses open before the first token. A group that is not closed takes all. -/
def groupFrom (depth : Nat) : List Token → List Token × List Token
  | [] => ([], [])
  | t :: ts =>
      if t.isSymbol ")" then
        if depth ≤ 1 then ([], ts)
        else
          let group := groupFrom (depth - 1) ts
          (t :: group.1, group.2)
      else
        let group := groupFrom (if t.isSymbol "(" then depth + 1 else depth) ts
        (t :: group.1, group.2)

theorem groupFrom_length (depth : Nat) (ts : List Token) :
    (groupFrom depth ts).2.length ≤ ts.length := by
  induction ts generalizing depth with
  | nil => simp [groupFrom]
  | cons t ts ih =>
      simp only [groupFrom]
      split
      · split
        · simp
        · exact Nat.le_succ_of_le (ih _)
      · exact Nat.le_succ_of_le (ih _)

def dropBrackets : List Token → List Token
  | t :: u :: ts =>
      if t.text == ['['] && u.text == [']'] then dropBrackets ts else t :: u :: ts
  | ts => ts

theorem dropBrackets_length (ts : List Token) : (dropBrackets ts).length ≤ ts.length := by
  fun_induction dropBrackets ts with
  | case1 t u ts h ih => simp only [List.length_cons]; omega
  | case2 => exact Nat.le_refl _
  | case3 => exact Nat.le_refl _

def dropCastType : List Token → List Token
  | [] => []
  | t :: ts =>
      if t.isName then
        let rest := ts.dropWhile isCastWord
        dropBrackets (match rest with
          | u :: us => if u.isSymbol "(" then (groupFrom 1 us).2 else rest
          | [] => [])
      else t :: ts

theorem dropCastType_length (ts : List Token) : (dropCastType ts).length ≤ ts.length := by
  cases ts with
  | nil => simp [dropCastType]
  | cons t ts =>
      simp only [dropCastType]
      split
      · refine Nat.le_trans (dropBrackets_length _) ?_
        have h := (List.dropWhile_sublist (l := ts) isCastWord).length_le
        split
        · next u us hu =>
            rw [hu] at h
            split
            · have := groupFrom_length 1 us
              simp only [List.length_cons] at h ⊢
              omega
            · simp only [hu, List.length_cons] at h ⊢
              omega
        · simp
      · exact Nat.le_refl _

def dropCasts (ts : List Token) : List Token :=
  match ts with
  | [] => []
  | t :: ts => if t.isSymbol "::" then dropCasts (dropCastType ts) else t :: dropCasts ts
termination_by ts.length
decreasing_by
  · have := dropCastType_length ts
    simp only [List.length_cons]
    omega
  · simp

/-- Takes the parentheses off every single operand that is not the argument of a call. `before` is
the token before. -/
def unwrapOperandsOnce (before : Option Token) (ts : List Token) : List Token :=
  match ts with
  | a :: b :: c :: rest =>
      if a.isSymbol "(" && b.kind != .symbol && c.isSymbol ")" &&
          !((before.map isName).getD false) then
        unwrapOperandsOnce before (b :: rest)
      else a :: unwrapOperandsOnce (some a) (b :: c :: rest)
  | ts => ts
termination_by ts.length

def unwrapOperands (ts : List Token) : List Token :=
  if (unwrapOperandsOnce none ts).length < ts.length
  then unwrapOperands (unwrapOperandsOnce none ts) else ts
termination_by ts.length

/-- What one pair of parentheses around all the tokens holds. -/
def unwrap? : List Token → Option (List Token)
  | [] => none
  | t :: ts =>
      if t.isSymbol "(" && (groupFrom 1 ts).1.length < ts.length && (groupFrom 1 ts).2.isEmpty
      then some (groupFrom 1 ts).1 else none

theorem unwrap?_length {ts us : List Token} (h : unwrap? ts = some us) : us.length < ts.length := by
  cases ts with
  | nil => simp [unwrap?] at h
  | cons t ts =>
      simp only [unwrap?, Option.ite_none_right_eq_some, Option.some.injEq, Bool.and_eq_true,
        decide_eq_true_eq] at h
      obtain ⟨⟨⟨-, h⟩, -⟩, rfl⟩ := h
      simp only [List.length_cons]
      omega

def unwrapAll (ts : List Token) : List Token :=
  match _h : unwrap? ts with
  | some us => unwrapAll us
  | none => ts
termination_by ts.length
decreasing_by exact unwrap?_length _h

def canonicalExpr (d : Dialect) (s : List Char) : List Char :=
  render (unwrapAll (unwrapOperands (dropCasts (lex d s))))

/-- The parts between top-level commas. A part may be empty, except for the last. `part` runs
backwards. -/
def splitCommasFrom (depth : Int) (part : List Token) : List Token → List (List Token)
  | [] => if part.isEmpty then [] else [part.reverse]
  | t :: ts =>
      if t.isSymbol "," && depth == 0 then part.reverse :: splitCommasFrom 0 [] ts
      else splitCommasFrom
        (if t.isSymbol "(" || t.isSymbol "[" then depth + 1
          else if t.isSymbol ")" || t.isSymbol "]" then depth - 1 else depth)
        (t :: part) ts

def splitCommas (ts : List Token) : List (List Token) := splitCommasFrom 0 [] ts

end SchemaDrift.Token

namespace SchemaDrift

def canonicalSql (d : Dialect) (s : List Char) : String := String.ofList (Token.canonical d s)

def canonicalExpr (d : Dialect) (s : List Char) : String := String.ofList (Token.canonicalExpr d s)

end SchemaDrift
