import Mathlib.Data.List.TakeWhile
import SchemaDrift.Statement.Piece

namespace SchemaDrift

inductive EndsLine : List Char → Prop
  | nil : EndsLine []
  | cons (rest : List Char) : EndsLine ('\n' :: rest)

inductive CommentTail : Nat → List Char → Prop
  | close : CommentTail 1 ['*', '/']
  | inner {depth : Nat} {cs : List Char} (h : CommentTail (depth + 1) cs) :
      CommentTail (depth + 2) ('*' :: '/' :: cs)
  | opener {depth : Nat} {cs : List Char} (h : CommentTail (depth + 1) cs) :
      CommentTail depth ('/' :: '*' :: cs)
  | plain {depth : Nat} {c : Char} {cs : List Char} (hopen : c = '/' → cs.head? ≠ some '*')
      (hclose : c = '*' → cs.head? ≠ some '/') (h : CommentTail depth cs) :
      CommentTail depth (c :: cs)

inductive Comment (d : Dialect) : List Char → List Char → Option Delimiter → Prop
  | line {body rest : List Char} (hbody : '\n' ∉ body) (hrest : EndsLine rest) :
      Comment d ('-' :: '-' :: body) rest
        (if d.terminatorDirective then Piece.terminator? body else none)
  | hash {body rest : List Char} (hd : d.hashComments = true) (hbody : '\n' ∉ body)
      (hrest : EndsLine rest) : Comment d ('#' :: body) rest none
  | block {body rest : List Char} (hbody : CommentTail 1 body) :
      Comment d ('/' :: '*' :: body) rest none

def StartsComment (d : Dialect) (s : List Char) : Prop :=
  ['-', '-'] <+: s ∨ ['/', '*'] <+: s ∨ d.hashComments = true ∧ ['#'] <+: s

inductive Directive (d : Dialect) : List Char → List Char → Option Delimiter → Prop
  | delimiter {word tail rest : List Char} (hd : d.delimiterDirective = true)
      (hword : Text.sameWord word "DELIMITER".toList = true) (hline : '\n' ∉ word ++ tail)
      (hrest : EndsLine rest) :
      Directive d (word ++ tail) rest ((Text.words tail).head?.bind Delimiter.ofList?)

/-- What follows an opening quote, up to the quote that closes it. -/
inductive QuoteTail (close : Char) (backslash : Bool) : List Char → List Char → Prop
  | close {rest : List Char} (h : rest.head? ≠ some close) : QuoteTail close backslash [close] rest
  | doubled {body rest : List Char} (h : QuoteTail close backslash body rest) :
      QuoteTail close backslash (close :: close :: body) rest
  | escaped {c : Char} {body rest : List Char} (hb : backslash = true)
      (h : QuoteTail close backslash body rest) :
      QuoteTail close backslash ('\\' :: c :: body) rest
  | plain {c : Char} {body rest : List Char} (hb : backslash = true → c ≠ '\\') (hc : c ≠ close)
      (h : QuoteTail close backslash body rest) : QuoteTail close backslash (c :: body) rest

def IsTag (tag : List Char) : Prop :=
  ∃ name, tag = '$' :: (name ++ ['$']) ∧ (∀ c ∈ name, (c.isAlphanum || c == '_') = true) ∧
    ∀ c ∈ name.head?, c.isDigit = false

inductive Quote (d : Dialect) (behind : List Char) : Char → Char → Bool → Unclosed → Prop
  | single :
      Quote d behind '\'' '\'' (d.backslashEscapes || Piece.followsEscapePrefix behind) .string
  | double : Quote d behind '"' '"' d.backslashEscapes .identifier
  | backtick : Quote d behind '\x60' '\x60' false .identifier
  | bracket (hd : d.bracketIdentifiers = true) : Quote d behind '[' ']' false .identifier

inductive Quoted (d : Dialect) (behind : List Char) : List Char → List Char → Prop
  | quote {c close : Char} {backslash : Bool} {what : Unclosed} {body rest : List Char}
      (hq : Quote d behind c close backslash what) (h : QuoteTail close backslash body rest) :
      Quoted d behind (c :: body) rest
  /-- The tag comes again at the end, and not before. -/
  | dollar {tag body rest : List Char} (hd : d.dollarQuotes = true) (htag : IsTag tag)
      (hfirst : ∀ k < body.length, ¬ tag <+: (body ++ (tag ++ rest)).drop k) :
      Quoted d behind (tag ++ (body ++ tag)) rest

/-- A quote starts the text. If it is never closed, it is left open as what is said. -/
inductive StartsQuote (d : Dialect) (behind : List Char) : List Char → Unclosed → Prop
  | quote {c close : Char} {backslash : Bool} {what : Unclosed} {cs : List Char}
      (hq : Quote d behind c close backslash what) : StartsQuote d behind (c :: cs) what
  | dollar {tag cs : List Char} (hd : d.dollarQuotes = true) (htag : IsTag tag) :
      StartsQuote d behind (tag ++ cs) .dollarQuote

def NoWordBefore (behind : List Char) : Prop := ∀ b ∈ behind.head?, Piece.isWordChar b = false

inductive CodeToken (d : Dialect) (δ : Delimiter) (behind : List Char) :
    List Char → List Char → Prop
  | quoted {run rest : List Char} (h : Quoted d behind run rest) : CodeToken d δ behind run rest
  | word {c : Char} {cs rest : List Char} (hstart : Piece.isWordStart c = true)
      (hbehind : NoWordBefore behind) (hrun : ∀ x ∈ cs, Piece.isWordChar x = true)
      (hrest : ∀ x ∈ rest.head?, Piece.isWordChar x = true → δ.toList <+: rest) :
      CodeToken d δ behind (c :: cs) rest
  | mark {c : Char} {rest : List Char} (hquote : ∀ what, ¬ StartsQuote d behind (c :: rest) what)
      (hword : Piece.isWordStart c = true → ¬ NoWordBefore behind) :
      CodeToken d δ behind [c] rest

inductive Code (d : Dialect) (δ : Delimiter) (behind : List Char) : List Char → List Char → Prop
  | blank {c : Char} {rest : List Char} (hc : Text.isBlank c = true) : Code d δ behind [c] rest
  | delimiter {rest : List Char} (hc : ¬ StartsComment d (δ.toList ++ rest)) :
      Code d δ behind δ.toList rest
  | token {run rest : List Char} (hc : ¬ StartsComment d (run ++ rest))
      (hδ : ¬ δ.toList <+: run ++ rest) (h : CodeToken d δ behind run rest) :
      Code d δ behind run rest

inductive Unterminated (d : Dialect) (δ : Delimiter) (behind : List Char) :
    List Char → Unclosed → Prop
  | comment {cs : List Char} (h : ∀ body rest, cs = body ++ rest → ¬ CommentTail 1 body) :
      Unterminated d δ behind ('/' :: '*' :: cs) .comment
  | quote {s : List Char} {what : Unclosed} (hδ : ¬ δ.toList <+: s)
      (hs : StartsQuote d behind s what)
      (h : ∀ run rest, s = run ++ rest → ¬ Quoted d behind run rest) :
      Unterminated d δ behind s what

def Piece.Form (d : Dialect) (δ : Delimiter) (started : Bool) (behind run rest : List Char) :
    Piece → Prop
  | .comment sets => Comment d run rest sets
  | .directive sets => started = false ∧ Directive d run rest sets
  | .blank => ∃ a, run = [a] ∧ Text.isBlank a = true
  | .delimiter => run = δ.toList ∧ ¬ StartsComment d (run ++ rest)
  | .quoted | .word | .mark => Code d δ behind run rest

end SchemaDrift
