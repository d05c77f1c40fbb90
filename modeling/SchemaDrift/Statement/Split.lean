import SchemaDrift.Statement.Piece
import SchemaDrift.Text.Measure

/-!
Splitting a script into statements. A statement ends at the delimiter in force, outside quotes,
comments and `BEGIN … END` blocks. A block that is never closed ends its statement at the first
delimiter inside it, and the script is read on from there.
-/

namespace SchemaDrift

/-- A place in a script: what lies behind (backwards) and ahead, and where that is. -/
structure Spot where
  behind : List Char
  ahead : List Char
  offset : Nat
  line : Nat

namespace Spot

def start (script : List Char) : Spot := ⟨[], script, 0, 1⟩

def advance (s : Spot) (n : Nat) : Spot :=
  let run := s.ahead.take n
  ⟨run.reverse ++ s.behind, s.ahead.drop n, s.offset + Text.byteSize run,
    s.line + Text.newlines run⟩

def toEnd (s : Spot) : Spot := s.advance s.ahead.length

def upTo (s t : Spot) : List Char := s.ahead.take (s.ahead.length - t.ahead.length)

@[simp]
theorem ahead_advance (s : Spot) (n : Nat) : (s.advance n).ahead = s.ahead.drop n := rfl

end Spot

/-- One statement, trimmed, with a blank for each comment. It begins at `offset`, on `line`. -/
structure Statement where
  text : String
  offset : Nat
  line : Nat
deriving DecidableEq, Repr

structure Unfinished where
  reason : Unclosed
  offset : Nat
  line : Nat
  snippet : String
deriving DecidableEq, Repr

namespace Unfinished

def message (u : Unfinished) : String :=
  s!"{u.reason.reason} at line {u.line} (offset {u.offset}): {u.snippet}"

def preview (u : Unfinished) : String :=
  let cs := u.snippet.toList
  if cs.length > 60 then String.ofList (cs.take 60) ++ "..." else u.snippet

end Unfinished

namespace Statement

abbrev Item := Except Unfinished Statement

/-- Words that after `END` close a statement inside a block, and no block. -/
def innerBlocks : List String := ["IF", "LOOP", "WHILE", "REPEAT", "FOR"]

/-- Words that make `BEGIN` start a transaction and not a block. -/
def transactionWords : List String :=
  ["TRANSACTION", "WORK", "ISOLATION", "DEFERRED", "IMMEDIATE", "EXCLUSIVE", "READ"]

def isOneOf (word : List Char) (keywords : List String) : Bool :=
  keywords.any (fun k => Text.sameWord word k.toList)

/-- A statement being read. `text` runs backwards. `fallback` is the first delimiter met inside a
block: the places before and after it, and the delimiter itself. -/
structure Draft where
  start : Option Spot
  text : List Char
  depth : Nat
  lastWord : List Char
  wordBefore : List Char
  fallback : Option (Spot × Spot × Delimiter)

namespace Draft

def empty : Draft := ⟨none, [], 0, [], [], none⟩

/-- Takes code in. The first code of a statement is where it starts. -/
def code (r : Draft) (here : Spot) (run : List Char) : Draft :=
  match r.start with
  | none => { r with start := some here, text := run.reverse }
  | some _ => { r with text := run.reverse ++ r.text }

def filler (r : Draft) (run : List Char) : Draft :=
  if r.start.isSome then { r with text := run.reverse ++ r.text } else r

/-- `AS ROW BEGIN` and `AS ROW END` generate columns and bound no block. -/
def afterRow (r : Draft) : Bool :=
  Text.sameWord r.lastWord "ROW".toList && Text.sameWord r.wordBefore "AS".toList

def statement (r : Draft) (start : Spot) : Statement :=
  ⟨String.ofList (Text.trim r.text.reverse), start.offset, start.line⟩

end Draft

def opensBlock (delimiter : Delimiter) (rest : List Char) : Bool :=
  let next := rest.dropWhile Text.isBlank
  if next.isEmpty || Text.startsWith next delimiter.toList then false
  else match Piece.headWord? next with
    | some word => !isOneOf word transactionWords
    | none => true

/-- What a word does to the number of open blocks, and how many characters after it it takes. -/
def blockEffect (delimiter : Delimiter) (r : Draft) (word rest : List Char) : Nat × Nat :=
  if Text.sameWord word "BEGIN".toList then
    (if !r.afterRow && opensBlock delimiter rest then r.depth + 1 else r.depth, 0)
  else if Text.sameWord word "CASE".toList then (r.depth + 1, 0)
  else if Text.sameWord word "END".toList && !r.afterRow then
    let blanks := rest.takeWhile Text.isBlank
    match Piece.headWord? (rest.drop blanks.length) with
    | none => (r.depth - 1, 0)
    | some closed =>
        if isOneOf closed innerBlocks then (r.depth, blanks.length + closed.length)
        else if Text.sameWord closed "CASE".toList then
          (r.depth - 1, blanks.length + closed.length)
        else (r.depth - 1, 0)
  else (r.depth, 0)

structure Splitter where
  spot : Spot
  delimiter : Delimiter

def Splitter.start (script : String) : Splitter := ⟨.start script.toList, .semicolon⟩

def unfinished (reason : Unclosed) (start stop : Spot) : Item :=
  .error ⟨reason, start.offset, start.line, String.ofList (Text.trim (start.upTo stop))⟩

def finish (here : Spot) (delimiter : Delimiter) (r : Draft) : Option Item × Splitter :=
  match r.start with
  | none => (none, ⟨here, delimiter⟩)
  | some start =>
      if r.depth = 0 then (some (.ok (r.statement start)), ⟨here, delimiter⟩)
      else match r.fallback with
        | some (stop, resume, inForce) => (some (unfinished .block start stop), ⟨resume, inForce⟩)
        | none => (some (unfinished .block start here), ⟨here, delimiter⟩)

def readItem (d : Dialect) (here : Spot) (delimiter : Delimiter) (r : Draft) :
    Option Item × Splitter :=
  match _hs : here.ahead with
  | [] => finish here delimiter r
  | c :: cs =>
      match _hp : Piece.next d delimiter r.start.isSome here.behind c cs with
      | .error what =>
          (some (unfinished what (r.start.getD here) here.toEnd), ⟨here.toEnd, delimiter⟩)
      | .ok (piece, n) =>
          let run := (c :: cs).take n
          let there := here.advance n
          match piece with
          | .blank => readItem d there delimiter (r.filler run)
          | .comment sets => readItem d there (sets.getD delimiter) (r.filler [' '])
          | .directive sets => readItem d there (sets.getD delimiter) r
          | .quoted | .mark => readItem d there delimiter (r.code here run)
          | .delimiter =>
              if r.depth = 0 then
                match r.start with
                | some start => (some (.ok (r.statement start)), ⟨there, delimiter⟩)
                | none => readItem d there delimiter r
              else
                let met := r.fallback.orElse (fun _ => some (here, there, delimiter))
                readItem d there delimiter { r.filler run with fallback := met }
          | .word =>
              let (depth, extra) := blockEffect delimiter r run ((c :: cs).drop n)
              readItem d (here.advance (n + extra)) delimiter
                { r.code here ((c :: cs).take (n + extra)) with
                  depth := depth, wordBefore := r.lastWord, lastWord := run }
termination_by here.ahead.length
decreasing_by
  all_goals
    have := Piece.next_pos _hp
    simp only [Spot.ahead_advance, _hs, List.length_drop, List.length_cons]
    omega

def Splitter.next (d : Dialect) (s : Splitter) : Option Item × Splitter :=
  readItem d s.spot s.delimiter .empty

/-- The items of a script, each with the splitter as it is right after it, and the splitter as it
is at the end. -/
def Splitter.run (d : Dialect) (s : Splitter) : List (Item × Splitter) × Splitter :=
  match s.next d with
  | (none, rest) => ([], rest)
  | (some item, rest) =>
      if rest.spot.ahead.length < s.spot.ahead.length then
        let (items, last) := rest.run d
        ((item, rest) :: items, last)
      else ([(item, rest)], rest)
termination_by s.spot.ahead.length

/-- The statements of a script, in order, among them those that are left open. -/
def split (d : Dialect) (script : String) : List Item :=
  ((Splitter.start script).run d).1.map Prod.fst

end Statement

end SchemaDrift
