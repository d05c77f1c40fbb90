import SchemaDrift.Proofs.ByteScans
import SchemaDrift.Statement.Split

namespace SchemaDrift

def Delimiter.bytes (δ : Delimiter) : Delimiter :=
  (Delimiter.ofList? (Text.bytes δ.toList)).getD δ

namespace Bytes

open Text Statement

/-- A place among the bytes of a script: what lies behind, backwards, and ahead. Text is taken out by
slices, and there is no result where a slice runs past the end or cuts a character in two, where a
counter goes below zero, or where a turn makes no headway. -/
structure Place where
  behind : List Char
  ahead : List Char

namespace Place

def start (script : List Char) : Place := ⟨[], bytes script⟩

def index (p : Place) : Nat := p.behind.length

def advance (p : Place) (n : Nat) : Place :=
  ⟨(p.ahead.take n).reverse ++ p.behind, p.ahead.drop n⟩

def toEnd (p : Place) : Place := p.advance p.ahead.length

theorem ahead_advance (p : Place) (n : Nat) : (p.advance n).ahead = p.ahead.drop n := rfl

theorem advance_advance (p : Place) (m n : Nat) :
    (p.advance m).advance n = p.advance (m + n) := by
  unfold advance
  simp only [List.take_add, List.reverse_append, List.append_assoc, List.drop_drop]

def text? (script : List Char) (p : Place) (n : Nat) : Option (List Char) :=
  slice? script p.index (p.index + n)

end Place

def cut? {α : Type} (l : List α) (a b : Nat) : Option (List α) :=
  if a ≤ b ∧ b ≤ l.length then some ((l.drop a).take (b - a)) else none

def commentSize? : Nat → List Char → Option (Option Nat)
  | _, [] => some none
  | depth, '/' :: '*' :: s => (commentSize? (depth + 1) s).map (Option.map (· + 2))
  | depth, '*' :: '/' :: s =>
      if depth = 0 then none
      else if depth - 1 = 0 then some (some 2)
      else (commentSize? (depth - 1) s).map (Option.map (· + 2))
  | depth, _ :: s => (commentSize? depth s).map (Option.map (· + 1))

def dollarQuoted? (s : List Char) : Option (Except Unclosed (Piece × Nat)) :=
  match dollarTagSize s with
  | none => some (.ok (.mark, 1))
  | some tag =>
      (cut? s 0 tag).bind fun opener => (cut? s tag s.length).map fun rest =>
        Piece.closed .dollarQuote
          ((indexOf? opener rest).map (fun body => tag + body + tag - 1))

def ofCode? (d : Dialect) (δ : Delimiter) (behind : List Char) (b : Char) (s : List Char) :
    Option (Except Unclosed (Piece × Nat)) :=
  if b == '$' && d.dollarQuotes then dollarQuoted? (b :: s)
  else some (Piece.ofCode d δ behind b s)

def headWord? (script : List Char) (p : Place) : Option (Option (List Char × Nat)) :=
  match Piece.headWord? p.ahead with
  | none => some none
  | some w => (p.text? script w.length).map fun word => some (word, w.length)

def directive? (d : Dialect) (script : List Char) (p : Place) :
    Option (Option (Option Delimiter × Nat)) :=
  if d.delimiterDirective then
    (headWord? script p).bind fun
      | none => some none
      | some (word, size) =>
          if Text.sameWord word "DELIMITER".toList then
            let line := lineSize (p.advance size).ahead
            ((p.advance size).text? script line).map fun rest =>
              some ((Text.words rest).head?.bind Delimiter.ofList?, size + line)
          else some none
  else some none

def terminator? (d : Dialect) (script : List Char) (p : Place) (size : Nat) :
    Option (Option Delimiter) :=
  if d.terminatorDirective then (p.text? script size).map Piece.terminator? else some none

def next? (d : Dialect) (δ : Delimiter) (started : Bool) (script : List Char) (p : Place)
    (b : Char) (s : List Char) : Option (Except Unclosed (Piece × Nat)) :=
  if b == '-' && s.head? == some '-' then
    (terminator? d script (p.advance 2) (lineSize s.tail)).map fun sets =>
      .ok (.comment sets, lineSize s.tail + 2)
  else if b == '#' && d.hashComments then some (.ok (.comment none, lineSize s + 1))
  else if b == '/' && s.head? == some '*' then
    (commentSize? 1 s.tail).map fun
      | some n => .ok (.comment none, n + 2)
      | none => .error .comment
  else if isBlank b then some (.ok (.blank, 1))
  else (if started then some none else directive? d script p).bind fun
    | some (sets, n) => some (.ok (.directive sets, n))
    | none =>
        if startsWith (b :: s) δ.bytes.toList then
          some (.ok (.delimiter, δ.bytes.tail.length + 1))
        else ofCode? d δ.bytes p.behind b s

structure Lines where
  position : Nat
  line : Nat

def Lines.upTo? (script : List Char) (l : Lines) (position : Nat) : Option Lines :=
  if l.position < position then
    (cut? (bytes script) l.position position).map fun run => ⟨position, l.line + newlines run⟩
  else some l

/-- A statement being read. `text` is taken out up to `segment`. `fallback` is the first delimiter
met inside a block: the places before and after it, and the delimiter itself. -/
structure Draft where
  start : Option Place
  segment : Place
  text : List Char
  depth : Nat
  lastWord : List Char
  wordBefore : List Char
  fallback : Option (Place × Place × Delimiter)

namespace Draft

def empty (p : Place) : Draft := ⟨none, p, [], 0, [], [], none⟩

def text? (script : List Char) (r : Draft) (p : Place) : Option (List Char) :=
  (slice? script r.segment.index p.index).map (r.text ++ ·)

def code (r : Draft) (p : Place) : Draft :=
  match r.start with
  | none => { r with start := some p, segment := p }
  | some _ => r

def afterRow (r : Draft) : Bool :=
  Text.sameWord r.lastWord "ROW".toList && Text.sameWord r.wordBefore "AS".toList

end Draft

structure Splitter where
  place : Place
  delimiter : Delimiter
  lines : Lines

def Splitter.start (script : List Char) : Splitter := ⟨.start script, .semicolon, ⟨0, 1⟩⟩

def blanksSize (p : Place) : Nat := (p.ahead.takeWhile isBlank).length

def opensBlock? (script : List Char) (δ : Delimiter) (p : Place) : Option Bool :=
  let next := p.advance (blanksSize p)
  if next.ahead.isEmpty || startsWith next.ahead δ.bytes.toList then some false
  else (headWord? script next).map fun
    | some (word, _) => !isOneOf word transactionWords
    | none => true

def blockEffect? (script : List Char) (δ : Delimiter) (r : Draft) (word : List Char) (p : Place) :
    Option (Nat × Nat) :=
  if Text.sameWord word "BEGIN".toList then
    (if !r.afterRow then opensBlock? script δ p else some false).map fun opens =>
      (if opens then r.depth + 1 else r.depth, 0)
  else if Text.sameWord word "CASE".toList then some (r.depth + 1, 0)
  else if Text.sameWord word "END".toList && !r.afterRow then
    (headWord? script (p.advance (blanksSize p))).map fun
      | none => (r.depth - 1, 0)
      | some (closed, size) =>
          if isOneOf closed innerBlocks then (r.depth, blanksSize p + size)
          else if Text.sameWord closed "CASE".toList then (r.depth - 1, blanksSize p + size)
          else (r.depth - 1, 0)
  else some (r.depth, 0)

inductive Turn
  | stop (item : Option Item) (rest : Splitter)
  | go (there : Place) (delimiter : Delimiter) (r : Draft)

def statement? (script : List Char) (l : Lines) (r : Draft) (start p : Place) :
    Option (Item × Lines) :=
  (r.text? script p).bind fun text => (l.upTo? script start.index).map fun l =>
    (.ok ⟨String.ofList (trim text), start.index, l.line⟩, l)

def unfinished? (script : List Char) (l : Lines) (reason : Unclosed) (start stop : Place) :
    Option (Item × Lines) :=
  (l.upTo? script start.index).bind fun l => (slice? script start.index stop.index).map fun s =>
    (.error ⟨reason, start.index, l.line, String.ofList (trim s)⟩, l)

def finish? (script : List Char) (l : Lines) (p : Place) (δ : Delimiter) (r : Draft) :
    Option (Option Item × Splitter) :=
  match r.start with
  | none => some (none, ⟨p, δ, l⟩)
  | some start =>
      if r.depth = 0 then
        (statement? script l r start p).map fun (item, l) => (some item, ⟨p, δ, l⟩)
      else match r.fallback with
        | some (stop, resume, inForce) =>
            (unfinished? script l .block start stop).map fun (item, l) =>
              (some item, ⟨resume, inForce, l⟩)
        | none =>
            (unfinished? script l .block start p).map fun (item, l) => (some item, ⟨p, δ, l⟩)

def accept? (script : List Char) (l : Lines) (p : Place) (δ : Delimiter) (r : Draft) (n : Nat) :
    Piece → Option Turn
  | .blank => some (.go (p.advance n) δ r)
  | .comment sets =>
      (if r.start.isSome then (r.text? script p).map (· ++ [' ']) else some r.text).map fun text =>
        .go (p.advance n) (sets.getD δ) { r with text := text, segment := p.advance n }
  | .directive sets =>
      some (.go (p.advance n) (sets.getD δ) { r with segment := p.advance n })
  | .quoted | .mark => some (.go (p.advance n) δ (r.code p))
  | .delimiter =>
      if r.depth = 0 then
        match r.start with
        | some start =>
            (statement? script l r start p).map fun (item, l) =>
              .stop (some item) ⟨p.advance n, δ, l⟩
        | none => some (.go (p.advance n) δ r)
      else
        let met := r.fallback.orElse (fun _ => some (p, p.advance n, δ))
        some (.go (p.advance n) δ { r with fallback := met })
  | .word =>
      (p.text? script n).bind fun word =>
        (blockEffect? script δ r word (p.advance n)).map fun (depth, extra) =>
          .go (p.advance (n + extra)) δ
            { r.code p with depth := depth, wordBefore := r.lastWord, lastWord := word }

def turn? (d : Dialect) (script : List Char) (l : Lines) (p : Place) (δ : Delimiter) (r : Draft) :
    Option Turn :=
  match p.ahead with
  | [] => (finish? script l p δ r).map fun (item, rest) => .stop item rest
  | b :: s =>
      (next? d δ r.start.isSome script p b s).bind fun
        | .error what =>
            (unfinished? script l what (r.start.getD p) p.toEnd).map fun (item, l) =>
              .stop (some item) ⟨p.toEnd, δ, l⟩
        | .ok (piece, n) => accept? script l p δ r n piece

def readItem? (d : Dialect) (script : List Char) (l : Lines) (p : Place) (δ : Delimiter)
    (r : Draft) : Option (Option Item × Splitter) :=
  match turn? d script l p δ r with
  | none => none
  | some (.stop item rest) => some (item, rest)
  | some (.go there δ r) =>
      if there.ahead.length < p.ahead.length then readItem? d script l there δ r else none
termination_by p.ahead.length

def Splitter.next? (d : Dialect) (script : List Char) (s : Splitter) :
    Option (Option Item × Splitter) :=
  readItem? d script s.lines s.place s.delimiter (.empty s.place)

def Splitter.run? (d : Dialect) (script : List Char) (s : Splitter) : Option (List Item) :=
  match s.next? d script with
  | none => none
  | some (none, _) => some []
  | some (some item, rest) =>
      if rest.place.ahead.length < s.place.ahead.length then
        (rest.run? d script).map (item :: ·)
      else none
termination_by s.place.ahead.length

def split? (d : Dialect) (script : List Char) : Option (List Item) :=
  (Splitter.start script).run? d script

end Bytes

end SchemaDrift
