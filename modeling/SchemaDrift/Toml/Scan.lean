/-!
Readers of characters. A reader that fails takes nothing.
-/

namespace SchemaDrift.Toml

def Scan (α : Type) : Type := List Char → Option (α × List Char)

namespace Scan

variable {α β σ : Type}

protected def pure (a : α) : Scan α := fun s => some (a, s)

protected def bind (p : Scan α) (f : α → Scan β) : Scan β := fun s =>
  match p s with
  | some (a, rest) => f a rest
  | none => none

instance : Monad Scan where
  pure := Scan.pure
  bind := Scan.bind

def fail : Scan α := fun _ => none

def ofOption : Option α → Scan α
  | some a => Scan.pure a
  | none => fail

def orElse (p : Scan α) (q : Unit → Scan α) : Scan α := fun s =>
  match p s with
  | some r => some r
  | none => q () s

instance : OrElse (Scan α) := ⟨orElse⟩

def optional (p : Scan α) : Scan (Option α) := fun s =>
  match p s with
  | some (a, rest) => some (some a, rest)
  | none => some (none, s)

def peek : Scan (Option Char) := fun s => some (s.head?, s)

def take (p : Char → Bool) : Scan Char := fun s =>
  match s with
  | c :: cs => if p c then some (c, cs) else none
  | [] => none

def takeWhile (p : Char → Bool) : Scan (List Char) := fun s =>
  some (s.takeWhile p, s.dropWhile p)

def takeSome (p : Char → Bool) : Scan (List Char) := do
  let first ← take p
  return first :: (← takeWhile p)

def literal (text : String) : Scan Unit := fun s =>
  if text.toList.isPrefixOf s then some ((), s.drop text.length) else none

def endOfInput : Scan Unit := fun s => if s.isEmpty then some ((), s) else none

/-- Steps until a step finds that it is done. A step that takes nothing is the last. -/
def iterate (step : σ → Scan (Option σ)) (a : σ) : Scan σ := fun s =>
  match step a s with
  | none => none
  | some (none, rest) => some (a, rest)
  | some (some b, rest) =>
      if rest.length < s.length then iterate step b rest else some (b, rest)
termination_by s => s.length

def many (p : Scan α) : Scan (List α) := do
  let found ← iterate (fun (as : List α) => do
    match ← optional p with
    | some a => return some (a :: as)
    | none => return none) []
  return found.reverse

/-- One or more, with `separator` between them. -/
def separated (p : Scan α) (separator : Scan Unit) : Scan (List α) := do
  let first ← p
  return first :: (← many (do
    separator
    p))

def run? (p : Scan α) (s : List Char) : Option α :=
  match p s with
  | some (a, []) => some a
  | _ => none

end Scan

end SchemaDrift.Toml
