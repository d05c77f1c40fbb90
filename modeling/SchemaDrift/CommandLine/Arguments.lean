import SchemaDrift.Text.Pieces

/-!
Reading arguments: options with a name and sometimes a letter, their values, and operands.
-/

namespace SchemaDrift.CommandLine

/-- What an option takes: nothing, one value, or one and more. Only an option of the last kind may
be given again. -/
inductive Takes
  | nothing
  | one (valid : String → Bool)
  | many (valid : String → Bool)

structure Switch where
  name : String
  letter : Option Char := none
  takes : Takes

inductive Halt
  | help
  | version
  | misuse
deriving DecidableEq, Repr, Inhabited

inductive Argument
  | separator
  | long (name : List Char) (value : Option (List Char))
  | short (letters : List Char)
  | plain (text : String)
deriving DecidableEq, Repr, Inhabited

/-- A single hyphen is an argument like any other. -/
def Argument.ofText (s : String) : Argument :=
  match s.toList with
  | ['-', '-'] => .separator
  | '-' :: '-' :: cs => .long (Text.cut '=' cs).1 (Text.cut '=' cs).2
  | '-' :: c :: cs => .short (c :: cs)
  | _ => .plain s

/-- The arguments read so far: the options with their values, the option that may take the next
argument, and the operands. After a separator there are operands only. -/
structure Reading where
  given : List (String × List String) := []
  open? : Option (Switch × List String) := none
  operands : List String := []
  separated : Bool := false

namespace Reading

def has (r : Reading) (name : String) : Bool := r.given.any (·.1 == name)

def values (r : Reading) (name : String) : List String :=
  (r.given.filter (·.1 == name)).flatMap (·.2)

def value? (r : Reading) (name : String) : Option String := (r.values name).head?

def record (r : Reading) (s : Switch) (values : List String) : Except Halt Reading :=
  let noted : Reading := { r with given := r.given ++ [(s.name, values)], open? := none }
  match s.takes with
  | .nothing =>
      if s.name == "help" then .error .help
      else if s.name == "version" then .error .version
      else if r.has s.name then .error .misuse
      else .ok noted
  | .one valid => if r.has s.name || !values.all valid then .error .misuse else .ok noted
  | .many valid => if values.all valid then .ok noted else .error .misuse

/-- Ends the option that may take the next argument. It must have got a value. -/
def close (r : Reading) : Except Halt Reading :=
  match r.open? with
  | none => .ok r
  | some (_, []) => .error .misuse
  | some (s, values) => r.record s values

def option (r : Reading) (s : Switch) (value : Option (List Char)) : Except Halt Reading := do
  let r ← r.close
  match s.takes, value with
  | .nothing, none => r.record s []
  | .nothing, some _ => throw .misuse
  | _, some v => r.record s [String.ofList v]
  | _, none => return { r with open? := some (s, []) }

/-- Letters after one hyphen. What follows the letter of an option that takes a value is the
value, with or without an equals sign before it. -/
def letters (switches : List Switch) (r : Reading) : List Char → Except Halt Reading
  | [] => .ok r
  | c :: cs =>
      match switches.find? (·.letter == some c) with
      | none => .error .misuse
      | some s =>
          match s.takes with
          | .nothing => do letters switches (← r.option s none) cs
          | _ =>
              r.option s (match cs with
                | [] => none
                | '=' :: v => some v
                | v => some v)

/-- An argument that is no option. It belongs to the open option if there is one. -/
def plain? (r : Reading) (text : String) : Option (Except Halt Reading) :=
  match r.open? with
  | none => none
  | some (s, values) =>
      match s.takes with
      | .many _ => some (.ok { r with open? := some (s, values ++ [text]) })
      | _ => some (r.record s [text])

/-- Reads arguments, up to the first operand if there may be none. -/
def readFrom (switches : List Switch) (takesOperands : Bool) (r : Reading) :
    List String → Except Halt (Reading × List String)
  | [] => do return (← r.close, [])
  | arg :: rest => do
      let operand (r : Reading) : Except Halt (Reading × List String) := do
        let r ← r.close
        if takesOperands then
          readFrom switches takesOperands { r with operands := r.operands ++ [arg] } rest
        else return (r, arg :: rest)
      if r.separated then operand r
      else match Argument.ofText arg with
        | .separator => readFrom switches takesOperands { r with separated := true } rest
        | .long name value =>
            match switches.find? (·.name.toList == name) with
            | none => throw .misuse
            | some s => readFrom switches takesOperands (← r.option s value) rest
        | .short cs => readFrom switches takesOperands (← letters switches r cs) rest
        | .plain text =>
            match r.plain? text with
            | some next => readFrom switches takesOperands (← next) rest
            | none => operand r

def read (switches : List Switch) (takesOperands : Bool) (args : List String) :
    Except Halt (Reading × List String) := readFrom switches takesOperands {} args

end Reading

end SchemaDrift.CommandLine
