import SchemaDrift.CommandLine.Arguments
import SchemaDrift.Settings.Load

/-!
What the arguments of the program ask for.
-/

namespace SchemaDrift.CommandLine

inductive Command
  | compare (source target : List String)
  | compareDatabase (target : List String)
deriving DecidableEq, Repr, Inhabited

structure Request where
  command : Command
  configPath : Option String
  overrides : Overrides
  json : Bool
  planOnly : Bool
  quiet : Bool
deriving DecidableEq, Repr, Inhabited

/-- A count with or without a sign. -/
def signedCount? (s : String) : Option Nat :=
  match s.toList with
  | '-' :: cs => if (readCount? (String.ofList ('+' :: cs))) = some 0 then some 0 else none
  | _ => readCount? s

def anyText : Takes := .one (fun _ => true)

def aCount : Takes := .one (fun s => (signedCount? s).isSome)

def somePaths : Takes := .many (fun s => !s.isEmpty)

/-- Options that may stand before a command and after it. -/
def globalSwitches : List Switch := [
  { name := "config", letter := some 'c', takes := anyText },
  { name := "json", takes := .nothing },
  { name := "quiet", letter := some 'q', takes := .nothing },
  { name := "verbose", letter := some 'v', takes := .nothing },
  { name := "no-detect-renames", takes := .nothing },
  { name := "timeout", takes := aCount },
  { name := "help", letter := some 'h', takes := .nothing },
  { name := "version", letter := some 'V', takes := .nothing }]

def comparisonSwitches : List Switch := [
  { name := "dialect", takes := anyText },
  { name := "plan", takes := .nothing },
  { name := "object-types", takes := anyText }]

def fileSwitches : List Switch := [
  { name := "source", takes := somePaths },
  { name := "target", takes := somePaths }]

def databaseSwitches : List Switch := [
  { name := "schema", takes := anyText },
  { name := "ssl-mode", takes := anyText },
  { name := "connect-retries", takes := aCount },
  { name := "connect-timeout", takes := aCount }]

namespace Request

/-- The request that the options before and after a command make. An option after the command
goes before the same option in front of it. -/
def ofReadings (command : Command) (url : Option String) (front back : Reading) : Request :=
  let has (name : String) : Bool := front.has name || back.has name
  let value? (name : String) : Option String := back.value? name <|> front.value? name
  let count? (name : String) : Option Nat := (value? name).bind signedCount?
  { command
    configPath := value? "config"
    overrides :=
      { dialectName := value? "dialect"
        objectTypes := value? "object-types"
        detectRenames := if has "no-detect-renames" then some false else none
        url
        schema := value? "schema"
        sslMode := value? "ssl-mode"
        connectTimeout := count? "connect-timeout"
        introspectTimeout := count? "timeout"
        connectRetries := count? "connect-retries" }
    json := has "json"
    planOnly := has "plan"
    quiet := has "quiet" }

def compareFiles (front : Reading) (args : List String) : Except Halt Request := do
  let (back, rest) ← Reading.read (globalSwitches ++ comparisonSwitches ++ fileSwitches) false args
  if rest.isEmpty && back.has "source" && back.has "target" then
    return ofReadings (.compare (back.values "source") (back.values "target")) none front back
  else throw .misuse

/-- The operands are a URL and one path or more. -/
def compareDatabase (front : Reading) (args : List String) : Except Halt Request := do
  let (back, _) ←
    Reading.read (globalSwitches ++ comparisonSwitches ++ databaseSwitches) true args
  match back.operands with
  | url :: path :: paths =>
      if (path :: paths).all (fun p => !p.isEmpty) then
        return ofReadings (.compareDatabase (path :: paths)) (some url) front back
      else throw .misuse
  | _ => throw .misuse

def commandNames : List String := ["compare", "compare-livedb", "help"]

def ofArguments (args : List String) : Except Halt Request := do
  let (front, rest) ← Reading.read globalSwitches false args
  if front.separated then throw .misuse
  match rest with
  | "compare" :: args => compareFiles front args
  | "compare-livedb" :: args => compareDatabase front args
  | ["help"] => throw .help
  | ["help", name] => throw (if commandNames.contains name then .help else .misuse)
  | _ => throw .misuse

def paths (r : Request) : List String :=
  r.configPath.getD Settings.defaultPath :: match r.command with
    | .compare source target => source ++ target
    | .compareDatabase target => target

end Request

end SchemaDrift.CommandLine
