import SchemaDrift.FileSystem
import SchemaDrift.Settings.File

/-!
Loading settings: what the caller asks for goes before the environment, the environment before
the settings file, and the file before the defaults.
-/

namespace SchemaDrift

structure Overrides where
  dialectName : Option String := none
  objectTypes : Option String := none
  detectRenames : Option Bool := none
  url : Option String := none
  schema : Option String := none
  sslMode : Option String := none
  connectTimeout : Option Nat := none
  introspectTimeout : Option Nat := none
  connectRetries : Option Nat := none
deriving DecidableEq, Repr, Inhabited

namespace Overrides

def kinds? (o : Overrides) : Option KindList := o.objectTypes.map KindList.ofText

/-- A mode that is none is an error here. -/
def layer (o : Overrides) : Except Error Layer := do
  return {
    dialectName := o.dialectName
    objectTypes := o.kinds?.map KindList.kinds
    detectRenames := o.detectRenames
    url := o.url
    schema := o.schema
    sslMode := ← o.sslMode.mapM SslMode.read
    connectTimeout := o.connectTimeout
    introspectTimeout := o.introspectTimeout
    connectRetries := o.connectRetries }

end Overrides

namespace Settings

def defaultPath : String := "driftplan.toml"

def mentionsUrl (text : List Char) : Bool :=
  (Text.pieces '\n' text).any (fun line => "url".toList.isPrefixOf (Text.trimStart line))

/-- The type and the permission bits of a file, as one number. -/
def fileMode (permissions : Nat) : Nat := 0o100000 ||| permissions

/-- A file that holds a URL is for its owner alone. -/
def permissionWarnings (path text : String) (permissions : Nat) : List String :=
  if permissions &&& 0o077 != 0 && mentionsUrl text.toList then
    let mode := String.ofList (Nat.toDigits 8 (fileMode permissions))
    ["Config file with a database URL has overly permissive permissions. Consider chmod 600.; " ++
      s!"path={path}, mode={mode}"]
  else []

def textAt? (fs : FileSystem) (path : String) : Option (String × Nat) :=
  match fs.find? path with
  | some (.file content mode) => (String.fromUTF8? content).map (·, mode)
  | _ => none

/-- The layer of the settings file. Without a path the file need not be there. -/
def fileLayer (fs : FileSystem) (path? : Option String) : Except Error Layer.Reading :=
  let path := path?.getD defaultPath
  match textAt? fs path with
  | some (text, permissions) =>
      match Layer.ofText? text with
      | some r => .ok ⟨r.layer, permissionWarnings path text permissions ++ r.warnings⟩
      | none => .error (.malformedConfig path)
  | none => if path?.isSome then .error (.missingConfig path) else .ok ⟨{}, []⟩

/-- A connection is tried again at most so many times. -/
def maxRetries : Nat := 20

def capRetries (s : Settings) : Settings × List String :=
  if s.database.connectRetries > maxRetries then
    ({ s with database := { s.database with connectRetries := maxRetries } },
      [s!"connect_retries capped at {maxRetries}"])
  else (s, [])

/-- The settings, and the warnings that came up, in order. -/
def load (fs : FileSystem) (env : Environment) (path? : Option String) (o : Overrides) :
    Except Error (Settings × List String) := do
  let asked := (o.kinds?.map KindList.warnings).getD []
  let file ← fileLayer fs path?
  let environment := Layer.ofEnvironment env
  let defaults : Settings := {}
  let settings := ((defaults.overlay file.layer).overlay environment.layer).overlay (← o.layer)
  checkIdentifier settings.database.schema
  let (settings, capped) := settings.capRetries
  return (settings, asked ++ file.warnings ++ environment.warnings ++ capped)

end Settings

end SchemaDrift
