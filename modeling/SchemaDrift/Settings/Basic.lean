import SchemaDrift.Error
import SchemaDrift.Schema.Kind
import SchemaDrift.Url

/-!
The settings of a comparison, and what each is when nothing sets it.
-/

namespace SchemaDrift

/-- Whether a connection is encrypted. `prefer` falls back to a connection that is not. -/
inductive SslMode
  | disable
  | prefer
  | require
deriving DecidableEq, Repr, Inhabited

namespace SslMode

def name : SslMode → String
  | disable => "disable"
  | prefer => "prefer"
  | require => "require"

def displayName : SslMode → String
  | disable => "Disable"
  | prefer => "Prefer"
  | require => "Require"

def spellings : SslMode → List String
  | disable => ["disable", "disabled"]
  | prefer => ["prefer"]
  | require => ["require", "required"]

/-- A spelling counts in any case. -/
def ofName? (s : String) : Option SslMode :=
  [disable, prefer, require].find? (fun m => m.spellings.contains (lowerCase s))

def read (s : String) : Except Error SslMode :=
  match ofName? s with
  | some m => .ok m
  | none => .error (.unknownSslMode s)

end SslMode

/-- Settings of a live database. Times are in seconds, and no time limit is zero. -/
structure DatabaseSettings where
  url : Option String := none
  schema : String := "public"
  connectRetries : Nat := 0
  sslMode : SslMode := .prefer
  connectTimeout : Nat := 30
  statementTimeout : Nat := 0
  keepalive : Nat := 120
  introspectTimeout : Nat := 60
deriving DecidableEq, Repr, Inhabited

/-- No object types stand for all of them. The threshold is the number of scripts from which on
they may be read side by side. -/
structure Settings where
  dialectName : Option String := none
  objectTypes : List Kind := []
  detectRenames : Bool := true
  database : DatabaseSettings := {}
  parallelThreshold : Nat := 8
deriving DecidableEq, Repr, Inhabited

/-- A schema name goes into queries as it is. -/
def checkIdentifier (name : String) : Except Error Unit :=
  if name.isEmpty then .error .emptyIdentifier
  else if name.toList.all (fun c => c.isAlphanum || c == '_') then .ok ()
  else .error (.invalidIdentifier name)

namespace DatabaseSettings

/-- The settings on one line. A URL may hold a password and is not shown. -/
def text (s : DatabaseSettings) : String :=
  let url := match s.url with
    | some _ => "Some(\"[REDACTED]\")"
    | none => "None"
  "DatabaseConfig \x7b url: " ++ url ++ ", schema: " ++ "\"" ++ s.schema ++ "\"" ++
    s!", connect_retries: {s.connectRetries}, ssl_mode: {s.sslMode.displayName}" ++
    s!", connect_timeout_secs: {s.connectTimeout}" ++
    s!", statement_timeout_secs: {s.statementTimeout}, keepalive_secs: {s.keepalive}" ++
    s!", introspect_timeout_secs: {s.introspectTimeout} \x7d"

end DatabaseSettings

namespace Settings

def readDialect (name : String) : Except Error Dialect :=
  match Dialect.ofName? name with
  | some d => .ok d
  | none => .error (.unsupportedDialect name)

def dialect (s : Settings) : Except Error Dialect :=
  match s.dialectName with
  | some name => readDialect name
  | none => .error .noDialect

def connectionString (s : Settings) : Except Error String :=
  match s.database.url with
  | some url => .ok (Url.normalized url)
  | none => .error .noUrl

end Settings

end SchemaDrift
