import SchemaDrift.Settings.Basic

/-!
Settings given in one place. What a later place gives takes the place of what an earlier one gave.
-/

namespace SchemaDrift

structure Layer where
  dialectName : Option String := none
  objectTypes : Option (List Kind) := none
  detectRenames : Option Bool := none
  url : Option String := none
  schema : Option String := none
  connectRetries : Option Nat := none
  sslMode : Option SslMode := none
  connectTimeout : Option Nat := none
  statementTimeout : Option Nat := none
  keepalive : Option Nat := none
  introspectTimeout : Option Nat := none
  parallelThreshold : Option Nat := none
deriving DecidableEq, Repr, Inhabited

/-- A layer, and warnings about values that do not count. -/
structure Layer.Reading where
  layer : Layer
  warnings : List String
deriving DecidableEq, Repr, Inhabited

def DatabaseSettings.overlay (s : DatabaseSettings) (l : Layer) : DatabaseSettings where
  url := l.url <|> s.url
  schema := l.schema.getD s.schema
  connectRetries := l.connectRetries.getD s.connectRetries
  sslMode := l.sslMode.getD s.sslMode
  connectTimeout := l.connectTimeout.getD s.connectTimeout
  statementTimeout := l.statementTimeout.getD s.statementTimeout
  keepalive := l.keepalive.getD s.keepalive
  introspectTimeout := l.introspectTimeout.getD s.introspectTimeout

def Settings.overlay (s : Settings) (l : Layer) : Settings where
  dialectName := l.dialectName <|> s.dialectName
  objectTypes := l.objectTypes.getD s.objectTypes
  detectRenames := l.detectRenames.getD s.detectRenames
  database := s.database.overlay l
  parallelThreshold := l.parallelThreshold.getD s.parallelThreshold

/-- The largest count that a setting takes. -/
def maxCount : Nat := 0xFFFFFFFF

/-- A count in decimal digits, with or without a plus sign. -/
def readCount? (s : String) : Option Nat :=
  let digits := match s.toList with
    | '+' :: cs => cs
    | cs => cs
  if digits.isEmpty || !digits.all Char.isDigit then none
  else
    let n := digits.foldl (fun n c => 10 * n + (c.toNat - '0'.toNat)) 0
    if n ≤ maxCount then some n else none

abbrev Environment := List (String × String)

def variableName (name : String) : String := "DRIFTPLAN_" ++ name

def variableNames : List String :=
  ["DIALECT", "OBJECT_TYPES", "DATABASE_URL", "DATABASE_SCHEMA", "CONNECT_RETRIES", "SSL_MODE",
    "CONNECT_TIMEOUT", "INTROSPECT_TIMEOUT"].map variableName

namespace Layer

/-- The settings in the environment. Counts and modes that cannot be read do not count. -/
def ofEnvironment (env : Environment) : Reading :=
  let value (name : String) : Option String := env.lookup (variableName name)
  let kinds := (value "OBJECT_TYPES").map KindList.ofText
  { layer :=
      { dialectName := value "DIALECT"
        objectTypes := kinds.map KindList.kinds
        url := value "DATABASE_URL"
        schema := value "DATABASE_SCHEMA"
        connectRetries := (value "CONNECT_RETRIES").bind readCount?
        sslMode := (value "SSL_MODE").bind SslMode.ofName?
        connectTimeout := (value "CONNECT_TIMEOUT").bind readCount?
        introspectTimeout := (value "INTROSPECT_TIMEOUT").bind readCount? }
    warnings := (kinds.map KindList.warnings).getD [] }

end Layer

end SchemaDrift
