import SchemaDrift.Settings.Layer
import SchemaDrift.Toml.Document

/-!
The settings file. Values of a wrong type make the whole file unreadable, unknown keys do nothing.
-/

namespace SchemaDrift.Layer

open Toml

def string? : Node → Option String
  | .string s => some s
  | _ => none

def boolean? : Node → Option Bool
  | .boolean b => some b
  | _ => none

def natural? : Node → Option Nat
  | .integer n => if 0 ≤ n then some n.toNat else none
  | _ => none

def count? (n : Node) : Option Nat := (natural? n).filter (· ≤ maxCount)

def strings? : Node → Option (List String)
  | .array items => items.mapM string?
  | _ => none

def field? {α : Type} (es : Entries) (key : String) (read : Node → Option α) :
    Option (Option α) :=
  match es.get? key with
  | none => some none
  | some n => (read n).map some

/-- The fields of a section. It may list their values in order instead of naming them. A date or
a time in place of a section has no fields. -/
def fields? (keys : List String) : Node → Option Entries
  | .table _ es => some es
  | .array items => if items.length < keys.length then none else some (keys.zip items)
  | .moment => some []
  | _ => none

def section? (es : Entries) (key : String) (keys : List String) : Option Entries :=
  (field? es key (fields? keys)).map (·.getD [])

def sslWarning (text : String) : String :=
  s!"Invalid ssl_mode '{text}' in config, using default 'prefer'. " ++
    "Valid values: disable, prefer, require"

def ofEntries? (es : Entries) : Option Reading := do
  let compare ← section? es "compare" ["dialect", "object_types", "detect_renames"]
  let database ← section? es "database" ["url", "schema", "connect_retries", "ssl_mode",
    "connect_timeout", "statement_timeout", "keepalive", "introspect_timeout"]
  let reading ← section? es "parser" ["parallel_threshold"]
  let items ← field? compare "object_types" strings?
  let kinds := items.map (fun items => KindList.ofText (String.intercalate "," items))
  let mode ← field? database "ssl_mode" string?
  let known := mode.bind SslMode.ofName?
  let layer : Layer :=
    { dialectName := ← field? compare "dialect" string?
      objectTypes := kinds.map KindList.kinds
      detectRenames := ← field? compare "detect_renames" boolean?
      url := ← field? database "url" string?
      schema := ← field? database "schema" string?
      connectRetries := ← field? database "connect_retries" count?
      sslMode := known
      connectTimeout := ← field? database "connect_timeout" count?
      statementTimeout := ← field? database "statement_timeout" count?
      keepalive := ← field? database "keepalive" count?
      introspectTimeout := ← field? database "introspect_timeout" count?
      parallelThreshold := ← field? reading "parallel_threshold" natural? }
  let ssl := if known.isSome then [] else mode.toList.map sslWarning
  return ⟨layer, (kinds.map KindList.warnings).getD [] ++ ssl⟩

/-- The settings in the text of a file, if it is a document with values of the right types. -/
def ofText? (s : String) : Option Reading := (Toml.parse? s).bind ofEntries?

end SchemaDrift.Layer
