import SchemaDrift.Identifier

/-!
The errors that end a comparison.
-/

namespace SchemaDrift

inductive Side
  | source
  | target
deriving DecidableEq, Repr, Inhabited

def Side.text : Side → String
  | source => "source"
  | target => "target"

inductive Error
  | noDialect
  | unsupportedDialect (name : String)
  | noUrl
  | unknownSslMode (text : String)
  | emptyIdentifier
  | invalidIdentifier (name : String)
  | missingConfig (path : String)
  | malformedConfig (path : String)
  | notUtf8
  | missingPath (side : Side) (path : String)
  | noSqlFiles (side : Side) (path : String)
  | notIntrospectable (d : Dialect)
  | unreachable (side : Side) (reason : String)
  | fault (f : Fault)
deriving DecidableEq, Repr

inductive Error.Topic
  | configuration
  | dialect
  | reading
  | missingPath
  | noSqlFiles
  | introspection
  | connection
  | identifier
deriving DecidableEq, Repr, Inhabited

namespace Error

def topic : Error → Topic
  | noDialect | noUrl | unknownSslMode _ | emptyIdentifier | invalidIdentifier _
  | missingConfig _ | malformedConfig _ => .configuration
  | unsupportedDialect _ => .dialect
  | notUtf8 => .reading
  | missingPath .. => .missingPath
  | noSqlFiles .. => .noSqlFiles
  | notIntrospectable _ => .introspection
  | unreachable .. => .connection
  | fault _ => .identifier

def problem : Error → String
  | noDialect => "No dialect given. Pass --dialect or set [compare] dialect in driftplan.toml."
  | unsupportedDialect name =>
      let names := String.intercalate ", " (Dialect.all.map Dialect.name)
      s!"Unsupported dialect '{name}'. Supported: {names}"
  | noUrl => "Database URL is required"
  | unknownSslMode text =>
      s!"Invalid SSL mode '{text}'. Use 'disable', 'prefer', or 'require'."
  | emptyIdentifier => "Identifier cannot be empty"
  | invalidIdentifier name =>
      s!"Identifier '{name}' contains invalid characters. Only [a-zA-Z0-9_] are allowed."
  | missingConfig path => s!"Config file '{path}' not found"
  | malformedConfig path => s!"Failed to parse config file '{path}'"
  | notUtf8 => "stream did not contain valid UTF-8"
  | missingPath side path => s!"{side.text} path '{path}' does not exist"
  | noSqlFiles side path => s!"{side.text} directory '{path}' contains no .sql files"
  | notIntrospectable d => s!"Live introspection is not available for dialect '{d.name}'"
  | unreachable side reason => s!"Connection error ({side.text}): {reason}"
  | fault (.splitsCharacter text) =>
      s!"The outermost bytes of identifier '{text}' are not characters of their own"

def message (e : Error) : String :=
  match e.topic with
  | .configuration => "Configuration error: " ++ e.problem
  | .reading => "IO error: " ++ e.problem
  | _ => e.problem

end Error

/-- A result that only an identifier can keep from being there. -/
def orFault {α : Type} (r : Except Fault α) : Except Error α := r.mapError .fault

end SchemaDrift
