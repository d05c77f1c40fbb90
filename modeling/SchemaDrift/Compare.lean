import SchemaDrift.Catalog
import SchemaDrift.Report.Basic
import SchemaDrift.Settings.Load
import SchemaDrift.Sources

/-!
The comparisons: scripts with scripts, and a live database with scripts.
-/

namespace SchemaDrift.Report

def pathsLabel (paths : List String) : String := String.intercalate ", " paths

def subjectOf (d : Dialect) (paths : List String) (scripts : List Script) :
    Except Error Subject := do
  return ⟨pathsLabel paths, ← orFault (Model.ofScripts d scripts)⟩

/-- Compares the scripts of two sides. Both are read before any of them is understood. -/
def ofFiles (fs : FileSystem) (s : Settings) (source target : List String) :
    Except Error Report := do
  let d ← s.dialect
  let sourceScripts ← Script.ofPaths fs .source source
  let targetScripts ← Script.ofPaths fs .target target
  let sourceSide ← subjectOf d source sourceScripts
  let targetSide ← subjectOf d target targetScripts
  return ofSubjects d s.objectTypes s.detectRenames sourceSide targetSide [] []

def liveDialect (s : Settings) : Except Error Dialect := do
  match ← s.dialect with
  | .postgres => return .postgres
  | d => throw (.notIntrospectable d)

/-- The warning that some kinds are compared as if the database held none of them. -/
def omissionWarnings (kinds : List Kind) : List Warning :=
  if kinds.isEmpty then []
  else
    let names := String.intercalate ", " (kinds.map Kind.displayName)
    [⟨Catalog.liveSource,
      "not introspected, target objects of these kinds appear as creates: " ++ names⟩]

def rawCount (kinds : List Kind) (m : Model) : Nat :=
  if kinds.isEmpty || kinds.contains .raw then m.objects.countP (fun o => o.kind = .raw) else 0

def rawWarnings (count : Nat) : List Warning :=
  if count = 0 then []
  else
    [⟨Catalog.liveSource, s!"{count} raw SQL statement(s) in the target " ++
      "cannot be introspected and appear as creates"⟩]

def liveLabel (schema : String) : String := s!"{Catalog.liveSource} (schema {schema})"

/-- Compares a live schema with the schema that scripts define. What a catalog does not tell of is
warned about. -/
def ofLive (d : Dialect) (s : Settings) (live : Model) (target : Subject) : Report :=
  let omitted := Catalog.omittedAmong s.objectTypes
  let raw := rawCount s.objectTypes target.model
  ofSubjects d s.objectTypes s.detectRenames ⟨liveLabel s.database.schema, live⟩ target
    (omissionWarnings omitted ++ rawWarnings raw) (omitted ++ if raw = 0 then [] else [.raw])

def ofCatalog (fs : FileSystem) (s : Settings) (c : Catalog) (target : List String) :
    Except Error Report := do
  let d ← liveDialect s
  let scripts ← Script.ofPaths fs .target target
  let live ← orFault (c.model d)
  return ofLive d s live (← subjectOf d target scripts)

/-- Compares the database at the URL of the settings with scripts. No server can be reached from
here, so that the most that comes of it is to know that all else is in order. -/
def ofDatabase (fs : FileSystem) (s : Settings) (target : List String) : Except Error Report := do
  let _ ← liveDialect s
  let _ ← Script.ofPaths fs .target target
  let _ ← s.connectionString
  throw (.unreachable .source "no connection to a server is available")

end SchemaDrift.Report
