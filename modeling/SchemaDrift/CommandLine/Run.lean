import SchemaDrift.CommandLine.Request
import SchemaDrift.Compare
import SchemaDrift.Report.Display

/-!
Running the program on arguments, an environment and files, all given as values.
-/

namespace SchemaDrift

namespace Error

/-- Two for what the user asked for, three for the paths named, four for the server. -/
def exitCode (e : Error) : Nat :=
  match e.topic with
  | .configuration | .dialect | .introspection => 2
  | .reading | .missingPath | .noSqlFiles => 3
  | .connection => 4
  | .identifier => 101

def hint? (e : Error) : Option String :=
  match e.topic with
  | .configuration | .dialect =>
      some ("Pass --dialect (postgres, mysql, sqlite, db2) " ++
        "or set dialect under [compare] in driftplan.toml.")
  | .missingPath | .noSqlFiles =>
      some "Paths may be .sql files or directories containing .sql files."
  | .introspection => some "Dump the schema to SQL and use 'driftplan compare' instead."
  | .connection => some "Verify database is running and connection details are correct."
  | .reading | .identifier => none

def lines (e : Error) : List String :=
  ("ERROR: " ++ e.message) :: (e.hint?.map ("Hint: " ++ ·)).toList

end Error

namespace CommandLine

/-- What a run leaves behind. Notices are for a user who wants to be told more. -/
structure Outcome where
  exitCode : Nat
  output : List String := []
  errors : List String := []
  notices : List String := []
deriving DecidableEq, Repr, Inhabited

namespace Outcome

def written (lines : List String) : String := String.join (lines.map (· ++ "\n"))

def outputText (o : Outcome) : String := written o.output

def errorText (o : Outcome) : String := written o.errors

end Outcome

def usage : List String := [
  "Usage: driftplan [OPTIONS] compare --source PATH... --target PATH... [COMPARISON]",
  "       driftplan [OPTIONS] compare-livedb URL TARGET... [DATABASE] [COMPARISON]",
  "",
  "Options:",
  "  -c, --config PATH        settings file, driftplan.toml if not given",
  "      --json               write the report as JSON",
  "  -q, --quiet              leave out what is not essential",
  "  -v, --verbose            tell more",
  "      --no-detect-renames  report a renamed column as dropped and added",
  "      --timeout SECS       limit on reading a live database, 0 for none",
  "",
  "Comparison:",
  "      --dialect NAME       postgres, mysql, sqlite or db2",
  "      --plan               write the operations alone",
  "      --object-types LIST  kinds of objects to compare, with commas between them",
  "",
  "Database:",
  "      --schema SCHEMA      schema to read, public if not given",
  "      --ssl-mode MODE      disable, prefer or require",
  "      --connect-retries N  how often to try again",
  "      --connect-timeout SECS"]

def Halt.outcome : Halt → Outcome
  | .help => { exitCode := 0, output := usage }
  | .version => { exitCode := 0, output := ["driftplan 0.1.0"] }
  | .misuse => { exitCode := 2, errors := usage }

namespace Request

def reportLines (r : Request) (report : Report) : List String :=
  if r.json then [report.json.text]
  else if r.planOnly then [report.plan.text]
  else report.lines r.quiet

def report (r : Request) (fs : FileSystem) (s : Settings) : Except Error Report :=
  match r.command with
  | .compare source target => Report.ofFiles fs s source target
  | .compareDatabase target => Report.ofDatabase fs s target

def run (r : Request) (fs : FileSystem) (env : Environment) : Outcome :=
  match Settings.load fs env r.configPath r.overrides with
  | .error e => { exitCode := e.exitCode, errors := e.lines }
  | .ok (settings, warnings) =>
      let notices := if r.json || r.quiet then [] else warnings
      match r.report fs settings with
      | .error e => { exitCode := e.exitCode, errors := e.lines, notices }
      | .ok report => { exitCode := 0, output := r.reportLines report, notices }

end Request

def run (fs : FileSystem) (env : Environment) (args : List String) : Outcome :=
  match Request.ofArguments args with
  | .error halt => halt.outcome
  | .ok r => r.run fs env

end CommandLine

end SchemaDrift
