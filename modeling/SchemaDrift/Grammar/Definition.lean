import SchemaDrift.Grammar.Db2
import SchemaDrift.Grammar.Index
import SchemaDrift.Grammar.MySql
import SchemaDrift.Grammar.Postgres
import SchemaDrift.Grammar.Raw
import SchemaDrift.Grammar.Sqlite
import SchemaDrift.Grammar.Table
import SchemaDrift.Grammar.Trigger
import SchemaDrift.Grammar.View

/-!
Reading a statement as what it defines: an object, or changes to a table defined elsewhere. A
definition that is not understood is kept as text, and a statement that defines nothing gives
nothing.
-/

namespace SchemaDrift

inductive TableChange
  | addColumn (c : Column)
  | addConstraint (c : Constraint)
deriving DecidableEq

/-- `raw` is what a change is kept as when its table is not known. -/
inductive Definition
  | object (o : Object)
  | change (table : QualifiedName) (changes : List TableChange) (raw : RawStatement)
deriving DecidableEq

def Definition.toObject : Definition → Object
  | object o => o
  | change _ _ raw => .raw raw

namespace Grammar

open Reader

def Clauses.ofDialect : Dialect → Clauses
  | .postgres => Postgres.clauses
  | .mySql => MySql.clauses
  | .sqlite => Sqlite.clauses
  | .db2 => Db2.clauses

/-- What the words between `CREATE` and the type of an object say of it. -/
structure CreateOptions where
  unique : Bool
  indexKind : IndexKind
  materialized : Bool
deriving DecidableEq

def idleWords : List String :=
  ["TEMP", "TEMPORARY", "UNLOGGED", "GLOBAL", "LOCAL", "PUBLIC", "RECURSIVE", "CONSTRAINT"]

def createStep (o : CreateOptions) : Reader (Option CreateOptions) := do
  let took (o : CreateOptions) : Reader (Option CreateOptions) := do
    skip
    return some o
  match ← peekUpper with
  | some "UNIQUE" => took { o with unique := true }
  | some "FULLTEXT" => took { o with indexKind := .fulltext }
  | some "SPATIAL" => took { o with indexKind := .spatial }
  | some "MATERIALIZED" => took { o with materialized := true }
  | some word => if idleWords.contains word then took o else return none
  | none => return none

def dialectOptions (clauses : Clauses) : Unit → Reader Unit :=
  iterate (fun _ => do return if ← clauses.createOption then some () else none)

def create (clauses : Clauses) : Reader Object := do
  let _ ← keywords ["OR", "REPLACE"]
  dialectOptions clauses ()
  match ← attempt clauses.createForm with
  | some o => return o
  | none =>
      let o ← iterate createStep ⟨false, .default, false⟩
      match ← oneOf ["TABLE", "INDEX", "VIEW", "TRIGGER", "PROCEDURE", "FUNCTION", "ALIAS",
          "SYNONYM"] with
      | some "TABLE" => return .table (← table clauses)
      | some "INDEX" => return .index (← index clauses o.unique o.indexKind)
      | some "VIEW" => return .view (← view o.materialized)
      | some "TRIGGER" => return .trigger (← trigger)
      | some "PROCEDURE" => return .routine (← routine .procedure)
      | some "FUNCTION" => return .routine (← routine .function)
      | some _ => return .synonym (← synonym)
      | none => fail

/-- Words that after `ADD` begin neither a column nor a constraint. -/
def startsOtherAddition (ts : List Token) : Bool :=
  match upperWord? ts with
  | some word => ["KEY", "INDEX", "FULLTEXT", "SPATIAL", "PERIOD", "PARTITION"].contains word
  | none => false

/-- `ADD constraint` or `ADD [COLUMN] [IF NOT EXISTS] column` -/
def addition (clauses : Clauses) : Reader (List TableChange) := do
  if !(← keyword "ADD") then fail
  if ← peek startsConstraint then return [.addConstraint (← tableConstraint)]
  else if ← peek startsOtherAddition then fail
  else
    let _ ← keyword "COLUMN"
    let _ ← keywords ["IF", "NOT", "EXISTS"]
    let (c, lifted) ← column clauses 0
    return .addColumn c :: lifted.map .addConstraint

/-- What follows `ALTER`, when it only adds columns and constraints to one table. -/
def alter (clauses : Clauses) : Reader (QualifiedName × List TableChange) := do
  if !(← keyword "TABLE") then fail
  let _ ← keywords ["IF", "EXISTS"]
  let _ ← keyword "ONLY"
  let name ← qualifiedName
  let changes := (← eachOf (addition clauses) (Token.splitCommas (← peek id))).flatten
  if changes.isEmpty then fail
  return (name, changes)

end Grammar

namespace Definition

open Reader Grammar

def ofChars? (d : Dialect) (s : List Char) : Except Fault (Option Definition) := do
  let clauses := Clauses.ofDialect d
  match upperWord? (Token.lex d s) with
  | some "CREATE" =>
      match ← run? (do skip; create clauses) d s with
      | some o => return some (.object o)
      | none => return some (.object (.raw (← rawStatement d s)))
  | some "ALTER" =>
      let raw ← rawStatement d s
      match ← run? (do skip; alter clauses) d s with
      | some (name, changes) => return some (.change name changes raw)
      | none => return some (.object (.raw raw))
  | some "DROP" | some "RENAME" => return some (.object (.raw (← rawStatement d s)))
  | _ => return none

def ofStatement? (d : Dialect) (statement : String) : Except Fault (Option Definition) :=
  ofChars? d statement.toList

end Definition

/-- The object that a statement defines, a change to a table being kept as text. -/
def Object.ofStatement? (d : Dialect) (statement : String) : Except Fault (Option Object) := do
  return (← Definition.ofStatement? d statement).map Definition.toObject

end SchemaDrift
