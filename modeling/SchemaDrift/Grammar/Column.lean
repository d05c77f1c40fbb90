import SchemaDrift.Grammar.Clauses
import SchemaDrift.Grammar.Constraint
import SchemaDrift.Grammar.TypeName

/-!
Columns. A constraint written at a column is taken out of it, so that it reads the same as one
written as an element of the table.
-/

namespace SchemaDrift.Grammar

open Reader

/-- A column being read: the constraints taken out of it, and the name that waits for the next. -/
structure ColumnDraft where
  column : Column
  lifted : List Constraint
  pending : Option String
deriving DecidableEq, Repr

namespace ColumnDraft

def lift (r : ColumnDraft) (rule : Rule) (columns : List String) : ColumnDraft :=
  { r with lifted := r.lifted ++ [⟨r.pending, rule, columns, []⟩], pending := none }

def liftOwn (r : ColumnDraft) (rule : Rule) : ColumnDraft := r.lift rule [r.column.name]

def withAttribute (r : ColumnDraft) (clause : String) : ColumnDraft :=
  { r with column := { r.column with attributes := r.column.attributes ++ [clause] } }

def withGeneration (r : ColumnDraft) (g : Generation) : ColumnDraft :=
  { r with column := { r.column with generation := g } }

end ColumnDraft

/-- `GENERATED {ALWAYS | BY DEFAULT} AS …`, after the first word. -/
def generated (r : ColumnDraft) : Reader ColumnDraft := do
  if !(← keyword "ALWAYS") then
    let _ ← keywords ["BY", "DEFAULT"]
  if ← keywords ["AS", "IDENTITY"] then
    skipGroup
    return r.withGeneration .identity
  else if ← keywords ["AS", "ROW", "BEGIN"] then return r.withGeneration .rowStart
  else if ← keywords ["AS", "ROW", "START"] then return r.withGeneration .rowStart
  else if ← keywords ["AS", "ROW", "END"] then return r.withGeneration .rowEnd
  else if ← keywords ["AS", "TRANSACTION", "START", "ID"] then
    return r.withGeneration .transactionId
  else if ← keyword "AS" then
    let e ← canonicalExpression ((← optional groupText).getD [])
    let _ ← oneOf ["STORED", "VIRTUAL"]
    return r.withGeneration (.computed e)
  else if ← keywords
      ["FOR", "EACH", "ROW", "ON", "UPDATE", "AS", "ROW", "CHANGE", "TIMESTAMP"] then
    return r.withAttribute "ROW CHANGE TIMESTAMP"
  else return r.withAttribute "GENERATED"

/-- A clause that nothing models: a word, with what stands in parentheses after it. -/
def looseClause (r : ColumnDraft) (word : String) : Reader ColumnDraft := do
  match ← optional groupText with
  | some args => return r.withAttribute (word ++ "(" ++ (← canonical args) ++ ")")
  | none => return r.withAttribute word

def defaultClause (r : ColumnDraft) : Reader ColumnDraft := do
  let v := DefaultValue.ofText (← dialect) (← sourceUntil columnClauseWords)
  let c := { r.column with default := v.text? }
  return { r with column := if v = .identity then { c with generation := .identity } else c }

def clauseAfter (r : ColumnDraft) (word : String) : Reader ColumnDraft := do
  match word with
  | "NULL" => return { r with column := { r.column with nullable := true } }
  | "DEFAULT" => defaultClause r
  | "CONSTRAINT" => return { r with pending := ← optional identifier }
  | "UNIQUE" =>
      let _ ← keyword "KEY"
      return r.liftOwn .unique
  | "CHECK" => return r.lift (.check (← canonicalExpression ((← optional groupText).getD []))) []
  | "GENERATED" => generated r
  | "AS" =>
      let e ← canonicalExpression ((← optional groupText).getD [])
      let _ ← oneOf ["STORED", "VIRTUAL", "PERSISTENT"]
      return r.withGeneration (.computed e)
  | "AUTO_INCREMENT" | "AUTOINCREMENT" | "IDENTITY" =>
      skipGroup
      return r.withGeneration .identity
  | "COLLATE" => return r.withAttribute ("COLLATE " ++ (← canonical (← valueOr [])))
  | "COMMENT" => return r.withAttribute ("COMMENT " ++ String.ofList (← valueOr []))
  | "CHARACTER" | "CHARSET" =>
      let _ ← keyword "SET"
      return r.withAttribute ("CHARACTER SET " ++ (← canonical (← valueOr [])))
  | _ => looseClause r word

/-- One clause of a column. What is no word is passed over. -/
def columnStep (clauses : Clauses) (r : ColumnDraft) : Reader ColumnDraft := do
  match ← clauses.columnClause r.column with
  | some column => return { r with column := column }
  | none =>
      match ← peekUpper with
      | none =>
          skip
          return r
      | some "REFERENCES" => return r.liftOwn (.foreignKey (← references))
      | some word =>
          if ← keywords ["NOT", "NULL"] then
            return { r with column := { r.column with nullable := false } }
          else if ← keywords ["PRIMARY", "KEY"] then
            let _ ← oneOf ["ASC", "DESC"]
            return { r with column := { r.column with nullable := false } }.liftOwn .primaryKey
          else if ← keywords ["ON", "UPDATE"] then
            let e ← canonicalExpression (← sourceUntil columnClauseWords)
            return r.withAttribute ("ON UPDATE " ++ e)
          else
            skip
            clauseAfter r word

/-- Words that begin a clause directly after the name of a column that has no type. -/
def typelessMarkers : List String :=
  ["NOT", "NULL", "DEFAULT", "CONSTRAINT", "PRIMARY", "UNIQUE", "REFERENCES", "CHECK",
    "GENERATED", "AS", "COLLATE"]

def startsTypeless (ts : List Token) : Bool :=
  ts.isEmpty || typelessMarkers.any (atKeyword · ts) || headIs (fun t => t.kind == .symbol) ts

def columnType : Reader ParsedType := do
  if ← peek startsTypeless then return ⟨.none, false⟩ else typeName

/-- The columns that number themselves are never nullable, where the dialect says so. -/
def settle (d : Dialect) (c : Column) : Column :=
  if d = .postgres ∧ c.generation = .identity then { c with nullable := false } else c

def column (clauses : Clauses) (ordinal : Nat) : Reader (Column × List Constraint) := do
  let name ← identifier
  let t ← columnType
  let blank : Column := ⟨name, t.dataType, true, none, if t.serial then .identity else .plain,
    ordinal, []⟩
  let r ← untilEnd (columnStep clauses) ⟨blank, [], none⟩
  return (settle (← dialect) r.column, r.lifted)

end SchemaDrift.Grammar
