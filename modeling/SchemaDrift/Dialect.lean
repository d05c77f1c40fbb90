import SchemaDrift.Text.Blank
import SchemaDrift.Text.Case

/-!
The SQL dialects and the lexical rules in which they differ.
-/

namespace SchemaDrift

/-- `postgres` also stands for SQL of no particular product. -/
inductive Dialect
  | postgres
  | mySql
  | sqlite
  | db2
deriving DecidableEq, Repr, Inhabited

namespace Dialect

def all : List Dialect := [postgres, mySql, sqlite, db2]

def name : Dialect → String
  | postgres => "postgres"
  | mySql => "mysql"
  | sqlite => "sqlite"
  | db2 => "db2"

def spellings : Dialect → List String
  | postgres => ["postgres", "postgresql", "pg", "generic"]
  | mySql => ["mysql", "mariadb"]
  | sqlite => ["sqlite", "sqlite3"]
  | db2 => ["db2", "db2z", "db2luw"]

/-- A spelling counts in any case and with white space around it. -/
def ofName? (s : String) : Option Dialect :=
  all.find? (fun d => d.spellings.contains (lowerCase (trimmed s)))

/-- The schema that an unqualified name is in, where the dialect fixes one. -/
def defaultSchema : Dialect → Option String
  | postgres => some "public"
  | _ => none

/-- Bodies written between `$tag$` and `$tag$`. -/
def dollarQuotes (d : Dialect) : Bool := d == postgres

def backslashEscapes (d : Dialect) : Bool := d == mySql

/-- Identifiers written as `[name]`. -/
def bracketIdentifiers (d : Dialect) : Bool := d == sqlite

/-- Comments from `#` to the end of the line. -/
def hashComments (d : Dialect) : Bool := d == mySql

/-- The client directive `DELIMITER token`. -/
def delimiterDirective (d : Dialect) : Bool := d == mySql

/-- The client directive `--#SET TERMINATOR token`. -/
def terminatorDirective (d : Dialect) : Bool := d == db2

end Dialect

end SchemaDrift
