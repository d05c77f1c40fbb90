import SchemaDrift.Schema.Name

/-!
Constraints of tables.
-/

namespace SchemaDrift

def commaList (items : List String) : String := String.intercalate ", " items

structure ForeignKey where
  table : QualifiedName
  columns : List String
  onDelete : Option String
  onUpdate : Option String
deriving DecidableEq, Repr, Inhabited

inductive Rule
  | primaryKey
  | unique
  | foreignKey (target : ForeignKey)
  | check (expression : String)
deriving DecidableEq, Repr, Inhabited

/-- `modifiers` holds what follows the rule, such as `DEFERRABLE`, in capitals. -/
structure Constraint where
  name : Option String
  rule : Rule
  columns : List String
  modifiers : List String
deriving DecidableEq, Repr, Inhabited

namespace Constraint

/-- A name that only one side has does not count: a catalog names what a script leaves unnamed. -/
def namesAgree : Option String → Option String → Bool
  | some a, some b => a == b
  | _, _ => true

def equivalent (a b : Constraint) : Bool :=
  namesAgree a.name b.name && a.rule == b.rule && a.columns == b.columns &&
    a.modifiers == b.modifiers

def actionText (event : String) : Option String → String
  | some action => " ON " ++ event ++ " " ++ action
  | none => ""

def ruleText (columns : List String) : Rule → String
  | .primaryKey => "PRIMARY KEY (" ++ commaList columns ++ ")"
  | .unique => "UNIQUE (" ++ commaList columns ++ ")"
  | .foreignKey k =>
      "FOREIGN KEY (" ++ commaList columns ++ ") REFERENCES " ++ k.table.text ++
        (if k.columns.isEmpty then "" else " (" ++ commaList k.columns ++ ")") ++
        actionText "DELETE" k.onDelete ++ actionText "UPDATE" k.onUpdate
  | .check e => "CHECK (" ++ e ++ ")"

def text (c : Constraint) : String :=
  (match c.name with
    | some n => "CONSTRAINT " ++ n ++ " "
    | none => "") ++ ruleText c.columns c.rule ++ String.join (c.modifiers.map (" " ++ ·))

end Constraint

end SchemaDrift
