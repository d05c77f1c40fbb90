import SchemaDrift.Grammar.Clauses
import SchemaDrift.Grammar.KeyColumns
import SchemaDrift.Grammar.Partition

/-!
Clauses of MySQL: definers before objects, keys inside tables, and options after them.
-/

namespace SchemaDrift.Grammar.MySql

open Reader

def hosts : Unit → Reader Unit :=
  iterate (fun _ => do
    if ← symbol "@" then
      let _ ← optional value
      return some ()
    else return none)

def createOption : Reader Bool := do
  if ← keyword "DEFINER" then
    let _ ← symbol "="
    let _ ← optional value
    skipGroup
    hosts ()
    return true
  else if ← keyword "ALGORITHM" then
    let _ ← symbol "="
    skip
    return true
  else if ← keywords ["SQL", "SECURITY"] then
    skip
    return true
  else return false

def indexClause (i : Index) : Reader (Option Index) := do
  if ← keyword "ALGORITHM" then
    let _ ← optional assigned
    return some i
  else if ← keyword "LOCK" then
    let _ ← optional assigned
    return some i
  else if ← keyword "USING" then
    match ← optional identifier with
    | some method =>
        if sameKeyword method "btree" then return some i
        else return some { i with modifiers := i.modifiers ++ ["USING " ++ lowerCase method] }
    | none => return some i
  else if ← keyword "COMMENT" then
    match ← optional assigned with
    | some comment => return some { i with options := i.options.insert "COMMENT" comment }
    | none => return some i
  else if ← keyword "VISIBLE" then return some i
  else if ← keyword "INVISIBLE" then
    return some { i with modifiers := i.modifiers ++ ["INVISIBLE"] }
  else return none

/-- Whether `KEY` or `INDEX` opens a key and is not the name of a column. After the name of a
column comes a type, and the parameters of a type are numbers. -/
def startsKey (ts : List Token) : Bool :=
  (atKeyword "KEY" ts || atKeyword "INDEX" ts) &&
    match ts.tail with
    | [] => false
    | name :: ts =>
        if name.text == ['('] || name.isKeyword "USING" then true
        else if !name.isName then false
        else match ts with
          | [] => false
          | t :: ts => if t.text == ['('] then headIs Token.isName ts else t.isKeyword "USING"

def keyKind (ts : List Token) : Option IndexKind :=
  if atKeyword "FULLTEXT" ts then some .fulltext
  else if atKeyword "SPATIAL" ts then some .spatial
  else if startsKey ts then some .default
  else none

theorem startsKey_of_keyKind {ts : List Token} (h : keyKind ts = some .default) :
    startsKey ts = true := by
  unfold keyKind at h
  split at h
  · cases h
  split at h
  · cases h
  split at h
  · next hstarts => exact hstarts
  · cases h

/-- A key without a name is called after its first column. -/
def keyName (column : String) : String :=
  String.ofList (column.toList.takeWhile (fun c => c != ' ' && c != '('))

def keyOption (i : Index) : Reader Index := do
  match ← indexClause i with
  | some i => return i
  | none => return { i with options := ← looseOption i.options }

def tableElement (t : Table) : Reader (Option Table) := do
  match ← peek keyKind with
  | none => return none
  | some kind =>
      if kind ≠ .default then skip
      let _ ← oneOf ["KEY", "INDEX"]
      let unnamed := fun ts => atSymbol "(" ts || atKeyword "USING" ts
      let name ← if ← peek unnamed then pure none else optional identifier
      if ← keyword "USING" then skip
      match ← keyColumns with
      | [] => return none
      | first :: others =>
          let i := Index.new ⟨t.name.schema, name.getD (keyName first)⟩ t.name
          let i ← untilEnd keyOption { i with columns := first :: others, kind := kind }
          return some { t with indexes := t.indexes ++ [i] }

def optionalDefault (ts : List Token) : Bool :=
  atKeyword "DEFAULT" ts &&
    ["CHARSET", "CHARACTER", "COLLATE"].any (atKeyword · ts.tail)

/-- Records a value under a key, if there is one. -/
def assignedOption (t : Table) (key : String) : Reader (Option Table) := do
  match ← optional assigned with
  | some v => return some { t with options := t.options.insert key v }
  | none => return some t

/-- The next free number is a state of the table and no part of its definition. -/
def tableClause (t : Table) : Reader (Option Table) := do
  if ← peek optionalDefault then skip
  if ← keyword "ENGINE" then
    return some { t with storage := { t.storage with engine := ← optional assigned } }
  else if ← keyword "AUTO_INCREMENT" then
    let _ ← optional assigned
    return some t
  else if ← keyword "CHARSET" then assignedOption t "CHARSET"
  else if ← keywords ["CHARACTER", "SET"] then assignedOption t "CHARSET"
  else if ← keyword "COLLATE" then assignedOption t "COLLATE"
  else if ← keyword "COMMENT" then assignedOption t "COMMENT"
  else if ← keywords ["PARTITION", "BY"] then
    return some { t with storage := { t.storage with partition := ← optional partition } }
  else if ← keywords ["WITH", "SYSTEM", "VERSIONING"] then
    return some { t with versioning := { t.versioning with systemVersioned := true } }
  else return none

def clauses : Clauses :=
  { Clauses.common with
    createOption := createOption
    tableElement := tableElement
    tableClause := tableClause
    indexClause := indexClause }

end SchemaDrift.Grammar.MySql
