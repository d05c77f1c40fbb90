import SchemaDrift.Grammar.Clauses
import SchemaDrift.Grammar.Partition

/-!
Clauses of DB2: table spaces, storage groups and quotas, tables for large objects, clustering
indexes and `WITH DEFAULT`.
-/

namespace SchemaDrift.Grammar.Db2

open Reader

def placementParts : List String → Reader (List String) :=
  iterate (fun parts => do
    if ← symbol "." then return some (parts ++ (← optional identifier).toList)
    else return none)

/-- `db.ts`, `DATABASE db` or a table space alone. -/
def placement : Reader String := do
  if ← keyword "DATABASE" then return "DATABASE " ++ (← identifier)
  else
    let parts ← placementParts [← identifier]
    return upperCase (← canonical (String.intercalate "." parts).toList)

def storageClause (s : Storage) : Reader (Option Storage) := do
  let stored : Reader (Option String) := optional (do optionValue (← value))
  if ← keywords ["USING", "STOGROUP"] then
    return some { s with stogroup := ← optional identifier }
  else if ← keyword "STOGROUP" then return some { s with stogroup := ← optional identifier }
  else if ← keywords ["USING", "VCAT"] then
    return some { s with stogroup := (← optional identifier).map ("VCAT " ++ ·) }
  else if ← keyword "PRIQTY" then return some { s with priqty := ← stored }
  else if ← keyword "SECQTY" then return some { s with secqty := ← stored }
  else return none

/-- The next word in capitals. The token is taken, whether it is a word or not. -/
def upperValue : Reader (Option String) := do
  let word ← peekUpper
  skip
  return word

/-- A number that fits 32 bits, in decimal digits, with or without a plus sign. -/
def partNumber (s : List Char) : Option Nat :=
  let digits := if s.head? = some '+' then s.tail else s
  if digits.isEmpty || !digits.all Char.isDigit then none
  else
    let n := digits.foldl (fun n c => 10 * n + (c.toNat - '0'.toNat)) 0
    if n ≤ 0xFFFFFFFF then some n else none

def createForm : Reader Object := do
  match ← oneOf ["AUX", "AUXILIARY", "LOB"] with
  | none => fail
  | some _ =>
      if !(← keyword "TABLE") then fail
      let name ← qualifiedName
      let place ← if ← keyword "IN" then optional placement else pure none
      if !(← keyword "STORES") then fail
      let base ← qualifiedName
      if !(← keyword "COLUMN") then fail
      let column ← identifier
      let part ← if ← keyword "PART" then pure ((← optional value).bind partNumber) else pure none
      return .auxiliaryTable ⟨name, place, base, column, part⟩

def tableClause (t : Table) : Reader (Option Table) := do
  match ← storageClause t.storage with
  | some s => return some { t with storage := s }
  | none =>
      if ← keyword "IN" then
        return some { t with storage := { t.storage with placement := ← optional placement } }
      else if ← keyword "AUDIT" then
        return some { t with storage := { t.storage with audit := ← upperValue } }
      else if ← keyword "CCSID" then
        return some { t with storage := { t.storage with ccsid := ← upperValue } }
      else if ← keywords ["PARTITION", "BY"] then
        return some { t with storage := { t.storage with partition := ← optional partition } }
      else if ← keywords ["DATA", "CAPTURE"] then
        return some { t with options := t.options.insert "DATA CAPTURE" ((← upperValue).getD "") }
      else return none

/-- A default without a value is the one that the type implies. -/
def columnClause (c : Column) : Reader (Option Column) := do
  if ← keywords ["WITH", "DEFAULT"] then
    let s ← sourceUntil columnClauseWords
    if s.isEmpty then return some { c with default := some "WITH DEFAULT" }
    else return some { c with default := (DefaultValue.ofText (← dialect) s).text? }
  else if ← keywords ["IMPLICITLY", "HIDDEN"] then
    return some { c with attributes := c.attributes ++ ["IMPLICITLY HIDDEN"] }
  else if ← keywords ["INLINE", "LENGTH"] then
    let size := String.ofList (← valueOr [])
    return some { c with attributes := c.attributes ++ ["INLINE LENGTH " ++ size] }
  else return none

def indexClause (i : Index) : Reader (Option Index) := do
  let modifier (m : String) : Option Index := some { i with modifiers := i.modifiers ++ [m] }
  match ← storageClause i.storage with
  | some s => return some { i with storage := s }
  | none =>
      if ← keywords ["NOT", "CLUSTER"] then return some i
      else if ← keywords ["NOT", "PADDED"] then return some i
      else if ← keyword "CLUSTER" then return modifier "CLUSTER"
      else if ← keyword "PARTITIONED" then return modifier "PARTITIONED"
      else if ← keyword "PADDED" then return modifier "PADDED"
      else if ← keyword "IN" then
        return some { i with storage := { i.storage with placement := ← optional placement } }
      else return none

def clauses : Clauses :=
  { Clauses.common with
    createForm := createForm
    tableClause := tableClause
    columnClause := columnClause
    indexClause := indexClause }

end SchemaDrift.Grammar.Db2
