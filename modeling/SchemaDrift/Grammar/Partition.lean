import SchemaDrift.Grammar.Value
import SchemaDrift.Schema.Storage

/-!
Partitionings: `[method] (key) [PARTITIONS n] [(part, …)]`.
-/

namespace SchemaDrift.Grammar

open Reader

def methodWords : List String → Reader (List String) :=
  iterate (fun words => do
    match ← peekUpper with
    | some word =>
        skip
        return some (words ++ [word])
    | none => return none)

def partCount : Reader (List String) := do
  if ← keyword "PARTITIONS" then
    match ← optional advance with
    | some t => return ["PARTITIONS " ++ String.ofList t.text]
    | none => return []
  else return []

def partList : Reader (List String) := do
  let d ← dialect
  match ← optional group with
  | some ts => return (Token.splitCommas ts).map (fun p => canonicalSql d (Token.span p))
  | none => return []

/-- A partitioning without a method is by range. -/
def partition : Reader Partition := do
  let method ← methodWords []
  let key ← canonical (← groupText)
  let count ← partCount
  let parts ← partList
  return ⟨if method.isEmpty then "RANGE" else String.intercalate " " method, key, count ++ parts⟩

def partitionOfText (d : Dialect) (s : String) : Except Fault (Option Partition) :=
  run? partition d s.toList

end SchemaDrift.Grammar
