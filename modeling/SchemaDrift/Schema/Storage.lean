import SchemaDrift.Schema.Constraint

/-!
Where and how the data of a table or an index is stored.
-/

namespace SchemaDrift

structure Partition where
  method : String
  key : String
  parts : List String
deriving DecidableEq, Repr, Inhabited

def Partition.text (p : Partition) : String :=
  "PARTITION BY " ++ p.method ++ " (" ++ p.key ++ ")" ++
    (if p.parts.isEmpty then "" else s!" [{p.parts.length} partitions]")

structure Storage where
  engine : Option String
  placement : Option String
  stogroup : Option String
  priqty : Option String
  secqty : Option String
  audit : Option String
  ccsid : Option String
  partition : Option Partition
deriving DecidableEq, Repr

namespace Storage

def empty : Storage := ⟨none, none, none, none, none, none, none, none⟩

instance : Inhabited Storage := ⟨empty⟩

def isEmpty (s : Storage) : Bool := s = empty

def describe (label : String) (before after : Option String) : String :=
  label ++ " changed from " ++ before.getD "(none)" ++ " to " ++ after.getD "(none)"

def change (label : String) (before after : Option String) : List String :=
  if before = after then [] else [describe label before after]

/-- What differs, field by field. Two partitionings may differ and read the same, since the text
only counts the parts. -/
def changes (a b : Storage) : List String :=
  change "engine" a.engine b.engine ++ change "placement" a.placement b.placement ++
    change "storage group" a.stogroup b.stogroup ++ change "PRIQTY" a.priqty b.priqty ++
    change "SECQTY" a.secqty b.secqty ++ change "audit" a.audit b.audit ++
    change "CCSID" a.ccsid b.ccsid ++
    if a.partition = b.partition then []
    else [describe "partitioning" (a.partition.map Partition.text) (b.partition.map Partition.text)]

end Storage

end SchemaDrift
