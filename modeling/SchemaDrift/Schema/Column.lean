import SchemaDrift.Schema.Name

/-!
Columns and their types. Two types are the same when their families and parameters are: how a
type is spelled is kept for display only.
-/

namespace SchemaDrift

inductive TypeFamily
  | tinyInt
  | smallInt
  | integer
  | bigInt
  | decimal
  | real
  | float
  | double
  | boolean
  | char
  | varchar
  | text
  | binary
  | varbinary
  | blob
  | clob
  | date
  | time
  | timestamp
  | timestampTz
  | interval
  | json
  | uuid
  | xml
  | other (name : String)
deriving DecidableEq, Repr, Inhabited

/-- `params` holds lengths, precisions and modifiers such as `UNSIGNED`, `raw` the type as
written. -/
structure DataType where
  family : TypeFamily
  params : List String
  raw : String
deriving DecidableEq, Repr, Inhabited

namespace DataType

def unspelled (t : DataType) : DataType := { t with raw := "" }

def sameAs (s t : DataType) : Bool := s.unspelled = t.unspelled

/-- The type of a column that is declared without one. -/
def none : DataType := ⟨.other "", [], ""⟩

theorem sameAs_iff (s t : DataType) :
    s.sameAs t = true ↔ s.family = t.family ∧ s.params = t.params := by
  simp [sameAs, unspelled]

end DataType

/-- How the values of a column come about. -/
inductive Generation
  | plain
  | identity
  | rowStart
  | rowEnd
  | transactionId
  | computed (expression : String)
deriving DecidableEq, Repr, Inhabited

def Generation.text : Generation → String
  | plain => "none"
  | identity => "identity"
  | rowStart => "row-start"
  | rowEnd => "row-end"
  | transactionId => "transaction-id"
  | computed e => "computed(" ++ e ++ ")"

/-- `ordinal` is the place in the table, from one; `attributes` holds the clauses that have no
field of their own. -/
structure Column where
  name : String
  dataType : DataType
  nullable : Bool
  default : Option String
  generation : Generation
  ordinal : Nat
  attributes : List String
deriving DecidableEq, Repr, Inhabited

namespace Column

def unspelled (c : Column) : Column := { c with dataType := c.dataType.unspelled }

/-- The same in all but name and place. -/
def sameDefinition (a b : Column) : Bool :=
  a.dataType.sameAs b.dataType && a.nullable == b.nullable && a.default == b.default &&
    a.generation == b.generation && a.attributes == b.attributes

def text (c : Column) : String :=
  c.name ++ " " ++ c.dataType.raw ++ (if c.nullable then "" else " NOT NULL") ++
    (match c.default with
      | some e => " DEFAULT " ++ e
      | none => "") ++
    (if c.generation = .plain then "" else " [" ++ c.generation.text ++ "]") ++
    String.join (c.attributes.map (" " ++ ·))

end Column

end SchemaDrift
