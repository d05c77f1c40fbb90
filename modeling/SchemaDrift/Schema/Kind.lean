import SchemaDrift.Text.Blank
import SchemaDrift.Text.Case
import SchemaDrift.Text.Pieces

/-!
The kinds of objects that a schema holds, and how a user may name them.
-/

namespace SchemaDrift

/-- `raw` is for statements kept as text. -/
inductive Kind
  | table
  | view
  | index
  | trigger
  | procedure
  | synonym
  | virtualTable
  | auxiliaryTable
  | raw
deriving DecidableEq, Repr, Inhabited

namespace Kind

def all : List Kind :=
  [table, view, index, trigger, procedure, synonym, virtualTable, auxiliaryTable, raw]

def displayName : Kind → String
  | table => "Table"
  | view => "View"
  | index => "Index"
  | trigger => "Trigger"
  | procedure => "Procedure"
  | synonym => "Alias"
  | virtualTable => "Virtual Table"
  | auxiliaryTable => "Auxiliary Table"
  | raw => "Raw SQL"

def tag : Kind → String
  | table => "table"
  | view => "view"
  | index => "index"
  | trigger => "trigger"
  | procedure => "procedure"
  | synonym => "alias"
  | virtualTable => "virtual_table"
  | auxiliaryTable => "auxiliary_table"
  | raw => "raw_unparsed"

def spellings : Kind → List String
  | table => ["table", "tables"]
  | view => ["view", "views"]
  | index => ["index", "indexes", "indices"]
  | trigger => ["trigger", "triggers"]
  | procedure => ["procedure", "procedures", "function", "functions", "routine", "routines"]
  | synonym => ["alias", "aliases", "synonym", "synonyms"]
  | virtualTable => ["virtualtable", "virtualtables"]
  | auxiliaryTable => ["auxtable", "auxtables", "auxiliarytable", "auxiliarytables"]
  | raw => ["raw", "rawunparsed", "unparsed", "other"]

/-- Case, hyphens, underscores and spaces do not count in the name of a kind. -/
def ofName? (name : String) : Option Kind :=
  let plain := String.ofList ((lowerCase (trimmed name)).toList.filter
    (fun c => !(c == '-' || c == '_' || c == ' ')))
  all.find? (fun k => k.spellings.contains plain)

/-- A changed object of another kind is dropped and created anew. -/
def supportsAlter : Kind → Bool
  | table | index | raw => true
  | _ => false

/-- Kinds that a view, an index or a foreign key can name. -/
def isRelation : Kind → Bool
  | table | view | virtualTable | auxiliaryTable | synonym => true
  | _ => false

theorem mem_all (k : Kind) : k ∈ all := by cases k <;> decide

end Kind

/-- The items between commas, blank ones apart. -/
def commaItems (s : String) : List String :=
  (Text.pieces ',' s.toList).map Text.trim |>.filter (fun item => !item.isEmpty)
    |>.map String.ofList

/-- What a list of kinds names, each kind once, and the items that name none. -/
structure KindList where
  kinds : List Kind
  unknown : List String
deriving DecidableEq, Repr

namespace KindList

def empty : KindList := ⟨[], []⟩

def add (l : KindList) (item : String) : KindList :=
  match Kind.ofName? item with
  | some k => if l.kinds.contains k then l else { l with kinds := l.kinds ++ [k] }
  | none => { l with unknown := l.unknown ++ [item] }

def ofItems (items : List String) : KindList := items.foldl add empty

def ofText (s : String) : KindList := ofItems (commaItems s)

def warnings (l : KindList) : List String :=
  l.unknown.map (fun item => s!"Ignoring unknown object type; name={item}")

end KindList

end SchemaDrift
