/-!
The data of a TOML document, and the rules by which its lines build tables: a table is opened
once, and what a value holds cannot be added to.
-/

namespace SchemaDrift.Toml

/-- How a table came to be: opened by a header, implied by the header of a table inside it, or
implied by a dotted key. A table written as a value is closed. -/
inductive Origin
  | header
  | implied
  | dotted
  | closed
deriving DecidableEq, Repr, Inhabited

/-- `tables` is an array of tables, each opened by a header of its own. The value of a float, a
date or a time is of no concern here. -/
inductive Node
  | string (s : String)
  | integer (n : Int)
  | float
  | boolean (b : Bool)
  | moment
  | array (items : List Node)
  | table (origin : Origin) (entries : List (String × Node))
  | tables (items : List (List (String × Node)))

abbrev Entries := List (String × Node)

namespace Entries

def get? (es : Entries) (k : String) : Option Node := es.lookup k

def put (k : String) (v : Node) : Entries → Entries
  | [] => [(k, v)]
  | e :: es => if e.1 == k then (k, v) :: es else e :: put k v es

def changeLast (f : Entries → Option Entries) : List Entries → Option (List Entries)
  | [] => none
  | [t] => (f t).map (fun t => [t])
  | t :: ts => (changeLast f ts).map (t :: ·)

/-- Adds a value under a dotted key. Tables that it passes come from dotted keys or are implied,
and the one that takes the value is from dotted keys. -/
def insert (key : String) (v : Node) : List String → Entries → Option Entries
  | [], es => if (es.get? key).isSome then none else some (es ++ [(key, v)])
  | p :: ps, es =>
      match es.get? p with
      | none => (insert key v ps []).map (fun t => es.put p (.table .dotted t))
      | some (.table .dotted t) =>
          (insert key v ps t).map (fun t => es.put p (.table .dotted t))
      | some (.table .implied t) =>
          if ps.isEmpty then none
          else (insert key v ps t).map (fun t => es.put p (.table .implied t))
      | some (.tables ts) =>
          if ps.isEmpty then none
          else (changeLast (insert key v ps) ts).map (fun ts => es.put p (.tables ts))
      | some _ => none

/-- Changes the table at a path of headers. Tables that are not there yet are implied. -/
def changeAt (f : Entries → Option Entries) : List String → Entries → Option Entries
  | [], es => f es
  | p :: ps, es =>
      match es.get? p with
      | none => (changeAt f ps []).map (fun t => es.put p (.table .implied t))
      | some (.table .closed _) => none
      | some (.table origin t) => (changeAt f ps t).map (fun t => es.put p (.table origin t))
      | some (.tables ts) => (changeLast (changeAt f ps) ts).map (fun ts => es.put p (.tables ts))
      | some _ => none

def openTable (key : String) (es : Entries) : Option Entries :=
  match es.get? key with
  | none => some (es.put key (.table .header []))
  | some (.table .implied t) => some (es.put key (.table .header t))
  | some _ => none

def openNext (key : String) (es : Entries) : Option Entries :=
  match es.get? key with
  | none => some (es.put key (.tables [[]]))
  | some (.tables ts) => some (es.put key (.tables (ts ++ [[]])))
  | some _ => none

end Entries

end SchemaDrift.Toml
