import SchemaDrift.Schema.Object

/-!
What differs between two definitions of one object, in words. No difference that matters goes
without a detail.
-/

namespace SchemaDrift.Details

def changed {α : Type} [DecidableEq α] (a b : α) (detail : α → α → String) : List String :=
  if a = b then [] else [detail a b]

def fromTo (what : String) (before after : String) : String :=
  what ++ " changed from " ++ before ++ " to " ++ after

def optional (value : Option String) : String := value.getD "(none)"

def grouped (items : List String) : String := "(" ++ commaList items ++ ")"

def bracketed (items : List String) : String := "[" ++ String.intercalate " " items ++ "]"

def options (a b : Options) : List String :=
  a.entries.flatMap (fun e => match b.get? e.1 with
    | none => ["option " ++ e.1 ++ " removed"]
    | some v => changed e.2 v (fromTo ("option " ++ e.1))) ++
  b.entries.flatMap (fun e =>
    if (a.get? e.1).isSome then []
    else ["option " ++ e.1 ++ " added" ++ if e.2.isEmpty then "" else " (" ++ e.2 ++ ")"])

def index (a b : Index) : List String :=
  changed a.table b.table (fun s t => fromTo "table" s.text t.text) ++
  changed a.columns b.columns (fun s t => fromTo "columns" (grouped s) (grouped t)) ++
  changed a.unique b.unique (fun _ t => if t then "made unique" else "no longer unique") ++
  changed a.kind b.kind (fun s t => fromTo "kind" s.text t.text) ++
  changed a.modifiers b.modifiers (fun s t => fromTo "modifiers" (bracketed s) (bracketed t)) ++
  a.storage.changes b.storage ++ options a.options b.options

/-! Columns -/

def hasColumn (cs : List Column) (name : String) : Bool := cs.any (·.name == name)

/-- The columns of the first list whose names the second lacks. -/
def onlyIn (cs others : List Column) : List Column := cs.filter (fun c => !hasColumn others c.name)

/-- Names of columns of which one goes and one comes at the same place with the same definition. -/
def renames (dropped added : List Column) : List (String × String) :=
  dropped.filterMap (fun old =>
    (added.find? (fun new => new.ordinal == old.ordinal && new.sameDefinition old)).map
      (fun new => (old.name, new.name)))

def column (a b : Column) : List String :=
  let what (s : String) : String := "column " ++ a.name ++ " " ++ s
  (if a.dataType.sameAs b.dataType then []
    else [fromTo (what "type") a.dataType.raw b.dataType.raw]) ++
  changed a.nullable b.nullable (fun _ nullable =>
    what (if nullable then "changed from NOT NULL to nullable"
      else "changed from nullable to NOT NULL")) ++
  changed a.default b.default (fun s t => fromTo (what "default") (optional s) (optional t)) ++
  changed a.generation b.generation (fun s t => fromTo (what "generation") s.text t.text) ++
  changed a.attributes b.attributes (fun s t =>
    fromTo (what "attributes") (bracketed s) (bracketed t))

/-- The names that both sides have, in the order of the first. -/
def kept (cs others : List Column) : List String :=
  (cs.filter (fun c => hasColumn others c.name)).map (·.name)

def columns (detectRenames : Bool) (a b : List Column) : List String :=
  let dropped := onlyIn a b
  let added := onlyIn b a
  let renamed := if detectRenames then renames dropped added else []
  renamed.map (fun r => "column " ++ r.1 ++ " renamed to " ++ r.2) ++
  (dropped.filter (fun c => !(renamed.map Prod.fst).contains c.name)).map
    (fun c => "column dropped: " ++ c.name) ++
  (added.filter (fun c => !(renamed.map Prod.snd).contains c.name)).map
    (fun c => "column added: " ++ c.text) ++
  a.flatMap (fun old => match b.find? (·.name == old.name) with
    | some new => column old new
    | none => []) ++
  changed (kept a b) (kept b a) (fun s t => fromTo "column order" (grouped s) (grouped t))

/-! Tables -/

/-- Pairs every constraint with the first that is left and equivalent to it. The constraints of
either side that stay alone remain. -/
def unpaired : List Constraint → List Constraint → List Constraint × List Constraint
  | [], bs => ([], bs)
  | a :: as, bs =>
      if bs.any a.equivalent then unpaired as (bs.eraseP a.equivalent)
      else
        let alone := unpaired as bs
        (a :: alone.1, alone.2)

def constraints (a b : List Constraint) : List String :=
  let alone := unpaired a b
  alone.1.map (fun c => "constraint dropped: " ++ c.text) ++
  alone.2.map (fun c => "constraint added: " ++ c.text)

def indexes (a b : List Index) : List String :=
  a.flatMap (fun old => match b.find? (fun i => i.name = old.name) with
    | none => ["index dropped: " ++ old.name.text]
    | some new => (index old new).map (fun s => "index " ++ old.name.text ++ " " ++ s)) ++
  (b.filter (fun new => !a.any (fun i => i.name = new.name))).map
    (fun new => "index added: " ++ new.text)

def period : Option (String × String) → String
  | some (start, stop) => "(" ++ start ++ ", " ++ stop ++ ")"
  | none => "(none)"

def versioning (a b : Versioning) : List String :=
  changed a.systemTime b.systemTime (fun s t =>
    fromTo "system-time period" (period s) (period t)) ++
  changed a.systemVersioned b.systemVersioned (fun _ on =>
    if on then "system versioning enabled" else "system versioning disabled")

def table (detectRenames : Bool) (a b : Table) : List String :=
  columns detectRenames a.columns b.columns ++ constraints a.constraints b.constraints ++
  indexes a.indexes b.indexes ++ a.storage.changes b.storage ++
  versioning a.versioning b.versioning ++ options a.options b.options

/-! Other objects -/

def view (a b : View) : List String :=
  changed a.query b.query (fun _ _ => "query changed") ++
  changed a.materialized b.materialized (fun s t => fromTo "materialized" s!"{s}" s!"{t}") ++
  changed a.columns b.columns (fun s t => fromTo "column list" (grouped s) (grouped t))

def trigger (a b : Trigger) : List String :=
  let names (events : List Event) : String := commaList (events.map Event.text)
  changed a.table b.table (fun s t => fromTo "table" s.text t.text) ++
  changed a.timing b.timing (fun s t => fromTo "timing" s.text t.text) ++
  changed a.events b.events (fun s t => fromTo "events" (names s) (names t)) ++
  changed a.body b.body (fun _ _ => "body changed")

def routine (a b : Routine) : List String :=
  changed a.kind b.kind (fun s t => fromTo "routine kind" s.text t.text) ++
  changed a.body b.body (fun _ _ => "body changed")

def synonym (a b : Synonym) : List String :=
  changed a.target b.target (fun s t => fromTo "target" s.text t.text)

def virtualTable (a b : VirtualTable) : List String :=
  changed a.module b.module (fromTo "module") ++
  changed a.args b.args (fun s t => fromTo "module arguments" (grouped s) (grouped t))

def auxiliaryTable (a b : AuxiliaryTable) : List String :=
  let part (n : Option Nat) : String := optional (n.map toString)
  changed (a.baseTable, a.column) (b.baseTable, b.column) (fun s t =>
    fromTo "stored column" (s.1.text ++ "." ++ s.2) (t.1.text ++ "." ++ t.2)) ++
  changed a.placement b.placement (fun s t => fromTo "placement" (optional s) (optional t)) ++
  changed a.part b.part (fun s t => fromTo "partition" (part s) (part t))

def raw (a b : RawStatement) : List String :=
  changed a.text b.text (fun _ _ => "statement text changed")

/-- Two objects of different kinds differ altogether. -/
def object (detectRenames : Bool) : Object → Object → List String
  | .table a, .table b => table detectRenames a b
  | .view a, .view b => view a b
  | .index a, .index b => index a b
  | .trigger a, .trigger b => trigger a b
  | .routine a, .routine b => routine a b
  | .synonym a, .synonym b => synonym a b
  | .virtualTable a, .virtualTable b => virtualTable a b
  | .auxiliaryTable a, .auxiliaryTable b => auxiliaryTable a b
  | .raw a, .raw b => raw a b
  | _, _ => ["definition changed"]

end SchemaDrift.Details
