import SchemaDrift.Dialect
import SchemaDrift.Plan.Diff
import SchemaDrift.Text.Json

/-!
Reports on comparisons.
-/

namespace SchemaDrift

structure Subject where
  label : String
  model : Model

/-- `omittedKinds` are the kinds that the source side could not tell of. -/
structure Report where
  dialect : Dialect
  source : String
  target : String
  objectTypes : List Kind
  sourceObjects : Nat
  targetObjects : Nat
  plan : Plan
  warnings : List Warning
  omittedKinds : List Kind
deriving DecidableEq, Repr, Inhabited

namespace Report

def hasChanges (r : Report) : Bool := !r.plan.isEmpty

/-- Compares the objects of the given types. Warnings are kept whatever they are about, those of
the source side first. -/
def ofSubjects (d : Dialect) (kinds : List Kind) (detectRenames : Bool) (source target : Subject)
    (extra : List Warning) (omitted : List Kind) : Report :=
  let s := source.model.filter kinds
  let t := target.model.filter kinds
  { dialect := d
    source := source.label
    target := target.label
    objectTypes := kinds
    sourceObjects := s.size
    targetObjects := t.size
    plan := Plan.between detectRenames s t
    warnings := s.warnings ++ t.warnings ++ extra
    omittedKinds := omitted }

open Text (Json)

def optional (s : Option String) : Json :=
  match s with
  | some s => .string s
  | none => .null

def nameJson (n : QualifiedName) : Json :=
  .object [("schema", optional n.schema), ("name", .string n.name)]

def operationJson (o : Operation) : Json :=
  .object [("action", .string o.action.tag), ("kind", .string o.kind.tag),
    ("name", nameJson o.name), ("details", .array (o.details.map .string))]

def warningJson (w : Warning) : Json :=
  .object [("source", .string w.source), ("message", .string w.message)]

def kindsJson (ks : List Kind) : Json := .array (ks.map (fun k => .string k.tag))

def json (r : Report) : Json :=
  .object [("dialect", .string r.dialect.name), ("source", .string r.source),
    ("target", .string r.target), ("object_types", kindsJson r.objectTypes),
    ("source_objects", .number r.sourceObjects), ("target_objects", .number r.targetObjects),
    ("plan", .object [("operations", .array (r.plan.operations.map operationJson))]),
    ("has_changes", .boolean r.hasChanges), ("warnings", .array (r.warnings.map warningJson)),
    ("omitted_kinds", kindsJson r.omittedKinds)]

end Report

end SchemaDrift
