import SchemaDrift.Report.Basic
import SchemaDrift.Text.Grid

/-!
Reports for a reader at a terminal.
-/

namespace SchemaDrift.Report

def headerLines (r : Report) : List String :=
  let kinds := String.intercalate ", " (r.objectTypes.map Kind.displayName)
  [s!"Comparing {r.source} -> {r.target} ({r.dialect.name})"] ++
    (if r.objectTypes.isEmpty then [] else ["  Object types: " ++ kinds]) ++
    [s!"  Objects: {r.sourceObjects} source, {r.targetObjects} target", ""]

def operationRow (o : Operation) (position : Nat) : List String :=
  [toString position, o.action.text, o.kind.displayName, o.name.text,
    String.intercalate "\n" o.details]

def countLine (p : Plan) : String :=
  s!"{p.count .drop} to drop, {p.count .alter} to alter, {p.count .create} to create"

def planLines (p : Plan) : List String :=
  if p.isEmpty then [p.text]
  else
    Text.Grid.lines ["#", "Action", "Type", "Name", "Details"]
      ((p.operations.zipIdx 1).map (fun (o, i) => operationRow o i)) ++ [countLine p]

def warningLines (ws : List Warning) : List String :=
  if ws.isEmpty then []
  else ["", s!"Warnings ({ws.length}):"] ++ ws.map (fun w => "  ! " ++ w.text)

def lines (r : Report) (quiet : Bool) : List String :=
  (if quiet then [] else r.headerLines) ++ planLines r.plan ++ warningLines r.warnings

end SchemaDrift.Report
