import SchemaDrift.Plan.Details
import SchemaDrift.Plan.Order

/-!
Comparing two schema models. Objects are matched by key; a pair that differs is altered, or
dropped and created anew where its kind cannot be altered.
-/

namespace SchemaDrift

namespace Plan

def replacedDetail : String := "replaced by changed definition"

def targetSteps (detectRenames : Bool) (source : Model) (o : Object) (position : Nat) : List Step :=
  match source.get? o.key with
  | none => [.of .create o position []]
  | some before =>
      match Details.object detectRenames before o with
      | [] => []
      | details =>
          if o.kind.supportsAlter then
            [{ Step.of .alter o position details with previous := some before }]
          else
            [.of .drop before ((source.position? o.key).getD position) [replacedDetail],
              .of .create o position details]

def sourceSteps (target : Model) (o : Object) (position : Nat) : List Step :=
  if target.contains o.key then [] else [.of .drop o position []]

def steps (detectRenames : Bool) (source target : Model) : List Step :=
  target.objects.zipIdx.flatMap (fun o => targetSteps detectRenames source o.1 o.2) ++
    source.objects.zipIdx.flatMap (fun o => sourceSteps target o.1 o.2)

/-- The plan from one model to another. With `detectRenames`, a column that goes and one that
comes in its place with the same definition count as one that is renamed. -/
def between (detectRenames : Bool) (source target : Model) : Plan :=
  ⟨(Step.ordered (steps detectRenames source target)).map (·.operation)⟩

end Plan

end SchemaDrift
