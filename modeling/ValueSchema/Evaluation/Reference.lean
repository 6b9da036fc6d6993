/-
# References during an evaluation

A reference stands for the body of its definition, which is converted when it is first needed.  The
conversion does not depend on the branch that needs it.
-/
import ValueSchema.Evaluation.Context

namespace ValueSchema.Evaluation

/-- The body of a registered definition, converted if need be; none while it is being converted. -/
def materialize (convert : TypeId → Eval Schema) (id : String) : Eval (Option Schema) := do
  let session ← get
  match session.definitions.ready? id with
  | some schema => return some schema
  | none =>
    match session.definitions.begin? id with
    | none => return none
    | some (body, definitions) =>
      set { session with definitions }
      let schema ← convert body
      modify fun s => { s with definitions := s.definitions.complete id schema }
      return some schema

/-- What a schema stands for: the body of the definition if it is a reference, and else itself.  A
reference whose definition is being converted stands for itself, and a type of the library for
anything. -/
def resolveReference (convert : TypeId → Eval Schema) (schema : Schema) : Eval Schema := do
  match schema with
  | .reference name _ id =>
    let session ← get
    if Entries.contains id session.definitions.entries then
      return (← materialize convert id).getD schema
    else if session.options.isWellKnown name then return .unknown
    else Eval.fail (.definitionNotFound id)
  | other => return other

/-- The conversion of a definition body: outside of everything. -/
def convertBody (e : Evaluator) (b : Branch) (body : TypeId) : Eval Schema :=
  e.type b.detached body none

/-- What a schema stands for, in a branch. -/
def resolve (e : Evaluator) (b : Branch) (schema : Schema) : Eval Schema :=
  resolveReference (convertBody e b) schema

/-- How many references may be followed on one path.  More than that many lead back to themselves:
each definition can be met at most once for each number of alternatives, and there is a bound on
those. -/
def unfoldings (host : Host) : Eval Nat :=
  return 66 * ((← get).definitions.entries.length + host.types.size + 2)

end ValueSchema.Evaluation
