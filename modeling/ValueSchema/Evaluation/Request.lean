/-
# Requests

What can be asked of a program in a context: the schema of a node, of a type, or what a reference
stands for, and the complete evaluation of an entry.  A complete evaluation also converts every
definition that the schema leads to, and leaves out those that are not needed.
-/
import ValueSchema.Definition.Reduction
import ValueSchema.Evaluation.Basic

namespace ValueSchema

/-- What is evaluated. -/
inductive Entry where
  /-- A node. -/
  | node (n : NodeId)
  /-- A type; the node that it is the type of may be given. -/
  | type (id : TypeId) (node : Option NodeId)
deriving DecidableEq, Repr, Inhabited

namespace Context

/-- The evaluator with the depth that is left to a context. -/
def evaluator (c : Context) (host : Host) : Evaluator := Evaluation.evaluator host c.remaining

/-- The schema of a node. -/
def schemaOfNode (c : Context) (host : Host) (n : NodeId) : Eval Schema :=
  (c.evaluator host).node c.branch n

/-- The schema of a type. -/
def convertType (c : Context) (host : Host) (id : TypeId) (node : Option NodeId) : Eval Schema :=
  (c.evaluator host).type c.branch id node

/-- What a schema stands for. -/
def resolve (c : Context) (host : Host) (schema : Schema) : Eval Schema :=
  Evaluation.resolve (c.evaluator host) c.branch schema

/-- The schema of an entry. -/
def schemaOfEntry (c : Context) (host : Host) : Entry → Eval Schema
  | .node n => c.schemaOfNode host n
  | .type id node => c.convertType host id node

/-- Converts a definition that waits. -/
def convertDefinition (c : Context) (host : Host) (id : String) : Eval Unit := do
  let _ ← Evaluation.materialize (Evaluation.convertBody (c.evaluator host) c.branch) id

/-- Converts the definitions that wait, and then those that they lead to, for some rounds. -/
def convertDefinitions (c : Context) (host : Host) (rounds : Nat) : Eval Unit := do
  match (← get).definitions.pending with
  | [] => return
  | ids =>
    match rounds with
    | 0 => throw .diverged
    | rounds + 1 =>
      ids.forM (c.convertDefinition host)
      c.convertDefinitions host rounds

/-- Evaluates an entry.  Each round converts a definition at least, and there is at most one for
each type besides those that the session has already. -/
def evaluate (c : Context) (host : Host) (entry : Entry) : Eval Bundle := do
  let root ← c.schemaOfEntry host entry
  c.convertDefinitions host (host.types.size + (← get).definitions.entries.length)
  let session ← get
  return Bundle.reduce ⟨root, session.definitions.readyDefinitions⟩
    session.options.inlineSingleUseDefinitions

end Context

end ValueSchema
