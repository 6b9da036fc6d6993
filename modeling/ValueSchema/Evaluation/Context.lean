/-
# Contexts and sessions

An evaluation is a tree of branches.  A *branch* knows which types and functions it is inside of,
which values the parameters of the functions around it have, and the nodes that led to it.  A
*context* is a branch with the depth that is left to it; what lies deeper is unknown.

All branches of a *session* share what has been learned: the schemas of types, the definitions,
and how often the depth did not suffice.
-/
import ValueSchema.Definition.Registry
import ValueSchema.Failure
import ValueSchema.Options
import ValueSchema.Program.Host
import ValueSchema.Schema.Basic

namespace ValueSchema

/-- What one branch of an evaluation knows. -/
structure Branch where
  /-- The types that are being converted. -/
  types : List TypeId := []
  /-- The functions that are being called. -/
  functions : List NodeId := []
  /-- The values of parameters; the latest stand first. -/
  bindings : Table SymbolId Schema := []
  /-- The nodes that led here, the innermost first. -/
  trail : List NodeId := []
deriving Inhabited

namespace Branch

/-- Inside a type. -/
def withType (b : Branch) (type : TypeId) : Branch := { b with types := type :: b.types }

/-- Inside a call of a function.  Later values of a parameter count. -/
def withFunction (b : Branch) (function : NodeId) (values : List (SymbolId × Schema)) : Branch :=
  { b with
    functions := function :: b.functions
    bindings := values.foldl (fun t v => t.put v.1 v.2) b.bindings }

/-- At a node. -/
def withTrace (b : Branch) (n : NodeId) : Branch := { b with trail := n :: b.trail }

/-- The nodes that led here, the outermost first. -/
def trace (b : Branch) : List NodeId := b.trail.reverse

/-- A branch that is inside of nothing. -/
def detached (b : Branch) : Branch := { trail := b.trail }

/-- Whether a type is being converted. -/
def isHandlingType (b : Branch) (type : TypeId) : Bool := b.types.contains type

/-- Whether a function is being called. -/
def isHandlingFunction (b : Branch) (function : NodeId) : Bool := b.functions.contains function

/-- The value of a parameter. -/
def binding? (b : Branch) (symbol : SymbolId) : Option Schema := b.bindings.get? symbol

/-- Whether any parameter has a value. -/
def hasBindings (b : Branch) : Bool := !b.bindings.isEmpty

end Branch

/-- A branch and the depth that is left to it. -/
structure Context where
  /-- How deep the evaluation may go from here. -/
  remaining : Nat
  /-- The branch. -/
  branch : Branch := {}
deriving Inhabited

namespace Context

/-- The context that an evaluation with given options starts in. -/
def start (options : Options) : Context := { remaining := options.maxDepth }

/-- A branch of a context; descending takes one from the depth. -/
def child (c : Context) (descend : Bool) : Context :=
  if descend then { c with remaining := c.remaining - 1 } else c

/-- The context without anything it is inside of. -/
def detached (c : Context) : Context := { c with branch := c.branch.detached }

/-- One deeper, inside a type. -/
def withType (c : Context) (type : TypeId) : Context :=
  { c.child true with branch := c.branch.withType type }

/-- One deeper, inside a call of a function. -/
def withFunction (c : Context) (function : NodeId) (values : List (SymbolId × Schema)) : Context :=
  { c.child true with branch := c.branch.withFunction function values }

/-- The context at a node. -/
def withTrace (c : Context) (n : NodeId) : Context := { c with branch := c.branch.withTrace n }

/-- Whether no depth is left. -/
def isExhausted (c : Context) : Bool := c.remaining == 0

end Context

/-- What all branches of an evaluation share. -/
structure Session where
  /-- The options of the evaluation. -/
  options : Options := {}
  /-- The schemas of types that have been converted. -/
  types : Table TypeId Schema := []
  /-- The definitions. -/
  definitions : Registry := {}
  /-- How often the depth did not suffice. -/
  degraded : Nat := 0
deriving Inhabited

/-- Why an evaluation stops without a result. -/
inductive Stop where
  /-- It failed. -/
  | failed (failure : Failure)
  /-- It followed definitions that lead back to themselves. -/
  | diverged
deriving Inhabited

/-- A computation in a session.  What the session has learned is kept if it stops. -/
abbrev Eval := ExceptT Stop (StateM Session)

namespace Eval

/-- Fails for a reason. -/
def fail {α : Type} (cause : Cause) : Eval α := throw (.failed ⟨cause, none⟩)

/-- Adds the place of a node to a failure in a computation. -/
def within {α : Type} (tree : Tree) (n : NodeId) (e : Eval α) : Eval α :=
  tryCatch e fun
    | .failed failure =>
      throw (.failed (failure.withContext (tree.location n) (tree.kindName n)))
    | .diverged => throw .diverged

/-- Nothing is known here, because the depth did not suffice. -/
def degrade : Eval Schema := do
  modify fun s => { s with degraded := s.degraded + 1 }
  return .unknown

/-- The options of the session. -/
def options : Eval Options := return (← get).options

/-- How many combinations of alternatives an operation may produce. -/
def cap : Eval Nat := return (← options).maxUnionExpansion

/-- The schema that was found for a type. -/
def cachedType? (type : TypeId) : Eval (Option Schema) := return (← get).types.get? type

/-- Remembers the schema of a type. -/
def cacheType (type : TypeId) (schema : Schema) : Eval Unit :=
  modify fun s => { s with types := s.types.put type schema }

end Eval

/-- How a step of an evaluation goes on: with the schemas of nodes and types one level deeper, and
of nodes inside a call, which is one more level deeper. -/
structure Evaluator where
  /-- The schema of a node. -/
  node : Branch → NodeId → Eval Schema
  /-- The schema of a type; the node that it is the type of may be given. -/
  type : Branch → TypeId → Option NodeId → Eval Schema
  /-- The schema of a node inside a called function. -/
  called : Branch → NodeId → Eval Schema

end ValueSchema
