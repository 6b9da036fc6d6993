/-
# Call sites

The calls of a function, with their arguments as far as they are known where the call stands.  An
argument may depend on parameters of functions around the call; these functions are the *owners*
of the call, and their own calls tell more about the argument.

Discovery starts from one function and collects its call sites, those of their owners, and so on.
-/
import ValueSchema.Evaluation.Request
import ValueSchema.Schema.Origin

namespace ValueSchema

/-- A call of a function. -/
structure CallSite where
  /-- The call. -/
  call : NodeId
  /-- Its arguments, evaluated where it stands. -/
  arguments : List Schema
  /-- The functions around the call whose parameters the arguments depend on, in the order of the
  source. -/
  owners : List NodeId
  /-- Whether the position of each argument is known. -/
  isPositional : Bool
deriving Inhabited

/-- A parameter of a function. -/
structure FormalParameter where
  /-- The node that declares it. -/
  declaration : NodeId
  /-- Its symbol. -/
  symbol : Option SymbolId
  /-- Its name; empty if it has none. -/
  name : String
deriving DecidableEq, Repr, Inhabited

/-- What has been found out about a function. -/
structure Callee where
  /-- Its parameters. -/
  parameters : List FormalParameter := []
  /-- Its call sites. -/
  sites : List CallSite := []
deriving Inhabited

namespace Propagation

/-- How far the owners of calls are followed. -/
def maxDepth : Nat := 32

/-! ## Finding calls -/

/-- Whether a node is a call with the given callee. -/
def isCallOf (t : Tree) (callee call : NodeId) : Bool :=
  match t.form? call with
  | some (.call target _) => target == callee
  | _ => false

/-- The call that a name is the callee of: directly, or as the name of a member. -/
def callOf? (t : Tree) (name : NodeId) : Option NodeId := do
  let parent ← t.parent? name
  match t.form? parent with
  | some (.call callee _) => if callee = name then some parent else none
  | some (.propertyAccess _ member) =>
    if member = name then (t.parent? parent).filter (isCallOf t parent) else none
  | _ => none

/-- The calls of a symbol, each once, in the order of its references. -/
def callsOf (host : Host) (symbol : SymbolId) : List NodeId :=
  ((host.references symbol).filterMap (callOf? host.tree)).eraseDups

/-- The function that declares a parameter, if it stands around a call. -/
def owner? (t : Tree) (call input : NodeId) : Option NodeId :=
  match t.form? input with
  | some (.parameter ..) =>
    (t.parent? input).filter fun f => t.isFunction f && t.isAncestor f call
  | _ => none

/-- The functions around a call whose parameters some schemas depend on, in the order of the
source. -/
def ownersOf (t : Tree) (call : NodeId) (arguments : List Schema) : List NodeId :=
  let owners := ((arguments.flatMap Schema.inputs).filterMap (owner? t call)).eraseDups
  owners.mergeSort fun a b => (t.span a).start ≤ (t.span b).start

/-- An argument of a call, without regard to what it spreads. -/
def plainArgument (t : Tree) (argument : NodeId) : NodeId :=
  match t.form? argument with
  | some (.spreadElement expression) => expression
  | _ => argument

/-- A call with its arguments. -/
def callSite (host : Host) (c : Context) (call : NodeId) (arguments : List NodeId) :
    Eval CallSite := do
  match ← Evaluation.positionalArguments host (c.evaluator host) c.branch arguments with
  | some schemas => return ⟨call, schemas, ownersOf host.tree call schemas, true⟩
  | none =>
    let schemas ← (arguments.map (plainArgument host.tree)).mapM (c.schemaOfNode host)
    return ⟨call, schemas, ownersOf host.tree call schemas, false⟩

/-- The arguments of a call. -/
def argumentsOf (t : Tree) (call : NodeId) : List NodeId :=
  match t.form? call with
  | some (.call _ arguments) => arguments
  | _ => []

/-- The call sites of a symbol. -/
def callSites (host : Host) (c : Context) (symbol : SymbolId) : Eval (List CallSite) :=
  (callsOf host symbol).mapM fun call => callSite host c call (argumentsOf host.tree call)

/-! ## Functions -/

/-- Whether a form is a parenthesis or a type assertion. -/
def isWrapper : Form → Bool
  | .parenthesized _ | .typeAssertion _ => true
  | _ => false

/-- The symbol that a function is called by: its own, or that of the variable it is the initial
value of. -/
def symbolOfFunction? (host : Host) (function : NodeId) : Option SymbolId :=
  (host.symbolOfDeclaration function).or <| do
    let outer ← host.tree.findAncestor? (fun f => !isWrapper f) function
    match host.tree.form? outer with
    | some (.variableDeclaration ..) => host.symbolOfDeclaration outer
    | _ => none

/-- A parameter, from the node that declares it. -/
def formalParameter (host : Host) (declaration : NodeId) : FormalParameter :=
  ⟨declaration, host.symbolOfDeclaration declaration,
    (host.tree.declarationName? declaration).getD ""⟩

/-- The parameters of a function. -/
def formalParameters (host : Host) (function : NodeId) : List FormalParameter :=
  match host.tree.function? function with
  | some f => f.parameters.map (formalParameter host)
  | none => []

/-! ## Discovery -/

/-- The functions that have been looked at. -/
abbrev Callees := Table NodeId Callee

/-- Looks at a function, by the symbol it is called by.  Its owners are added to those to be
looked at next. -/
def visit (host : Host) (c : Context) (found : Callees × List NodeId) (function : NodeId)
    (symbol : Option SymbolId) : Eval (Callees × List NodeId) := do
  if (found.1.get? function).isSome then return found
  else
    let sites ← match symbol with
      | some symbol => callSites host c symbol
      | none => pure []
    return (found.1.put function ⟨formalParameters host function, sites⟩,
      found.2 ++ sites.flatMap CallSite.owners)

/-- Looks at functions and follows their owners `depth` steps further. -/
def discoverFrom (host : Host) (c : Context) (depth : Nat) (functions : List NodeId)
    (found : Callees) : Eval Callees := do
  let (found, next) ← functions.foldlM
    (fun found f => visit host c found f (symbolOfFunction? host f)) (found, [])
  match depth with
  | 0 => return found
  | depth + 1 => if next.isEmpty then return found else discoverFrom host c depth next found

/-- Looks at a function with a symbol and at all owners that its calls lead to. -/
def discover (host : Host) (c : Context) (function : NodeId) (symbol : SymbolId) :
    Eval Callees := do
  let (found, next) ← visit host c ([], []) function (some symbol)
  discoverFrom host c (maxDepth - 1) next found

end Propagation

end ValueSchema
