/-
# Functions and calls

The schema of a function has the schemas of its parameters and the union of what it returns.  A
call is evaluated by evaluating the function with the arguments as the values of its parameters.
-/
import ValueSchema.Evaluation.Context
import ValueSchema.Schema.Union

namespace ValueSchema

namespace Schema

/-- What a promise promises; any other schema is itself. -/
def awaited : Schema → Schema
  | reference name [item] id =>
    if name = "Promise" ∨ name = "PromiseLike" then item else reference name [item] id
  | s => s

/-- What the alternatives of a schema promise. -/
def settled (s : Schema) : Schema := unionOf (s.alternatives.map awaited)

end Schema

namespace Evaluation

/-! ## Functions -/

/-- The return statements inside a node, outside of functions in it; at most `fuel` nodes deep. -/
def returnsWithin (t : Tree) (fuel : Nat) (n : NodeId) : List NodeId :=
  match fuel with
  | 0 => []
  | fuel + 1 =>
    (t.children n).flatMap fun child =>
      match t.form? child with
      | some (.returnStatement _) => [child]
      | some form => if form.isFunction then [] else returnsWithin t fuel child
      | none => []

/-- The return statements of a block, outside of functions in it, in the order of the source. -/
def returns (t : Tree) (block : NodeId) : List NodeId := returnsWithin t (t.size + 1) block

/-- What the body of a function yields. -/
def bodyResult (host : Host) (eval : NodeId → Eval Schema) (body : NodeId) : Eval Schema := do
  match host.tree.form? body with
  | some (.block _) =>
    match returns host.tree body with
    | [] => return .plain .void
    | statements => return Schema.unionOf (← statements.mapM eval)
  | _ => eval body

/-- What a function returns; a function that is asynchronous returns a promise. -/
def returnType (host : Host) (eval : NodeId → Eval Schema) (f : FunctionForm) :
    Eval (Option Schema) := do
  match f.body with
  | none => return none
  | some body =>
    let result ← bodyResult host eval body
    if f.isAsync then return some (.wellKnown "Promise" [result.settled]) else return some result

/-- A parameter of a function, with its name. -/
def namedParameter (host : Host) (e : Evaluator) (b : Branch) (parameter : NodeId) :
    Eval (String × Schema) :=
  return ((host.tree.declarationName? parameter).getD "arg", ← e.node b parameter)

/-- A function.  What a generator yields is left to its type. -/
def function (host : Host) (e : Evaluator) (b : Branch) (n : NodeId) : Eval (Option Schema) := do
  match host.tree.function? n with
  | none => return none
  | some f =>
    if f.isGenerator then return none
    else
      let parameters ← f.parameters.mapM (namedParameter host e b)
      let result ← returnType host (e.node b) f
      return some (.function parameters (result.getD .unknown))

/-- The promised value of an expression. -/
def await (e : Evaluator) (b : Branch) (expression : NodeId) : Eval Schema :=
  return (← e.node b expression).settled

/-! ## Callees -/

/-- The function that a declaration declares: itself, or the function that a constant is. -/
def functionOfDeclaration? (t : Tree) (declaration : NodeId) : Option NodeId :=
  match t.form? declaration with
  | some (.functionDeclaration _) | some (.methodDeclaration _) => some declaration
  | some (.variableDeclaration _ (some value) .const) =>
    let value := t.skipWrappers value
    if t.isFunction value then some value else none
  | _ => none

/-- The function that a callee denotes: itself, or the one that its name refers to. -/
def callee? (host : Host) (callee : NodeId) : Option NodeId :=
  let callee := host.tree.skipWrappers callee
  match host.tree.form? callee with
  | some (.identifier _) =>
    (host.resolve callee).bind fun r => functionOfDeclaration? host.tree r.declaration
  | some form => if form.isFunction then some callee else none
  | none => none

/-! ## Arguments -/

/-- Whether a form is the spreading of an expression. -/
def isSpread : Form → Bool
  | .spreadElement _ => true
  | _ => false

/-- The elements of an array literal that is written out, without spreading in it. -/
def writtenElements? (t : Tree) (n : NodeId) : Option (List NodeId) :=
  match t.form? n with
  | some (.arrayLiteral elements) =>
    if elements.any fun x => (t.form? x).any isSpread then none else some elements
  | _ => none

/-- The arguments that one argument of a call stands for: itself, or what it spreads.  None if the
number of them is not known. -/
def argumentSchemas (host : Host) (e : Evaluator) (b : Branch) (argument : NodeId) :
    Eval (Option (List Schema)) := do
  match host.tree.form? argument with
  | some (.spreadElement expression) =>
    let source := host.tree.skipWrappers expression
    match writtenElements? host.tree source with
    | some elements => return some (← elements.mapM (e.node b))
    | none =>
      match ← e.node b source with
      | .tuple items flags => return if flags.all (· = .required) then some items else none
      | _ => return none
  | _ => return some [← e.node b argument]

/-- The arguments of a call by position.  None if the number of them is not known; evaluation ends
there. -/
def positionalArguments (host : Host) (e : Evaluator) (b : Branch) :
    List NodeId → Eval (Option (List Schema))
  | [] => return some []
  | argument :: rest => do
    match ← argumentSchemas host e b argument with
    | none => return none
    | some schemas => return (← positionalArguments host e b rest).map (schemas ++ ·)

/-- The value of a parameter in a call.  An argument that is missing or `undefined` gives way to the
initial value of the parameter, and a rest parameter takes the remaining arguments. -/
def parameterArgument (host : Host) (e : Evaluator) (b : Branch) (parameter : NodeId)
    (position : Nat) (arguments : List Schema) : Eval (Option Schema) := do
  match host.tree.form? parameter with
  | some (.parameter _ value isRest) =>
    if isRest then return some (.tupleOf (arguments.drop position))
    else
      match arguments[position]?, value with
      | some argument, some value =>
        if argument.isUndefined then return some (← e.node b value) else return some argument
      | some argument, none => return some argument
      | none, some value => return some (← e.node b value)
      | none, none => return some .undefined
  | _ => return none

/-- The value of a parameter in a call, with the symbol of the parameter. -/
def boundParameter (host : Host) (e : Evaluator) (b : Branch) (arguments : List Schema)
    (parameter : NodeId × Nat) : Eval (Option (SymbolId × Schema)) := do
  match host.symbolOfDeclaration parameter.1 with
  | none => return none
  | some symbol =>
    return (← parameterArgument host e b parameter.1 parameter.2 arguments).map ((symbol, ·))

/-- The values of the parameters of a function in a call. -/
def boundParameters (host : Host) (e : Evaluator) (b : Branch) (f : FunctionForm)
    (arguments : List Schema) : Eval (List (SymbolId × Schema)) :=
  return (← f.parameters.zipIdx.mapM (boundParameter host e b arguments)).filterMap id

/-- A call.  An unknown function, a generator, a function that is being called already, or
arguments of unknown number leave the call to its type. -/
def call (host : Host) (e : Evaluator) (b : Branch) (callee : NodeId) (arguments : List NodeId) :
    Eval (Option Schema) := do
  match callee? host callee with
  | none => return none
  | some function =>
    match host.tree.function? function with
    | none => return none
    | some f =>
      if f.isGenerator || b.isHandlingFunction function then return none
      else
        match ← positionalArguments host e b arguments with
        | none => return none
        | some arguments =>
          let values ← boundParameters host e b f arguments
          returnType host (e.called (b.withFunction function values)) f

end Evaluation

end ValueSchema
