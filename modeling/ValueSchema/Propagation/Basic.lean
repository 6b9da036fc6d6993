/-
# Propagation of arguments

With which arguments is a function called?  Where the arguments of a call depend on parameters of a
function around it, the calls of that function are found first, and their arguments put in the place
of the parameters.

Functions are resolved along a guarded path: a function that calls itself, directly or through
others, leaves the call that closes the cycle symbolic.
-/
import ValueSchema.Guard
import ValueSchema.Propagation.CallSite
import ValueSchema.Schema.Equality

namespace ValueSchema

/-- Why arguments of a call stay symbolic. -/
inductive Obstacle where
  /-- A spread argument has an unknown number of elements. -/
  | unknownLength
  /-- The arguments depend on something else than parameters of functions around the call. -/
  | foreignInputs
  /-- The function around the call is called by itself, or the chain of calls is too long. -/
  | recursiveChain
  /-- The function around the call is not called. -/
  | neverCalled
  /-- The arguments depend on parameters of several functions. -/
  | severalOwners
  /-- The calls of the function around the call do not have concrete arguments. -/
  | symbolicOwner
deriving DecidableEq, Repr, Inhabited

/-- The description of an obstacle. -/
def Obstacle.text : Obstacle → String
  | unknownLength => "spread argument with unknown length"
  | foreignInputs => "unresolved inputs are not parameters of an enclosing function"
  | recursiveChain => "recursive call chain"
  | neverCalled => "enclosing function is never called"
  | severalOwners => "holes owned by multiple functions"
  | symbolicOwner => "arguments remain symbolic after propagation"

/-- How the arguments of a call were found. -/
inductive Resolution where
  /-- They are concrete where the call stands. -/
  | concrete
  /-- They are concrete with the arguments of a call of the function around them. -/
  | propagated
  /-- They are not concrete. -/
  | symbolic (obstacle : Obstacle)
deriving DecidableEq, Repr, Inhabited

/-- A call of a function with one choice of arguments. -/
structure ResolvedCall where
  /-- The call. -/
  call : NodeId
  /-- The arguments. -/
  arguments : List Schema
  /-- The parameters of the function. -/
  parameters : List FormalParameter
  /-- How the arguments were found. -/
  resolution : Resolution
deriving Inhabited

namespace Propagation

/-- How far the resolution of calls has come. -/
structure Progress where
  /-- The session that arguments are evaluated in. -/
  session : Session
  /-- The path of functions that are being resolved. -/
  guard : Guard NodeId := { limit := maxDepth }
  /-- The calls of functions that have been resolved. -/
  resolved : Table NodeId (List ResolvedCall) := []

/-- A computation that resolves calls.  Its progress is kept if it stops. -/
abbrev Resolve := ExceptT Stop (StateM Progress)

namespace Resolve

/-- An evaluation as a part of the resolution. -/
def ofEval {α : Type} (e : Eval α) : Resolve α := fun p =>
  let (outcome, session) := e p.session
  (outcome, { p with session })

/-- Runs a computation and leaves a function after it, also if it stops. -/
def thenLeave {α : Type} (function : NodeId) (r : Resolve α) : Resolve α := fun p =>
  let (outcome, p) := r p
  (outcome, { p with guard := p.guard.leave function })

/-- The function is left, whatever the outcome is. -/
@[simp] theorem guard_thenLeave {α : Type} (function : NodeId) (r : Resolve α) (p : Progress) :
    (thenLeave function r p).2.guard = (r p).2.guard.leave function := rfl

end Resolve

/-! ## One call -/

/-- What a parameter stands for in a call with given arguments. -/
def argumentFor (host : Host) (c : Context) (arguments : List Schema)
    (parameter : FormalParameter × Nat) : Eval (NodeId × Schema) := do
  let value ← Evaluation.parameterArgument host (c.evaluator host) c.branch parameter.1.declaration
    parameter.2 arguments
  return (parameter.1.declaration, value.getD ((arguments[parameter.2]?).getD .undefined))

/-- What the parameters of a function stand for in a call with given arguments. -/
def argumentsFor (host : Host) (c : Context) (parameters : List FormalParameter)
    (arguments : List Schema) : Eval (Table NodeId Schema) :=
  return (← parameters.zipIdx.mapM (argumentFor host c arguments)).foldl
    (fun t e => t.put e.1 e.2) []

/-- The arguments of a call site, with schemas in the place of parameters. -/
def instantiate (cap : Nat) (site : CallSite) (values : Table NodeId Schema) : List Schema :=
  site.arguments.map fun a => Schema.refold cap (a.substitute values.get?)

/-- How arguments were found that come from calls of the first owner of a call site. -/
def propagatedResolution (site : CallSite) (arguments : List Schema) : Resolution :=
  if 1 < site.owners.length then .symbolic .severalOwners
  else if arguments.all Schema.isConcrete then .propagated
  else .symbolic .symbolicOwner

/-- A call site whose arguments stay as they are. -/
def asWritten (parameters : List FormalParameter) (site : CallSite) (resolution : Resolution) :
    ResolvedCall :=
  ⟨site.call, site.arguments, parameters, resolution⟩

/-- A call site with the arguments of one call of its owner. -/
def throughCall (host : Host) (c : Context) (parameters ownerParameters : List FormalParameter)
    (site : CallSite) (ownerCall : ResolvedCall) : Eval ResolvedCall := do
  let values ← argumentsFor host c ownerParameters ownerCall.arguments
  let arguments := instantiate (← Eval.cap) site values
  return ⟨site.call, arguments, parameters, propagatedResolution site arguments⟩

/-- What is known of a call site without looking at the calls of its owner; else the owner. -/
def settled? (site : CallSite) : Resolution ⊕ NodeId :=
  if !site.isPositional then .inl (.symbolic .unknownLength)
  else if site.arguments.all Schema.isConcrete then .inl .concrete
  else
    match site.owners with
    | [] => .inl (.symbolic .foreignInputs)
    | owner :: _ => .inr owner

/-- The calls that a call site stands for.  `calls` gives those of a function, unless it is being
resolved already. -/
def resolveSite (host : Host) (c : Context) (found : Callees)
    (calls : NodeId → Resolve (Option (List ResolvedCall))) (parameters : List FormalParameter)
    (site : CallSite) : Resolve (List ResolvedCall) := do
  match settled? site with
  | .inl resolution => return [asWritten parameters site resolution]
  | .inr owner =>
    match ← calls owner with
    | none => return [asWritten parameters site (.symbolic .recursiveChain)]
    | some [] => return [asWritten parameters site (.symbolic .neverCalled)]
    | some ownerCalls =>
      let ownerParameters := ((found.get? owner).getD {}).parameters
      ownerCalls.mapM fun call =>
        Resolve.ofEval (throughCall host c parameters ownerParameters site call)

/-! ## All calls -/

/-- Adds a call, unless there is one with equal arguments. -/
def addCall (calls : List ResolvedCall) (call : ResolvedCall) : List ResolvedCall :=
  if calls.any fun known => Schema.equalAll known.arguments call.arguments then calls
  else calls ++ [call]

/-- The calls that several call sites stand for. -/
def resolveSites (resolveSite : CallSite → Resolve (List ResolvedCall)) (sites : List CallSite) :
    Resolve (List ResolvedCall) :=
  sites.foldlM (fun calls site => return (← resolveSite site).foldl addCall calls) []

/-- The calls of a function; none if it is on the path already or the path is too long.  The path is
shorter than `fuel`. -/
def resolveFunction (host : Host) (c : Context) (found : Callees) (fuel : Nat) (function : NodeId) :
    Resolve (Option (List ResolvedCall)) := do
  match fuel with
  | 0 => return none
  | fuel + 1 =>
    let progress ← get
    match progress.resolved.get? function with
    | some calls => return some calls
    | none =>
      let (answer, guard) := progress.guard.enter function
      set { progress with guard }
      match answer with
      | .cycle | .depthExceeded => return none
      | .entered =>
        let callee := (found.get? function).getD {}
        let site := resolveSite host c found (resolveFunction host c found fuel) callee.parameters
        let calls ← Resolve.thenLeave function (resolveSites site callee.sites)
        modify fun p => { p with resolved := p.resolved.put function calls }
        return some calls

/-- The calls of the function that a symbol declares, with all arguments that are known for them. -/
def functionCalls (host : Host) (c : Context) (symbol : SymbolId) : Eval (List ResolvedCall) := do
  match host.declarationOfSymbol symbol with
  | none => Eval.fail (.missingDeclaration ("symbol " ++ toString symbol.index))
  | some declaration =>
    match Evaluation.functionOfDeclaration? host.tree declaration with
    | none => Eval.fail (.unexpectedSchema "function" (host.tree.kindName declaration))
    | some function =>
      let found ← discover host c function symbol
      let (outcome, progress) :=
        resolveFunction host c found (maxDepth + 1) function { session := ← get }
      set progress.session
      match outcome with
      | .ok calls => return calls.getD []
      | .error stop => throw stop

end Propagation

end ValueSchema
