/-
# The propagation of arguments respects simulations

The calls of a function are found by evaluations and a search around them.  The search keeps its
path and its table besides the session; with these as arguments and results it is a computation in
the session like any other, so simulations go through it: `Simulation.rel_functionCalls`.
-/
import ValueSchema.Proofs.Evaluation.Uniformity
import ValueSchema.Propagation.Basic

namespace ValueSchema

open Propagation

/-! ## The search as a computation in the session -/

namespace Propagation.Resolve

/-- The path and the table of a search. -/
abbrev Memory := Guard NodeId × Table NodeId (List ResolvedCall)

variable {α β : Type} (memory : Memory)

/-- A part of a search that starts with a path and a table. -/
def startedWith (memory : Memory) (r : Resolve α) : Eval (α × Memory) := fun s =>
  match r { session := s, guard := memory.1, resolved := memory.2 } with
  | (.ok a, p) => (.ok (a, p.guard, p.resolved), p.session)
  | (.error stop, p) => (.error stop, p.session)

lemma startedWith_bind (r : Resolve α) (f : α → Resolve β) :
    startedWith memory (r >>= f) =
      startedWith memory r >>= fun x => startedWith x.2 (f x.1) := by
  funext s
  rw [Run.bind_apply, startedWith, startedWith, Run.bind_apply]
  rcases r { session := s, guard := memory.1, resolved := memory.2 } with ⟨stop | a, p⟩ <;> rfl

lemma startedWith_ofEval (e : Eval α) :
    startedWith memory (ofEval e) = e >>= fun a => pure (a, memory) := by
  funext s
  rw [Run.bind_apply, startedWith, ofEval]
  rcases e s with ⟨stop | a, t⟩ <;> rfl

/-- The path after a search that stopped does not matter. -/
lemma startedWith_thenLeave (function : NodeId) (r : Resolve α) :
    startedWith memory (thenLeave function r) =
      startedWith memory r >>= fun x => pure (x.1, x.2.1.leave function, x.2.2) := by
  funext s
  rw [Run.bind_apply, startedWith, startedWith, thenLeave]
  rcases r { session := s, guard := memory.1, resolved := memory.2 } with ⟨stop | a, p⟩ <;> rfl

/-- How a function is resolved: from the table, not at all, or by its call sites. -/
lemma startedWith_resolveFunction (host : Host) (c : Context) (found : Callees) (fuel : Nat)
    (function : NodeId) :
    startedWith memory (resolveFunction host c found (fuel + 1) function) =
      match memory.2.get? function with
      | some calls => pure (some calls, memory)
      | none =>
        match (memory.1.enter function).1 with
        | .cycle | .depthExceeded => pure (none, (memory.1.enter function).2, memory.2)
        | .entered =>
          startedWith ((memory.1.enter function).2, memory.2)
            (thenLeave function (resolveSites
              (resolveSite host c found (resolveFunction host c found fuel)
                ((found.get? function).getD {}).parameters)
              ((found.get? function).getD {}).sites)) >>=
            fun x => pure (some x.1, x.2.1, x.2.2.put function x.1) := by
  funext s
  rw [startedWith, resolveFunction, Run.get_bind]
  dsimp only
  rcases memory.2.get? function with _ | calls
  · dsimp only
    rw [Run.set_bind]
    rcases (memory.1.enter function).1 with _ | _ | _
    · dsimp only
      rw [Run.bind_apply, Run.bind_apply, startedWith]
      dsimp only
      generalize thenLeave function (resolveSites _ _) _ = run
      rcases run with ⟨stop | calls, p⟩ <;> rfl
    · rfl
    · rfl
  · rfl

/-- The calls of a function that has been found, from an empty path and table. -/
lemma resolveFunction_eq (host : Host) (c : Context) (found : Callees) (function : NodeId) :
    (get >>= fun session =>
      set (resolveFunction host c found (maxDepth + 1) function { session }).2.session >>= fun _ =>
        match (resolveFunction host c found (maxDepth + 1) function { session }).1 with
        | .ok calls => pure (calls.getD [])
        | .error stop => throw stop : Eval (List ResolvedCall)) =
      startedWith ({ limit := maxDepth }, [])
        (resolveFunction host c found (maxDepth + 1) function) >>= fun x => pure (x.1.getD []) := by
  funext s
  rw [Run.get_bind, Run.set_bind, Run.bind_apply, startedWith]
  rcases resolveFunction host c found (maxDepth + 1) function _ with ⟨stop | calls, p⟩ <;> rfl

end Propagation.Resolve

namespace Simulation

open Propagation.Resolve

variable {host : Host} {S : Simulation host} {α β : Type}

/-- Parts of searches are alike if they are from every path and table. -/
def RelResolve (S : Simulation host) (r r' : Resolve α) : Prop :=
  ∀ memory, S.Rel (startedWith memory r) (startedWith memory r')

lemma resolve_pure (a : α) : S.RelResolve (Pure.pure a : Resolve α) (Pure.pure a) :=
  fun memory => S.pure (a, memory)

lemma resolve_bind {r r' : Resolve α} {f f' : α → Resolve β} (hr : S.RelResolve r r')
    (hf : ∀ a, S.RelResolve (f a) (f' a)) : S.RelResolve (r >>= f) (r' >>= f') := by
  intro memory
  rw [startedWith_bind, startedWith_bind]
  exact S.bind (hr memory) fun x => hf x.1 x.2

lemma resolve_ofEval {e e' : Eval α} (h : S.Rel e e') : S.RelResolve (ofEval e) (ofEval e') := by
  intro memory
  rw [startedWith_ofEval, startedWith_ofEval]
  exact map h

lemma resolve_thenLeave (function : NodeId) {r r' : Resolve α} (h : S.RelResolve r r') :
    S.RelResolve (thenLeave function r) (thenLeave function r') := by
  intro memory
  rw [startedWith_thenLeave, startedWith_thenLeave]
  exact map (h memory)

lemma resolve_mapM {items : List α} {f f' : α → Resolve β}
    (h : ∀ a, S.RelResolve (f a) (f' a)) : S.RelResolve (items.mapM f) (items.mapM f') := by
  induction items with
  | nil => exact resolve_pure []
  | cons a rest ih =>
    rw [List.mapM_cons, List.mapM_cons]
    exact resolve_bind (h a) fun b => resolve_bind ih fun _ => resolve_pure _

lemma resolve_foldlM {items : List α} {f f' : β → α → Resolve β}
    (h : ∀ b a, S.RelResolve (f b a) (f' b a)) (init : β) :
    S.RelResolve (items.foldlM f init) (items.foldlM f' init) := by
  induction items generalizing init with
  | nil => exact resolve_pure init
  | cons a rest ih =>
    rw [List.foldlM_cons, List.foldlM_cons]
    exact resolve_bind (h init a) fun b => ih b

/-! ## Call sites -/

section

variable {c c' : Context}

lemma rel_callSite (S : Simulation host) (hbranch : c'.branch = c.branch)
    (hdepth : c.remaining ≤ c'.remaining) (hc : S.domain.Fits c.branch)
    (call : NodeId) (arguments : List NodeId) :
    S.Rel (callSite host c call arguments) (callSite host c' call arguments) := by
  have h : S.Related c.branch (c.evaluator host) (c'.evaluator host) :=
    S.related_evaluator hdepth hc
  unfold callSite
  rw [hbranch]
  refine S.bind (rel_positionalArguments h arguments) fun o => ?_
  cases o with
  | some schemas => exact S.pure _
  | none =>
    refine map (mapM fun n => ?_)
    show S.Rel ((c.evaluator host).node c.branch n) ((c'.evaluator host).node c'.branch n)
    rw [hbranch]
    exact h.node n

lemma rel_visit (S : Simulation host) (hbranch : c'.branch = c.branch)
    (hdepth : c.remaining ≤ c'.remaining) (hc : S.domain.Fits c.branch)
    (found : Callees × List NodeId) (function : NodeId) (symbol : Option SymbolId) :
    S.Rel (visit host c found function symbol) (visit host c' found function symbol) := by
  unfold visit
  split
  · exact S.pure found
  · cases symbol with
    | none => exact S.pure _
    | some symbol => exact map (mapM fun call => S.rel_callSite hbranch hdepth hc call _)

lemma rel_discoverFrom (S : Simulation host) (hbranch : c'.branch = c.branch)
    (hdepth : c.remaining ≤ c'.remaining) (hc : S.domain.Fits c.branch)
    (depth : Nat) (functions : List NodeId) (found : Callees) :
    S.Rel (discoverFrom host c depth functions found)
      (discoverFrom host c' depth functions found) := by
  have hlevel : ∀ (functions : List NodeId) found,
      S.Rel (functions.foldlM (fun found f => visit host c found f (symbolOfFunction? host f)) found)
        (functions.foldlM (fun found f => visit host c' found f (symbolOfFunction? host f)) found) :=
    fun functions found => foldlM (fun found f => S.rel_visit hbranch hdepth hc found f _) found
  induction depth generalizing functions found with
  | zero =>
    unfold discoverFrom
    exact S.bind (hlevel functions _) fun _ => S.pure _
  | succ depth ih =>
    unfold discoverFrom
    refine S.bind (hlevel functions _) fun x => ?_
    dsimp only
    split
    · exact S.pure _
    · exact ih _ _

lemma rel_discover (S : Simulation host) (hbranch : c'.branch = c.branch)
    (hdepth : c.remaining ≤ c'.remaining) (hc : S.domain.Fits c.branch)
    (function : NodeId) (symbol : SymbolId) :
    S.Rel (discover host c function symbol) (discover host c' function symbol) :=
  S.bind (S.rel_visit hbranch hdepth hc _ function _) fun _ =>
    S.rel_discoverFrom hbranch hdepth hc _ _ _

/-! ## Calls -/

lemma rel_throughCall (S : Simulation host) (hbranch : c'.branch = c.branch)
    (hdepth : c.remaining ≤ c'.remaining) (hc : S.domain.Fits c.branch)
    (parameters ownerParameters : List FormalParameter) (site : CallSite) (call : ResolvedCall) :
    S.Rel (throughCall host c parameters ownerParameters site call)
      (throughCall host c' parameters ownerParameters site call) := by
  have h : S.Related c.branch (c.evaluator host) (c'.evaluator host) :=
    S.related_evaluator hdepth hc
  refine S.bind (map (mapM fun p => ?_)) fun _ => map cap
  unfold argumentFor
  rw [hbranch]
  exact map (rel_parameterArgument h _ _ _)

lemma resolve_resolveSite (S : Simulation host) (hbranch : c'.branch = c.branch)
    (hdepth : c.remaining ≤ c'.remaining) (hc : S.domain.Fits c.branch) (found : Callees)
    {calls calls' : NodeId → Resolve (Option (List ResolvedCall))}
    (hcalls : ∀ f, S.RelResolve (calls f) (calls' f)) (parameters : List FormalParameter)
    (site : CallSite) :
    S.RelResolve (resolveSite host c found calls parameters site)
      (resolveSite host c' found calls' parameters site) := by
  unfold resolveSite
  split
  · exact resolve_pure _
  · refine resolve_bind (hcalls _) fun o => ?_
    split
    · exact resolve_pure _
    · exact resolve_pure _
    · exact resolve_mapM fun call =>
        resolve_ofEval (S.rel_throughCall hbranch hdepth hc _ _ site call)

/-- The induction is on the length that is left to the path. -/
lemma resolve_resolveFunction (S : Simulation host) (hbranch : c'.branch = c.branch)
    (hdepth : c.remaining ≤ c'.remaining) (hc : S.domain.Fits c.branch)
    (found : Callees) (fuel : Nat) (function : NodeId) :
    S.RelResolve (resolveFunction host c found fuel function)
      (resolveFunction host c' found fuel function) := by
  induction fuel generalizing function with
  | zero => exact resolve_pure none
  | succ fuel ih =>
    intro memory
    rw [startedWith_resolveFunction, startedWith_resolveFunction]
    split
    · exact S.pure _
    · split
      · exact S.pure _
      · exact S.pure _
      · refine map (resolve_thenLeave function (resolve_foldlM (fun calls site => ?_) []) _)
        exact resolve_bind (S.resolve_resolveSite hbranch hdepth hc found ih _ site) fun _ =>
          resolve_pure _

/-- The calls of a function are alike if the second search may go at least as deep. -/
theorem rel_functionCalls (S : Simulation host) (hbranch : c'.branch = c.branch)
    (hdepth : c.remaining ≤ c'.remaining) (hc : S.domain.Fits c.branch) (symbol : SymbolId) :
    S.Rel (functionCalls host c symbol) (functionCalls host c' symbol) := by
  unfold functionCalls
  split
  · exact S.throw _
  · split
    · exact S.throw _
    · refine S.bind (S.rel_discover hbranch hdepth hc _ symbol) fun found => ?_
      have hcalls := S.resolve_resolveFunction hbranch hdepth hc found (maxDepth + 1) ‹_›
        ({ limit := maxDepth }, [])
      have hrel := map hcalls (f := fun x => x.1.getD [])
      rw [← resolveFunction_eq, ← resolveFunction_eq] at hrel
      exact hrel

end

end Simulation

end ValueSchema
