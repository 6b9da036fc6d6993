/-
# The path of a resolution

Whatever its outcome, the resolution of a function uses the guard like a search that comes back,
`visiting_resolveFunction`.  Each function that it enters it leaves again, also if an evaluation stops in
between; so a function is never taken for recursive because of another one that has failed.

With the histories of guards, this says what the path of a resolution is at any time,
`guard_keeps_path`.
-/
import ValueSchema.Program.Basic
import ValueSchema.Proofs.Evaluation.Run
import ValueSchema.Proofs.Guard
import ValueSchema.Propagation.Basic

namespace ValueSchema.Propagation

/-! ## Parts of the resolution -/

/-- A part of the resolution that uses the guard like a search that comes back, also if it stops. -/
def Visiting {α : Type} (r : Resolve α) : Prop :=
  ∀ p : Progress, p.guard.Visits (r p).2.guard

namespace Visiting

variable {α β : Type}

lemma pure (a : α) : Visiting (Pure.pure a : Resolve α) := fun p => .stay p.guard

lemma ofEval (e : Eval α) : Visiting (Resolve.ofEval e) := fun p => .stay p.guard

lemma bind {r : Resolve α} {f : α → Resolve β} (hr : Visiting r) (hf : ∀ a, Visiting (f a)) :
    Visiting (r >>= f) := by
  intro p
  have hfirst := hr p
  rw [Run.bind_apply]
  rcases hrun : r p with ⟨stop | a, q⟩
  · rw [hrun] at hfirst
    exact hfirst
  · rw [hrun] at hfirst
    exact hfirst.next (hf a q)

lemma mapM {f : α → Resolve β} (h : ∀ a, Visiting (f a)) (items : List α) :
    Visiting (items.mapM f) := by
  induction items with
  | nil => exact pure []
  | cons a rest ih =>
    rw [List.mapM_cons]
    exact (h a).bind fun b => ih.bind fun _ => pure _

lemma foldlM {f : β → α → Resolve β} (h : ∀ b a, Visiting (f b a)) (items : List α) (init : β) :
    Visiting (items.foldlM f init) := by
  induction items generalizing init with
  | nil => exact pure init
  | cons a rest ih =>
    rw [List.foldlM_cons]
    exact (h init a).bind ih

end Visiting

section

variable (host : Host) (c : Context) (found : Callees)

lemma visiting_resolveSite {calls : NodeId → Resolve (Option (List ResolvedCall))}
    (hcalls : ∀ f, Visiting (calls f)) (parameters : List FormalParameter) (site : CallSite) :
    Visiting (resolveSite host c found calls parameters site) := by
  unfold resolveSite
  split
  · exact .pure _
  · refine (hcalls _).bind fun o => ?_
    split
    · exact .pure _
    · exact .pure _
    · exact .mapM (fun _ => .ofEval _) _

/-- The guard lets a function in, its call sites are resolved, and it is left, in this order.  The
induction is on the length that is left to the path. -/
theorem visiting_resolveFunction (fuel : Nat) (function : NodeId) :
    Visiting (resolveFunction host c found fuel function) := by
  induction fuel generalizing function with
  | zero => exact .pure none
  | succ fuel ih =>
    intro p
    rw [resolveFunction, Run.get_bind]
    rcases p.resolved.get? function with _ | calls
    · dsimp only
      rw [Run.set_bind]
      rcases hanswer : (p.guard.enter function).1 with _ | _ | _
      · -- what follows the call sites only changes the table
        have hsites : Visiting (resolveSites (resolveSite host c found
            (resolveFunction host c found fuel) ((found.get? function).getD {}).parameters)
            ((found.get? function).getD {}).sites) :=
          .foldlM (fun _ site => (visiting_resolveSite host c found ih _ site).bind
            fun _ => .pure _) _ _
        have hleft := Guard.Visits.inside hanswer
          (hsites { p with guard := (p.guard.enter function).2 })
        rw [← Resolve.guard_thenLeave] at hleft
        dsimp only
        rw [Run.bind_apply]
        rcases hrun : Resolve.thenLeave function _ _ with ⟨stop | calls, q⟩
        · rw [hrun] at hleft
          exact hleft
        · rw [hrun] at hleft
          exact hleft
      · exact .refused (by simp [hanswer])
      · exact .refused (by simp [hanswer])
    · exact .stay p.guard

end

/-! ## The path at any time -/

/-- What the history of a guard tells of it, and that the resolution of a function is a part of such
a history in which it comes back.

* If a key is only left when it is the innermost one of those that are held, the path consists of the
  keys that are held, each once.  The active keys are those of the path, which never becomes longer
  than its limit.  A key is said to close a cycle if and only if it is on the path, and the cycle is
  then the rest of the path from it on; it is refused for the depth if and only if it is not on the
  path and the path is full.  Refusing a key does not change the path.  The limit counts as reached if
  and only if a key has been refused for the depth.
* Whatever the outcome of a resolution is, the path and the active functions are the same afterwards;
  and where the guard has had such a history, the resolution continues it and holds no function in the
  end that was not held before. -/
theorem guard_keeps_path :
    (∀ {α : Type} [DecidableEq α] {limit : Nat} {log : List (Guard.Event α)} {g : Guard α},
      g.After limit log →
        g.path = Guard.held log ∧ g.path.Nodup ∧ g.depth ≤ limit ∧
        (∀ key, g.isActive key = true ↔ key ∈ g.path) ∧
        (∀ key, (g.enter key).1 = .cycle ↔ key ∈ g.path) ∧
        (∀ key, (g.enter key).1 = .depthExceeded ↔ key ∉ g.path ∧ g.depth = limit) ∧
        (∀ key, (g.enter key).1 ≠ .entered → (g.enter key).2.path = g.path) ∧
        (∀ key, key ∉ g.path → g.cycleFrom key = []) ∧
        (∀ outer inner : List α, ∀ key, g.path = outer ++ key :: inner →
          g.cycleFrom key = key :: inner) ∧
        (g.exceeded = true ↔ ∃ key, .enter key .depthExceeded ∈ log)) ∧
    ∀ (host : Host) (c : Context) (found : Callees) (fuel : Nat) (function : NodeId)
      (p q : Progress) (outcome : Except Stop (Option (List ResolvedCall))),
      resolveFunction host c found fuel function p = (outcome, q) →
        q.guard.path = p.guard.path ∧ (∀ key, q.guard.isActive key = p.guard.isActive key) ∧
        ∀ limit log, p.guard.After limit log →
          ∃ more, q.guard.After limit (more ++ log) ∧
            Guard.held (more ++ log) = Guard.held log := by
  refine ⟨fun {α _ limit log g} hg => ?_, fun host c found fuel function p q outcome hrun => ?_⟩
  · have hreflects := hg.reflects
    exact ⟨hreflects.path_eq, hreflects.nodup, hreflects.depth_le, hreflects.isActive_iff,
      hreflects.enter_eq_cycle_iff, hreflects.enter_eq_depthExceeded_iff,
      fun key hrefused => (Guard.samePath_enter hrefused).path,
      fun key hkey => Guard.cycleFrom_of_notMem hkey,
      fun outer inner key hpath => hreflects.cycleFrom_eq hpath, hreflects.exceeded_iff⟩
  · have hvisits := visiting_resolveFunction host c found fuel function p
    rw [hrun] at hvisits
    exact ⟨hvisits.samePath.path, hvisits.samePath.isActive, fun limit log hp => hvisits.after hp⟩

/-- A resolution that fails: `function foo(n) {}  function bar(x = ({})) { foo(x) }  bar()`, with the
declared type `string` of `x` and a block in the place of its initial value. -/
def faulty : Draft :=
  let forms : List Form :=
    [.identifier "n", .parameter ⟨0⟩ none false, .identifier "foo", .block [],
      .functionDeclaration ⟨some ⟨2⟩, [⟨1⟩], some ⟨3⟩, false, false⟩,
      .identifier "x", .block [], .parenthesized ⟨6⟩, .parameter ⟨5⟩ (some ⟨7⟩) false,
      .identifier "x", .identifier "foo", .call ⟨10⟩ [⟨9⟩], .expressionStatement ⟨11⟩,
      .identifier "bar", .block [⟨12⟩],
      .functionDeclaration ⟨some ⟨13⟩, [⟨8⟩], some ⟨14⟩, false, false⟩,
      .identifier "bar", .call ⟨16⟩ [], .expressionStatement ⟨17⟩,
      .sourceFile "main.ts" [⟨4⟩, ⟨15⟩, ⟨18⟩]]
  let d := forms.foldl (fun d form => (d.add form).2) ({} : Draft)
  { d with nodeTypes := d.nodeTypes.put ⟨8⟩ Intrinsic.string.id }

set_option maxRecDepth 4000 in
/-- A history with a cycle and a key that is too deep; and in `faulty`, the value of `x` in the call
of `bar` stops the resolution of `foo`, which still leaves nothing on the path. -/
theorem guard_keeps_path_faulty :
    (∃ g : Guard Nat, g.After 3 [.leave 30, .enter 40 .depthExceeded, .enter 20 .cycle,
        .enter 30 .entered, .enter 20 .entered, .enter 10 .entered] ∧
      g.path = [10, 20] ∧ g.isActive 30 = false ∧ (g.enter 20).1 = .cycle ∧
      g.cycleFrom 10 = [10, 20] ∧ g.exceeded = true) ∧
    ∃ found t, discover faulty.finish.host (Context.start { permissive := false }) ⟨4⟩ ⟨0⟩
        { options := { permissive := false } } = (.ok found, t) ∧
      ∃ stop q, resolveFunction faulty.finish.host (Context.start { permissive := false }) found
          (maxDepth + 1) ⟨4⟩ { session := t } = (.error stop, q) ∧
        q.guard.path = [] ∧ q.guard.isActive ⟨4⟩ = false ∧
        ∃ log, q.guard.After maxDepth log ∧ Guard.held log = [] := by
  obtain ⟨hguard, hresolution⟩ := guard_keeps_path
  constructor
  · have hg : Guard.After 3 [.leave 30, .enter 40 .depthExceeded, .enter 20 .cycle,
        .enter 30 .entered, .enter 20 .entered, .enter 10 .entered] (_ : Guard Nat) :=
      .leave (.enter (.enter (.enter (.enter (.enter .new 10) 20) 30) 20) 40) rfl
    obtain ⟨hpath, -, -, hactive, hcycle, -, -, -, hfrom, hexceeded⟩ := hguard hg
    refine ⟨_, hg, hpath, ?_, (hcycle 20).2 ?_, hfrom [] [20] 10 hpath, hexceeded.2 ⟨40, by simp⟩⟩
    · rw [← Bool.not_eq_true, hactive, hpath]
      decide
    · rw [hpath]
      decide
  · have hcomputed : Run.passes (discover faulty.finish.host (Context.start { permissive := false })
        ⟨4⟩ ⟨0⟩) { options := { permissive := false } } (fun found t =>
          !(resolveFunction faulty.finish.host (Context.start { permissive := false }) found
            (maxDepth + 1) ⟨4⟩ { session := t }).1.toBool) = true := by
      decide +kernel
    obtain ⟨found, t, hfound, hstops⟩ := Run.exists_of_passes hcomputed
    rcases hrun : resolveFunction faulty.finish.host (Context.start { permissive := false }) found
        (maxDepth + 1) ⟨4⟩ { session := t } with ⟨stop | calls, q⟩
    · obtain ⟨hpath, hactive, hcontinues⟩ := hresolution _ _ _ _ _ _ _ _ hrun
      obtain ⟨more, hafter, hheld⟩ := hcontinues maxDepth [] .new
      exact ⟨found, t, hfound, stop, q, hrun, hpath, hactive ⟨4⟩, more ++ [], hafter, hheld⟩
    · rw [hrun] at hstops
      cases hstops

end ValueSchema.Propagation
