/-
# The calls that a function is found to have

A call site stands for one call, or for one call for each call of the function around it.  These are
its *sources*: what is known where the call stands, or a call of the owner.  The result of the
resolution has, for all call sites of a function and all their sources, one call or one with equal
arguments, and nothing else: no call site is lost, no two calls have equal arguments, and a call that
is said to have concrete arguments has them, `Propagation.functionCalls_outcome`.
-/
import ValueSchema.Proofs.Propagation.Coverage
import ValueSchema.Proofs.Evaluation.Session
import ValueSchema.Proofs.Schema.Equality

namespace ValueSchema.Propagation

/-! ## Lists of different calls -/

/-- Two calls with different arguments. -/
def Differ (call other : ResolvedCall) : Prop :=
  Schema.equalAll call.arguments other.arguments = false

lemma pairwise_addCall {calls : List ResolvedCall} (h : calls.Pairwise Differ)
    (call : ResolvedCall) : (addCall calls call).Pairwise Differ := by
  rw [addCall]
  split
  · exact h
  · rename_i hnone
    refine List.pairwise_append.2 ⟨h, List.pairwise_singleton _ _, fun known hknown other hother => ?_⟩
    obtain rfl := List.mem_singleton.1 hother
    have hall : ∀ known ∈ calls, Schema.equalAll known.arguments other.arguments = false := by
      simpa using hnone
    exact hall known hknown

lemma pairwise_foldl_addCall (out : List ResolvedCall) {calls : List ResolvedCall}
    (h : calls.Pairwise Differ) : (out.foldl addCall calls).Pairwise Differ := by
  induction out generalizing calls with
  | nil => exact h
  | cons first rest ih => exact ih (pairwise_addCall h first)

/-- The calls of call sites are those that each one stands for, without repetitions. -/
lemma resolveSites_eq (f : CallSite → Resolve (List ResolvedCall)) (sites : List CallSite) :
    resolveSites f sites = do
      let out ← sites.mapM f
      return out.flatten.foldl addCall [] := by
  have hfrom : ∀ known : List ResolvedCall,
      sites.foldlM (fun calls site => return (← f site).foldl addCall calls) known = (do
        let out ← sites.mapM f
        return out.flatten.foldl addCall known) := by
    induction sites with
    | nil =>
      intro known
      simp
    | cons site rest ih =>
      intro known
      simp only [List.foldlM_cons, List.mapM_cons, bind_assoc, pure_bind, ih, List.flatten_cons,
        List.foldl_append]
  exact hfrom []

/-! ## Sources -/

/-- Where the arguments of a call come from. -/
inductive Source where
  /-- They are those that are written at the call site. -/
  | written (resolution : Resolution)
  /-- A call of the owner gives values for the parameters. -/
  | through (owner : NodeId) (ownerCall : ResolvedCall)

namespace Trace

variable {host : Host} {c : Context} {symbol : SymbolId} {s t : Session} {calls : List ResolvedCall}

/-- The sources of a call site, with the calls that its owner turns out to have. -/
def sources (trace : Trace host c symbol s calls t) (site : CallSite) : List Source :=
  match settled? site with
  | .inl resolution => [.written resolution]
  | .inr owner =>
    if owner = trace.function then [.written (.symbolic .recursiveChain)]
    else
      match (trace.progress.resolved.get? owner).getD [] with
      | [] => [.written (.symbolic .neverCalled)]
      | ownerCalls => ownerCalls.map (.through owner)

lemma sources_ne_nil (trace : Trace host c symbol s calls t) (site : CallSite) :
    trace.sources site ≠ [] := by
  rw [sources]
  split
  · simp
  · split
    · simp
    · split
      · simp
      · simpa using ‹_›

/-- A call that a call site stands for, with its arguments from a source.  The values of parameters
are found in a session of the run. -/
def Gives (trace : Trace host c symbol s calls t) (site : CallSite) (call : ResolvedCall) :
    Source → Prop
  | .written resolution => call = asWritten (formalParameters host trace.function) site resolution
  | .through owner ownerCall => ∃ u w,
      (Contract.closed host s.options).Ext trace.middle u ∧ (Contract.closed host s.options).Ext w t ∧
      throughCall host c (formalParameters host trace.function)
        ((trace.found.get? owner).getD {}).parameters site ownerCall u = (.ok call, w)

end Trace

/-! ## One call site -/

section

variable {host : Host} {k : Contract host} {c : Context} {found : Callees} {p q : Progress}

/-- One call for each call of an owner, in order. -/
lemma throughCalls_each {site : CallSite} {parameters ownerParameters : List FormalParameter}
    {ownerCalls out : List ResolvedCall} (hp : k.Sound c found p)
    (hsite : k.AllowsAll p.session site.arguments) (howner : k.AllowsCalls p.session ownerCalls)
    (h : (ownerCalls.mapM fun call => Resolve.ofEval
      (throughCall host c parameters ownerParameters site call)) p = (.ok out, q)) :
    List.Forall₂ (fun ownerCall call => ∃ u w, k.Ext p.session u ∧ k.Ext w q.session ∧
      throughCall host c parameters ownerParameters site ownerCall u = (.ok call, w))
      ownerCalls out := by
  obtain ⟨-, -, hall⟩ := Run.forall₂_of_mapM
    (I := fun r => k.Sound c found r ∧ k.Leads p r) (R := k.Leads) Contract.Leads.refl
    Contract.Leads.trans (fun ownerCall hmem r call w hr hrun => by
      obtain ⟨hr, hpr⟩ := hr
      obtain ⟨hw, hrw, -⟩ := hr.ofEval (Contract.meets_throughCall hr.branch
        (Contract.AllowsAll.ext hsite hpr.ext)
        (Contract.AllowsAll.ext (howner ownerCall hmem) hpr.ext) _ _) hrun
      exact ⟨⟨hw, hpr.trans hrw⟩, hrw⟩)
    ⟨hp, .refl p⟩ h
  refine hall.imp fun ownerCall call hcall => ?_
  obtain ⟨r, w, -, hpr, hrun, hwq⟩ := hcall
  exact ⟨r.session, w.session, hpr.ext, hwq.ext, (ofEval_eq_ok hrun).1⟩

/-- An active function is refused, as long as its calls are not known. -/
lemma eq_none_of_active {fuel : Nat} {f : NodeId} {o : Option (List ResolvedCall)}
    (hactive : p.guard.isActive f = true) (hunresolved : p.resolved.get? f = none)
    (h : resolveFunction host c found (fuel + 1) f p = (.ok o, q)) : o = none := by
  rcases resolveFunction_cases h with ⟨calls, hget, -, -⟩ | ⟨-, -, rfl, -⟩ | ⟨-, hentered, -⟩
  · rw [hunresolved] at hget
    cases hget
  · rfl
  · rw [(p.guard.short_of_enter hentered).1] at hactive
    cases hactive

end

namespace Trace

variable {host : Host} {c : Context} {symbol : SymbolId} {s t : Session} {calls : List ResolvedCall}

/-- What holds between the call sites of the function: everything may be used, and the function is
the only one on the path, without calls in the table. -/
structure Between (trace : Trace host c symbol s calls t) (p : Progress) : Prop where
  sound : (Contract.closed host s.options).Sound c trace.found p
  later : (Contract.closed host s.options).Ext trace.middle p.session
  accounted : Accounted host trace.found p
  path : p.guard.path = [trace.function]
  active : p.guard.active = [trace.function]
  unresolved : p.resolved.get? trace.function = none

/-- Discovery has recorded the function with its call sites, and all that was found may be used. -/
structure Prepared (trace : Trace host c symbol s calls t) : Prop where
  inv : (Contract.closed host s.options).Inv trace.middle
  branch : (Contract.closed host s.options).Admits trace.middle c.branch
  found : (Contract.closed host s.options).AllowsFound trace.middle trace.found
  function : trace.found.get? trace.function =
    some ⟨formalParameters host trace.function, trace.sites⟩

lemma prepared (trace : Trace host c symbol s calls t) (hs : s.Closed s.options)
    (hb : (Contract.closed host s.options).Admits s c.branch) : trace.Prepared := by
  let k := Contract.closed host s.options
  obtain ⟨hmiddle, hfound, sites, u, hsites, humiddle, hfunction, -⟩ :=
    Contract.discover_spec (k := k) hs hb trace.discovered
  obtain ⟨-, hsu, -⟩ := (Contract.meets_callSites hb symbol).ok hs sites u hsites
  have hsame : trace.sites = sites := by rw [Trace.sites, hfunction, Option.getD_some]
  exact ⟨hmiddle, hb.ext (k.ext_trans hsu humiddle), hfound, by rw [hsame, hfunction]⟩

variable {trace : Trace host c symbol s calls t} {site : CallSite} {out : List ResolvedCall}
  {p q : Progress}

lemma Prepared.between (h : trace.Prepared) :
    trace.Between (Task.start trace.function trace.middle).inside where
  sound := ⟨h.inv, h.branch, h.found, fun _ _ hnone => by cases hnone⟩
  later := (Contract.closed host s.options).ext_refl _
  accounted := ⟨rfl, fun _ hnone => (by cases hnone), fun _ _ hnone => by cases hnone⟩
  path := rfl
  active := rfl
  unresolved := rfl

/-- Resolving one of the call sites. -/
lemma Between.resolveSite (hp : trace.Between p) (hprepared : trace.Prepared)
    (hsite : site ∈ trace.sites)
    (h : resolveSite host c trace.found (resolveFunction host c trace.found maxDepth)
      (formalParameters host trace.function) site p = (.ok out, q)) :
    trace.Between q ∧ (Contract.closed host s.options).Leads p q := by
  let k := Contract.closed host s.options
  obtain ⟨hrecorded, hupstream⟩ := discover_covers trace.discovered
  have hcovered : Covered host trace.function symbol trace.found := ⟨hrecorded, hupstream⟩
  have hallowed := Contract.AllowsAll.ext
    ((hprepared.found _ _ hprepared.function).2 site hsite) hp.later
  obtain ⟨hq, hpq, -⟩ := Contract.resolveSite_spec (k.answers_resolveFunction c _ maxDepth) hp.sound
    hallowed h
  have hup : ∀ owner ∈ ownersIn trace.found trace.function,
      Upstream trace.found p.guard.path.length trace.function owner := by
    intro owner howner
    rw [hp.path]
    exact (Upstream.refl trace.function).snoc howner
  obtain ⟨haccounted, hback, -⟩ := resolveSite_justified hcovered
    (reports_resolveFunction hcovered maxDepth) hp.accounted hup (List.ne_nil_of_mem hsite) hsite h
  refine ⟨⟨hq, k.ext_trans hp.later hpq.ext, haccounted, hback.guard.path.trans hp.path,
    hback.guard.active.trans hp.active, ?_⟩, hpq⟩
  rw [hback.untouched _ (by simp [Guard.isActive, hp.active])]
  exact hp.unresolved

/-- A call site stands for one call for each of its sources, in order. -/
lemma Between.gives (hp : trace.Between p) (hprepared : trace.Prepared)
    (hsite : site ∈ trace.sites) (hfinal : (Contract.closed host s.options).Ext q.session t)
    (hkept : ∀ f known, f ≠ trace.function → q.resolved.get? f = some known →
      trace.progress.resolved.get? f = some known)
    (h : Propagation.resolveSite host c trace.found (resolveFunction host c trace.found maxDepth)
      (formalParameters host trace.function) site p = (.ok out, q)) :
    List.Forall₂ (fun source call => trace.Gives site call source) (trace.sources site) out := by
  let k := Contract.closed host s.options
  have hanswers := k.answers_resolveFunction c trace.found maxDepth
  rcases resolveSite_cases h with ⟨resolution, hsettled, rfl, rfl⟩ | ⟨owner, hsettled, hcases⟩
  · rw [sources, hsettled]
    exact .cons rfl .nil
  rw [sources, hsettled]
  dsimp only
  -- the function itself is the only one that the path refuses
  by_cases hself : owner = trace.function
  · subst hself
    have hnone : ∀ {o r}, resolveFunction host c trace.found maxDepth trace.function p = (.ok o, r) →
        o = none := eq_none_of_active (by simp [Guard.isActive, hp.active]) hp.unresolved
    rw [if_pos rfl]
    rcases hcases with ⟨-, rfl⟩ | ⟨hrun, -⟩ | ⟨ownerCalls, r, -, hrun, -⟩
    · exact .cons rfl .nil
    · cases hnone hrun
    · cases hnone hrun
  · rw [if_neg hself]
    rcases hcases with ⟨hrun, -⟩ | ⟨hrun, rfl⟩ | ⟨ownerCalls, r, hne, hrun, hthrough⟩
    · obtain ⟨known, hknown⟩ := exists_calls_of_short
        (by simpa [Guard.isActive, hp.active] using hself)
        (by simp [Guard.depth, hp.path, hp.accounted.limit, maxDepth]) hrun
      cases hknown
    · obtain ⟨-, -, hknown⟩ := hanswers owner p _ q hp.sound hrun
      rw [hkept owner [] hself (hknown [] rfl)]
      exact .cons rfl .nil
    · obtain ⟨hr, hpr, hknown⟩ := hanswers owner p _ r hp.sound hrun
      have hget := hknown ownerCalls rfl
      obtain ⟨-, hresolved, -⟩ := throughCalls_cases hthrough
      rw [hkept owner ownerCalls hself (by rw [hresolved]; exact hget), Option.getD_some]
      have hallowed := Contract.AllowsAll.ext
        ((hprepared.found _ _ hprepared.function).2 site hsite) (k.ext_trans hp.later hpr.ext)
      have heach := throughCalls_each hr hallowed (hr.resolved owner _ hget) hthrough
      cases ownerCalls with
      | nil => exact absurd rfl hne
      | cons first rest =>
        refine List.forall₂_map_left_iff.2 (heach.imp fun ownerCall call hcall => ?_)
        obtain ⟨u, w, hru, hwq, hrun⟩ := hcall
        exact ⟨u, w, k.ext_trans hp.later (k.ext_trans hpr.ext hru), k.ext_trans hwq hfinal, hrun⟩

/-! ## All call sites -/

/-- The calls of the function are those that its call sites stand for, without repetitions. -/
lemma Prepared.exists_out (hprepared : trace.Prepared) :
    ∃ outs, List.Forall₂ (fun site out => List.Forall₂ (fun source call =>
      trace.Gives site call source) (trace.sources site) out) trace.sites outs ∧
      calls = outs.flatten.foldl addCall [] := by
  let k := Contract.closed host s.options
  rcases resolveFunction_cases trace.resolved with ⟨_, hnone, -⟩ | ⟨-, -, hnone, -⟩ |
    ⟨-, hentered, known, r, hsites, hcalls, hprogress⟩
  · cases hnone
  · cases hnone
  obtain rfl := Option.some.inj hcalls
  rw [hprepared.function, Option.getD_some, resolveSites_eq] at hsites
  obtain ⟨outs, r', hout, hpure⟩ := Run.bind_eq_ok.1 hsites
  cases hpure
  have hinside := hprepared.between
  obtain ⟨hr, -, hall⟩ := Run.forall₂_of_mapM (I := fun u => trace.Between u) (R := k.Leads)
    Contract.Leads.refl Contract.Leads.trans (fun site hsite u out w hu hrun =>
      hu.resolveSite hprepared hsite hrun) hinside hout
  have hsession : r.session = t := by simpa [hprogress] using trace.session_eq
  refine ⟨outs, ?_, rfl⟩
  have hmem := (List.forall₂_and_left (p := fun site => site ∈ trace.sites) _ _).2
    ⟨fun _ h => h, hall⟩
  refine hmem.imp fun site out hturn => ?_
  obtain ⟨hsite, u, w, hu, -, hrun, hwr⟩ := hturn
  refine hu.gives hprepared hsite (hsession ▸ hwr.ext) (fun f known hne hget => ?_) hrun
  rw [hprogress]
  dsimp only
  rw [Table.get?_put_of_ne _ hne.symm]
  exact hwr.kept f known hget

/-- What each source gives: a call of its call site, and one with concrete arguments wherever it says
so. -/
lemma call_of_gives {call : ResolvedCall} {source : Source} (hsource : source ∈ trace.sources site)
    (h : trace.Gives site call source) : call.call = site.call ∧
      (call.resolution = .concrete ∨ call.resolution = .propagated →
        call.arguments.all Schema.isConcrete = true) := by
  cases source with
  | written resolution =>
    obtain rfl : call = asWritten _ site resolution := h
    refine ⟨rfl, fun hconcrete => ?_⟩
    rw [asWritten] at hconcrete
    rw [sources] at hsource
    split at hsource
    · rename_i known hsettled
      obtain rfl : resolution = known := by simpa using hsource
      rcases resolution_of_settled? hsettled with ⟨-, hall⟩ | rfl | rfl
      · exact hall
      · simp at hconcrete
      · simp at hconcrete
    · split at hsource
      · obtain rfl : resolution = .symbolic .recursiveChain := by simpa using hsource
        simp at hconcrete
      · split at hsource
        · obtain rfl : resolution = .symbolic .neverCalled := by simpa using hsource
          simp at hconcrete
        · simp at hsource
  | through owner ownerCall =>
    obtain ⟨u, w, -, -, hrun⟩ := h
    obtain ⟨arguments, rfl⟩ := throughCall_cases hrun
    refine ⟨rfl, fun hconcrete => ?_⟩
    simp only [propagatedResolution] at hconcrete
    split at hconcrete
    · simp at hconcrete
    · split at hconcrete
      · assumption
      · simp at hconcrete

/-- Every call of the function is a call site that was found, in order. -/
lemma Prepared.calls_sites (hprepared : trace.Prepared) :
    trace.sites.map CallSite.call = callsOf host symbol := by
  have hrecorded := (discover_covers trace.discovered).1 _ _ hprepared.function
  rw [symbolFrom, if_pos rfl] at hrecorded
  exact hrecorded.calls

/-- The arguments of the calls that are found may be used in the session at the end. -/
lemma Prepared.allows (hprepared : trace.Prepared) :
    (Contract.closed host s.options).AllowsCalls t calls := by
  let k := Contract.closed host s.options
  have hstart : k.Sound c trace.found { session := trace.middle } :=
    ⟨hprepared.inv, hprepared.branch, hprepared.found, fun _ _ hnone => by cases hnone⟩
  obtain ⟨hsound, -, hknown⟩ := k.answers_resolveFunction c trace.found (maxDepth + 1) _ _ _ _
    hstart trace.resolved
  have hcalls := hsound.resolved _ calls (hknown calls rfl)
  rwa [trace.session_eq] at hcalls

end Trace

variable {host : Host} {c : Context} {symbol : SymbolId} {s t : Session} {calls : List ResolvedCall}

/-- What a function is found to be called with.  No two calls have equal arguments, in either order;
those that are said to have concrete arguments have them; each call comes from a call site of the
function, and for every call site, and every source of it, there is a call with equal arguments. -/
theorem functionCalls_outcome (hs : s.Closed s.options)
    (hb : ∀ e ∈ c.branch.bindings, e.2.Within (.ofReferences s.Known))
    (hrun : functionCalls host c symbol s = (.ok calls, t)) :
    calls.Pairwise (fun call other => Differ call other ∧ Differ other call) ∧
    (∀ call ∈ calls, call.resolution = .concrete ∨ call.resolution = .propagated →
      call.arguments.all Schema.isConcrete = true) ∧
    (∀ call ∈ calls, call.call ∈ callsOf host symbol) ∧
    ∃ trace : Trace host c symbol s calls t, trace.sites.map CallSite.call = callsOf host symbol ∧
      (∀ call ∈ calls, ∃ site ∈ trace.sites, ∃ source ∈ trace.sources site,
        trace.Gives site call source) ∧
      ∀ site ∈ trace.sites, trace.sources site ≠ [] ∧ ∀ source ∈ trace.sources site,
        ∃ call, trace.Gives site call source ∧ ∃ entry ∈ calls,
          Schema.equalAll entry.arguments call.arguments = true := by
  replace hb : (Contract.closed host s.options).Admits s c.branch := hb
  obtain ⟨trace⟩ := exists_trace hrun
  have hprepared := trace.prepared hs hb
  have hallowed := hprepared.allows
  obtain ⟨outs, hall, hcalls⟩ := hprepared.exists_out
  obtain ⟨-, hlisted, hfrom⟩ := foldl_addCall_spec outs.flatten []
  rw [← hcalls] at hlisted hfrom
  have horigin : ∀ call ∈ calls, ∃ site ∈ trace.sites, ∃ source ∈ trace.sources site,
      trace.Gives site call source := by
    intro call hcall
    obtain ⟨out, hout, hmem⟩ := List.mem_flatten.1 ((hfrom call hcall).resolve_left List.not_mem_nil)
    obtain ⟨site, hsite, heach⟩ := Run.exists_item hall hout
    obtain ⟨source, hsource, hgives⟩ := Run.exists_item heach hmem
    exact ⟨site, hsite, source, hsource, hgives⟩
  refine ⟨?_, fun call hcall => ?_, fun call hcall => ?_, trace, hprepared.calls_sites, horigin,
    fun site hsite => ⟨trace.sources_ne_nil site, fun source hsource => ?_⟩⟩
  · -- a call is only compared with those before it, so the other order is by symmetry
    have hpairwise : calls.Pairwise Differ := hcalls ▸ pairwise_foldl_addCall _ .nil
    refine hpairwise.imp_of_mem fun {call other} hcall hother hdiffer => ⟨hdiffer, ?_⟩
    rw [Differ, ← Bool.not_eq_true] at hdiffer ⊢
    refine fun hequal => hdiffer (Schema.equalAll_symm (fun a ha b hb => ?_) hequal)
    exact Schema.equal_symm (hallowed other hother a ha) (hallowed call hcall b hb)
  · obtain ⟨site, -, source, hsource, hgives⟩ := horigin call hcall
    exact (Trace.call_of_gives hsource hgives).2
  · obtain ⟨site, hsite, source, hsource, hgives⟩ := horigin call hcall
    rw [(Trace.call_of_gives hsource hgives).1, ← hprepared.calls_sites]
    exact List.mem_map_of_mem hsite
  · obtain ⟨out, hout, heach⟩ := Run.exists_result hall hsite
    obtain ⟨call, hcall, hgives⟩ := Run.exists_result heach hsource
    refine ⟨call, hgives, ?_⟩
    obtain ⟨entry, hentry, rfl | hequal⟩ := hlisted call (List.mem_flatten.2 ⟨out, hout, hcall⟩)
    · exact ⟨entry, hentry, Schema.equalAll_self fun a ha => Schema.equal_self
        (hallowed entry hentry a ha)⟩
    · exact ⟨entry, hentry, hequal⟩

/-- A function that calls itself, and is called twice with the same text:
`function foo(n) { foo(n) }  foo("a")  foo("a")`. -/
def echo : Draft :=
  let forms : List Form :=
    [.identifier "n", .parameter ⟨0⟩ none false, .identifier "foo", .identifier "n",
      .identifier "foo", .call ⟨4⟩ [⟨3⟩], .expressionStatement ⟨5⟩, .block [⟨6⟩],
      .functionDeclaration ⟨some ⟨2⟩, [⟨1⟩], some ⟨7⟩, false, false⟩,
      .stringLiteral "a", .identifier "foo", .call ⟨10⟩ [⟨9⟩], .expressionStatement ⟨11⟩,
      .stringLiteral "a", .identifier "foo", .call ⟨14⟩ [⟨13⟩], .expressionStatement ⟨15⟩,
      .sourceFile "main.ts" [⟨8⟩, ⟨12⟩, ⟨16⟩]]
  forms.foldl (fun d form => (d.add form).2) {}

set_option maxRecDepth 4000 in
/-- The three call sites in `echo` stand for two calls: the one in the function itself, which is
symbolic, and one with the text. -/
theorem functionCalls_echo :
    ∃ calls t, functionCalls echo.finish.host (Context.start {}) ⟨0⟩ { options := {} } =
        (.ok calls, t) ∧
      calls.map (fun call => (call.call, call.resolution)) =
        [(⟨5⟩, .symbolic .recursiveChain), (⟨11⟩, .concrete)] ∧
      calls.Pairwise (fun call other => Differ call other ∧ Differ other call) ∧
      ∃ trace : Trace echo.finish.host (Context.start {}) ⟨0⟩ { options := {} } calls t,
        trace.sites.map CallSite.call = [⟨5⟩, ⟨11⟩, ⟨15⟩] ∧
        ∀ site ∈ trace.sites, ∃ call : ResolvedCall, call.call = site.call ∧ ∃ entry ∈ calls,
          Schema.equalAll entry.arguments call.arguments = true := by
  have hcomputed : Run.passes (functionCalls echo.finish.host (Context.start {}) ⟨0⟩)
      { options := {} } (fun calls _ => calls.map (fun call => (call.call, call.resolution)) =
        [(⟨5⟩, .symbolic .recursiveChain), (⟨11⟩, .concrete)]) = true := by
    decide +kernel
  have hcalls : callsOf echo.finish.host ⟨0⟩ = [⟨5⟩, ⟨11⟩, ⟨15⟩] := by decide +kernel
  obtain ⟨calls, t, hrun, hresult⟩ := Run.exists_of_passes hcomputed
  obtain ⟨hpairwise, -, -, trace, hsites, -, hlisted⟩ :=
    functionCalls_outcome (Session.closed_start {}) (List.forall_mem_nil _) hrun
  refine ⟨calls, t, hrun, by simpa using hresult, hpairwise, trace, hsites.trans hcalls,
    fun site hsite => ?_⟩
  obtain ⟨hne, hall⟩ := hlisted site hsite
  obtain ⟨source, hsource⟩ := List.exists_mem_of_ne_nil _ hne
  obtain ⟨call, hgives, entry, hentry, hequal⟩ := hall source hsource
  exact ⟨call, (Trace.call_of_gives hsource hgives).1, entry, hentry, hequal⟩

end ValueSchema.Propagation
