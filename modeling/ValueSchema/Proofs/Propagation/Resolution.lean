/-
# What the resolution of calls keeps

The calls of functions are resolved along a path, and what has been resolved is kept in a table.
Whatever a part of the resolution does, it comes back to the path that it started from, and it
replaces nothing in the table.  So the calls that a function was found to have while another one was
being resolved are those that stand in the table at the end.
-/
import ValueSchema.Proofs.Guard
import ValueSchema.Proofs.Propagation.Discovery
import ValueSchema.Propagation.Basic

namespace ValueSchema

namespace Contract

open Propagation

variable {host : Host} {k : Contract host} {c : Context} {s t : Session} {found : Callees}
  {p q : Progress}

/-! ## The state of the resolution -/

/-- The arguments of calls may be used in a session. -/
def AllowsCalls (k : Contract host) (s : Session) (calls : List ResolvedCall) : Prop :=
  ∀ call ∈ calls, k.AllowsAll s call.arguments

lemma AllowsCalls.ext {calls : List ResolvedCall} (h : k.AllowsCalls s calls) (hst : k.Ext s t) :
    k.AllowsCalls t calls := fun call hcall => AllowsAll.ext (h call hcall) hst

/-- What holds between the steps of a resolution: everything that it works with may be used. -/
structure Sound (k : Contract host) (c : Context) (found : Callees) (p : Progress) : Prop where
  inv : k.Inv p.session
  branch : k.Admits p.session c.branch
  found : k.AllowsFound p.session found
  resolved : ∀ f calls, p.resolved.get? f = some calls → k.AllowsCalls p.session calls

/-- How far a resolution may come from a state: it is on the same path again, and has all the calls
that were there. -/
structure Leads (k : Contract host) (p q : Progress) : Prop where
  ext : k.Ext p.session q.session
  guard : p.guard.SamePath q.guard
  kept : ∀ f calls, p.resolved.get? f = some calls → q.resolved.get? f = some calls

lemma Leads.refl (p : Progress) : k.Leads p p :=
  ⟨k.ext_refl _, .refl _, fun _ _ h => h⟩

lemma Leads.trans {r : Progress} (h : k.Leads p q) (h' : k.Leads q r) : k.Leads p r where
  ext := k.ext_trans h.ext h'.ext
  guard := h.guard.trans h'.guard
  kept f calls hf := h'.kept f calls (h.kept f calls hf)

/-- The session may go on. -/
lemma Sound.session (h : k.Sound c found p) (ht : k.Inv t) (hext : k.Ext p.session t) :
    k.Sound c found { p with session := t } where
  inv := ht
  branch := h.branch.ext hext
  found := h.found.ext hext
  resolved f calls hf := (h.resolved f calls hf).ext hext

lemma Sound.ofEval {α : Type} {e : Eval α} {E : Stop → Prop} {Q : Session → α → Prop} {a : α}
    (hp : k.Sound c found p) (he : k.Meets E p.session e Q)
    (h : Resolve.ofEval e p = (.ok a, q)) :
    k.Sound c found q ∧ k.Leads p q ∧ e p.session = (.ok a, q.session) ∧ Q q.session a := by
  rcases hrun : e p.session with ⟨outcome, t⟩
  rw [Resolve.ofEval, hrun] at h
  cases h
  obtain ⟨ht, hext, hQ⟩ := he.ok hp.inv a t hrun
  exact ⟨hp.session ht hext, ⟨hext, .refl _, fun _ _ hf => hf⟩, rfl, hQ⟩

/-! ## One call -/

/-- The arguments of a call take the places of the parameters, in order. -/
lemma meets_argumentFor (hb : k.Admits s c.branch) {arguments : List Schema}
    (harguments : k.AllowsAll s arguments) (parameter : FormalParameter × Nat) :
    k.Meets k.Err s (argumentFor host c arguments parameter)
      fun t e => e.1 = parameter.1.declaration ∧ k.Allows t e.2 := by
  refine (meets_parameterArgument (k.keeps_evaluator c.remaining) hb harguments _ _).map
    fun t value hst hvalue => ⟨rfl, ?_⟩
  cases value with
  | some value => exact hvalue value rfl
  | none =>
    cases hargument : arguments[parameter.2]? with
    | none => simp
    | some argument =>
      have hmem := List.mem_of_getElem? hargument
      simpa [hargument] using Allows.ext (harguments argument hmem) hst

lemma meets_argumentsFor (hb : k.Admits s c.branch) {arguments : List Schema}
    (harguments : k.AllowsAll s arguments) (parameters : List FormalParameter) :
    k.Meets k.Err s (argumentsFor host c parameters arguments)
      fun t values => ∀ n r, values.get? n = some r → k.Allows t r := by
  have hall : k.Meets k.Err s (parameters.zipIdx.mapM (argumentFor host c arguments))
      fun t values => ∀ e ∈ values, k.Allows t e.2 :=
    .mapM (fun _ _ _ htu he => Allows.ext he htu) fun parameter _ t hst =>
      (meets_argumentFor (hb.ext hst) (AllowsAll.ext harguments hst) parameter).mono
        fun _ _ _ he => he.2
  refine hall.map fun t values _ hvalues n r hget => ?_
  rcases Table.mem_of_mem_foldl_put (Table.mem_of_get? hget) with hnil | hmem
  · cases hnil
  · exact hvalues (n, r) hmem

/-- A call site with the arguments of a call of its owner may be used if both may. -/
lemma meets_throughCall (hb : k.Admits s c.branch) {site : CallSite}
    (hsite : k.AllowsAll s site.arguments) {ownerCall : ResolvedCall}
    (hcall : k.AllowsAll s ownerCall.arguments) (parameters ownerParameters : List FormalParameter) :
    k.Meets k.Err s (throughCall host c parameters ownerParameters site ownerCall)
      fun t call => k.AllowsAll t call.arguments := by
  refine (meets_argumentsFor hb hcall ownerParameters).bind fun t values _ hst hvalues => ?_
  refine Meets.cap.map fun u cap htu _ r hr => ?_
  obtain ⟨a, ha, rfl⟩ := List.mem_map.1 hr
  have hsite' := Allows.ext (hsite a ha) (k.ext_trans hst htu)
  exact (Schema.Within.substitute hsite' fun n r hn => Allows.ext (hvalues n r hn) htu).refold cap

/-! ## Call sites -/

/-- Something that gives the calls of functions gives those that are in the table after it. -/
def Answers (k : Contract host) (c : Context) (found : Callees)
    (calls : NodeId → Resolve (Option (List ResolvedCall))) : Prop :=
  ∀ f p o q, k.Sound c found p → calls f p = (.ok o, q) → k.Sound c found q ∧ k.Leads p q ∧
    ∀ known, o = some known → q.resolved.get? f = some known

/-- One call for each call of the owner of a call site. -/
lemma throughCalls_spec {site : CallSite} {parameters ownerParameters : List FormalParameter}
    {ownerCalls calls : List ResolvedCall} (hp : k.Sound c found p)
    (hsite : k.AllowsAll p.session site.arguments) (howner : k.AllowsCalls p.session ownerCalls)
    (h : (ownerCalls.mapM fun call => Resolve.ofEval
      (throughCall host c parameters ownerParameters site call)) p = (.ok calls, q)) :
    k.Sound c found q ∧ k.Leads p q ∧ k.AllowsCalls q.session calls ∧
      ∀ ownerCall ∈ ownerCalls, ∃ call ∈ calls, ∃ u w, k.Inv u ∧ k.Ext p.session u ∧
        throughCall host c parameters ownerParameters site ownerCall u = (.ok call, w) := by
  have hone : ∀ ownerCall ∈ ownerCalls, ∀ r call w, k.Sound c found r ∧ k.Leads p r →
      Resolve.ofEval (throughCall host c parameters ownerParameters site ownerCall) r =
        (.ok call, w) →
      k.Sound c found w ∧ k.Leads r w ∧
        throughCall host c parameters ownerParameters site ownerCall r.session =
          (.ok call, w.session) ∧ k.AllowsAll w.session call.arguments := by
    rintro ownerCall hmem r call w ⟨hr, hpr⟩ hrun
    exact hr.ofEval (meets_throughCall hr.branch (AllowsAll.ext hsite hpr.ext)
      (AllowsAll.ext (howner ownerCall hmem) hpr.ext) _ _) hrun
  obtain ⟨⟨hq, -⟩, hpq, hall⟩ := Run.forall₂_of_mapM
    (I := fun r => k.Sound c found r ∧ k.Leads p r) (R := k.Leads) Leads.refl Leads.trans
    (fun ownerCall hmem r call w hr hrun =>
      ⟨⟨(hone ownerCall hmem r call w hr hrun).1,
        hr.2.trans (hone ownerCall hmem r call w hr hrun).2.1⟩,
        (hone ownerCall hmem r call w hr hrun).2.1⟩)
    ⟨hp, Leads.refl p⟩ h
  refine ⟨hq, hpq, fun call hcall => ?_, fun ownerCall hmem => ?_⟩
  · obtain ⟨ownerCall, hmem, r, w, hr, -, hrun, hwq⟩ := Run.exists_item hall hcall
    exact AllowsAll.ext (hone ownerCall hmem r call w hr hrun).2.2.2 hwq.ext
  · obtain ⟨call, hcall, r, w, hr, hpr, hrun, -⟩ := Run.exists_result hall hmem
    exact ⟨call, hcall, r.session, w.session, hr.1.inv, hpr.ext,
      (hone ownerCall hmem r call w hr hrun).2.2.1⟩

/-- A call site that depends on an owner stands for one call for each call of the owner. -/
lemma resolveSite_spec {calls : NodeId → Resolve (Option (List ResolvedCall))}
    (hcalls : k.Answers c found calls) {parameters : List FormalParameter} {site : CallSite}
    {out : List ResolvedCall} (hp : k.Sound c found p)
    (hsite : k.AllowsAll p.session site.arguments)
    (h : resolveSite host c found calls parameters site p = (.ok out, q)) :
    k.Sound c found q ∧ k.Leads p q ∧ k.AllowsCalls q.session out ∧
      ∀ owner, settled? site = .inr owner → ∃ o r, calls owner p = (.ok o, r) ∧ k.Leads r q ∧
        ∀ ownerCalls, o = some ownerCalls → ∀ ownerCall ∈ ownerCalls, ∃ call ∈ out, ∃ u w,
          k.Inv u ∧ k.Ext r.session u ∧
          throughCall host c parameters ((found.get? owner).getD {}).parameters site ownerCall u =
            (.ok call, w) := by
  have hwritten : ∀ {r : Progress} (resolution : Resolution), k.Leads p r →
      k.AllowsCalls r.session [asWritten parameters site resolution] := by
    intro r resolution hpr call hcall
    obtain rfl := List.mem_singleton.1 hcall
    exact AllowsAll.ext hsite hpr.ext
  rcases hsettled : settled? site with resolution | owner
  · rw [resolveSite, hsettled] at h
    cases h
    exact ⟨hp, .refl _, hwritten _ (.refl _), fun owner howner => by cases howner⟩
  · rw [resolveSite, hsettled] at h
    obtain ⟨o, r, ho, h⟩ := Run.bind_eq_ok.1 h
    obtain ⟨hr, hpr, hknown⟩ := hcalls owner p o r hp ho
    rcases o with _ | _ | ⟨first, rest⟩
    · cases h
      refine ⟨hr, hpr, hwritten _ hpr, fun owner' howner => ?_⟩
      obtain rfl := Sum.inr.inj howner
      exact ⟨none, _, ho, .refl _, fun ownerCalls hnone => by cases hnone⟩
    · cases h
      refine ⟨hr, hpr, hwritten _ hpr, fun owner' howner => ?_⟩
      obtain rfl := Sum.inr.inj howner
      refine ⟨some [], _, ho, .refl _, fun ownerCalls hsome => ?_⟩
      obtain rfl := Option.some.inj hsome
      simp
    · have hallowed := hr.resolved owner _ (hknown _ rfl)
      obtain ⟨hq, hrq, hout, hall⟩ :=
        throughCalls_spec hr (AllowsAll.ext hsite hpr.ext) hallowed h
      refine ⟨hq, hpr.trans hrq, hout, fun owner' howner => ?_⟩
      obtain rfl := Sum.inr.inj howner
      refine ⟨_, r, ho, hrq, fun known hsome ownerCall hmem => ?_⟩
      obtain rfl := Option.some.inj hsome
      exact hall ownerCall hmem

end Contract

namespace Propagation

/-! ## Lists of calls -/

lemma mem_addCall_of_mem {calls : List ResolvedCall} {known : ResolvedCall} (h : known ∈ calls)
    (call : ResolvedCall) : known ∈ addCall calls call := by
  rw [addCall]
  split
  · exact h
  · exact List.mem_append_left _ h

lemma mem_of_mem_addCall {calls : List ResolvedCall} {known call : ResolvedCall}
    (h : known ∈ addCall calls call) : known ∈ calls ∨ known = call := by
  rw [addCall] at h
  split at h
  · exact Or.inl h
  · simpa using h

/-- A call is listed by itself, or by one with equal arguments. -/
def Listed (calls : List ResolvedCall) (call : ResolvedCall) : Prop :=
  ∃ known ∈ calls, known = call ∨ Schema.equalAll known.arguments call.arguments = true

lemma listed_addCall (calls : List ResolvedCall) (call : ResolvedCall) :
    Listed (addCall calls call) call := by
  rw [addCall]
  split
  · rename_i hknown
    obtain ⟨known, hmem, hequal⟩ := List.any_eq_true.1 hknown
    exact ⟨known, hmem, Or.inr hequal⟩
  · exact ⟨call, by simp, Or.inl rfl⟩

lemma Listed.mono {calls more : List ResolvedCall} {call : ResolvedCall} (h : Listed calls call)
    (hsub : calls ⊆ more) : Listed more call := by
  obtain ⟨known, hmem, hlike⟩ := h
  exact ⟨known, hsub hmem, hlike⟩

/-- Adding calls one after the other keeps those that are there, and lists all of them. -/
lemma foldl_addCall_spec (out calls : List ResolvedCall) :
    calls ⊆ out.foldl addCall calls ∧ (∀ call ∈ out, Listed (out.foldl addCall calls) call) ∧
      ∀ call ∈ out.foldl addCall calls, call ∈ calls ∨ call ∈ out := by
  induction out generalizing calls with
  | nil => exact ⟨fun _ h => h, by simp, fun _ h => Or.inl h⟩
  | cons first rest ih =>
    obtain ⟨hsub, hlisted, hfrom⟩ := ih (addCall calls first)
    refine ⟨fun call hcall => hsub (mem_addCall_of_mem hcall first), ?_, fun call hcall => ?_⟩
    · exact List.forall_mem_cons.2 ⟨(listed_addCall calls first).mono hsub, hlisted⟩
    · rcases hfrom call hcall with hadded | hrest
      · rcases mem_of_mem_addCall hadded with hin | rfl
        · exact Or.inl hin
        · exact Or.inr (List.mem_cons_self ..)
      · exact Or.inr (List.mem_cons_of_mem _ hrest)

/-! ## Functions -/

lemma thenLeave_eq_ok {α : Type} {function : NodeId} {r : Resolve α} {p q : Progress} {a : α}
    (h : Resolve.thenLeave function r p = (.ok a, q)) :
    ∃ inner, r p = (.ok a, inner) ∧ q = { inner with guard := inner.guard.leave function } := by
  rcases hrun : r p with ⟨outcome, inner⟩
  rw [Resolve.thenLeave, hrun] at h
  cases h
  exact ⟨inner, rfl, rfl⟩

/-- What a call site stands for: itself, where its arguments are settled or nothing is known of its
owner, and else one call for each call of the owner. -/
lemma resolveSite_cases {host : Host} {c : Context} {found : Callees}
    {calls : NodeId → Resolve (Option (List ResolvedCall))} {parameters : List FormalParameter}
    {site : CallSite} {out : List ResolvedCall} {p q : Progress}
    (h : resolveSite host c found calls parameters site p = (.ok out, q)) :
    (∃ resolution, settled? site = .inl resolution ∧ out = [asWritten parameters site resolution] ∧
      q = p) ∨
    ∃ owner, settled? site = .inr owner ∧
      ((calls owner p = (.ok none, q) ∧
          out = [asWritten parameters site (.symbolic .recursiveChain)]) ∨
        (calls owner p = (.ok (some []), q) ∧
          out = [asWritten parameters site (.symbolic .neverCalled)]) ∨
        ∃ ownerCalls r, ownerCalls ≠ [] ∧ calls owner p = (.ok (some ownerCalls), r) ∧
          (ownerCalls.mapM fun call => Resolve.ofEval (throughCall host c parameters
            ((found.get? owner).getD {}).parameters site call)) r = (.ok out, q)) := by
  rcases hsettled : settled? site with resolution | owner
  · rw [resolveSite, hsettled] at h
    cases h
    exact Or.inl ⟨resolution, rfl, rfl, rfl⟩
  · rw [resolveSite, hsettled] at h
    refine Or.inr ⟨owner, rfl, ?_⟩
    obtain ⟨o, r, ho, h⟩ := Run.bind_eq_ok.1 h
    rcases o with _ | _ | ⟨first, rest⟩
    · cases h
      exact Or.inl ⟨ho, rfl⟩
    · cases h
      exact Or.inr (Or.inl ⟨ho, rfl⟩)
    · exact Or.inr (Or.inr ⟨first :: rest, r, by simp, ho, h⟩)

lemma ofEval_eq_ok {α : Type} {e : Eval α} {p q : Progress} {a : α}
    (h : Resolve.ofEval e p = (.ok a, q)) :
    e p.session = (.ok a, q.session) ∧ q.guard = p.guard ∧ q.resolved = p.resolved := by
  rcases hrun : e p.session with ⟨outcome, t⟩
  rw [Resolve.ofEval, hrun] at h
  cases h
  exact ⟨rfl, rfl, rfl⟩

/-- Calls of an owner are put through a call site one by one, and only the session changes. -/
lemma throughCalls_cases {host : Host} {c : Context} {site : CallSite}
    {parameters ownerParameters : List FormalParameter} {ownerCalls out : List ResolvedCall}
    {p q : Progress}
    (h : (ownerCalls.mapM fun call => Resolve.ofEval
      (throughCall host c parameters ownerParameters site call)) p = (.ok out, q)) :
    q.guard = p.guard ∧ q.resolved = p.resolved ∧ List.Forall₂ (fun ownerCall call => ∃ u w,
      throughCall host c parameters ownerParameters site ownerCall u = (.ok call, w))
      ownerCalls out := by
  obtain ⟨-, ⟨hguard, hresolved⟩, hall⟩ := Run.forall₂_of_mapM (I := fun _ => True)
    (R := fun p q : Progress => q.guard = p.guard ∧ q.resolved = p.resolved)
    (fun _ => ⟨rfl, rfl⟩) (fun h h' => ⟨h'.1.trans h.1, h'.2.trans h.2⟩)
    (fun _ _ _ _ _ _ hrun => ⟨trivial, (ofEval_eq_ok hrun).2⟩) trivial h
  refine ⟨hguard, hresolved, hall.imp fun ownerCall call hcall => ?_⟩
  obtain ⟨r, w, -, -, hrun, -⟩ := hcall
  exact ⟨r.session, w.session, (ofEval_eq_ok hrun).1⟩

/-- A call that comes through a call of the owner: the arguments are those of the call site with the
values of the parameters in their place. -/
lemma throughCall_cases {host : Host} {c : Context} {site : CallSite}
    {parameters ownerParameters : List FormalParameter} {ownerCall call : ResolvedCall}
    {s t : Session}
    (h : throughCall host c parameters ownerParameters site ownerCall s = (.ok call, t)) :
    ∃ arguments, call = ⟨site.call, arguments, parameters, propagatedResolution site arguments⟩ := by
  obtain ⟨values, u, -, h⟩ := Run.bind_eq_ok.1 h
  obtain ⟨cap, w, -, hpure⟩ := Run.bind_eq_ok.1 h
  cases hpure
  exact ⟨_, rfl⟩

/-- How the calls of a function are found: they are in the table, or the path refuses the function,
or its call sites are resolved with the function on the path. -/
lemma resolveFunction_cases {host : Host} {c : Context} {found : Callees} {fuel : Nat}
    {function : NodeId} {p q : Progress} {o : Option (List ResolvedCall)}
    (h : resolveFunction host c found (fuel + 1) function p = (.ok o, q)) :
    (∃ calls, p.resolved.get? function = some calls ∧ o = some calls ∧ q = p) ∨
    (p.resolved.get? function = none ∧ (p.guard.enter function).1 ≠ .entered ∧ o = none ∧
      q = { p with guard := (p.guard.enter function).2 }) ∨
    (p.resolved.get? function = none ∧ (p.guard.enter function).1 = .entered ∧ ∃ calls r,
      resolveSites (resolveSite host c found (resolveFunction host c found fuel)
        ((found.get? function).getD {}).parameters) ((found.get? function).getD {}).sites
        { p with guard := (p.guard.enter function).2 } = (.ok calls, r) ∧ o = some calls ∧
      q = { r with
        guard := r.guard.leave function, resolved := r.resolved.put function calls }) := by
  rw [resolveFunction, Run.get_bind] at h
  rcases hget : p.resolved.get? function with _ | calls
  · refine Or.inr ?_
    rw [hget] at h
    rcases henter : p.guard.enter function with ⟨answer, guard⟩
    rw [henter] at h
    rcases answer with _ | _ | _
    · refine Or.inr ⟨rfl, rfl, ?_⟩
      dsimp only at h
      rw [Run.set_bind] at h
      obtain ⟨calls, left, hcalls, h⟩ := Run.bind_eq_ok.1 h
      obtain ⟨r, hsites, rfl⟩ := thenLeave_eq_ok hcalls
      cases h
      exact ⟨calls, r, hsites, rfl, rfl⟩
    · cases h
      exact Or.inl ⟨rfl, by simp, rfl, rfl⟩
    · cases h
      exact Or.inl ⟨rfl, by simp, rfl, rfl⟩
  · rw [hget] at h
    cases h
    exact Or.inl ⟨calls, rfl, rfl, rfl⟩

end Propagation

namespace Contract

open Propagation

variable {host : Host} {k : Contract host} {c : Context} {found : Callees} {p q : Progress}

/-- Every call site has had its turn, and the calls that it stands for are listed. -/
lemma resolveSites_spec {calls : NodeId → Resolve (Option (List ResolvedCall))}
    (hcalls : k.Answers c found calls) {parameters : List FormalParameter} {sites : List CallSite}
    {final : List ResolvedCall} (hp : k.Sound c found p)
    (hsites : ∀ site ∈ sites, k.AllowsAll p.session site.arguments)
    (h : resolveSites (resolveSite host c found calls parameters) sites p = (.ok final, q)) :
    k.Sound c found q ∧ k.Leads p q ∧ k.AllowsCalls q.session final ∧
      ∀ site ∈ sites, ∃ u out w, k.Sound c found u ∧ k.Leads p u ∧
        resolveSite host c found calls parameters site u = (.ok out, w) ∧ k.Leads w q ∧
        ∀ call ∈ out, Listed final call := by
  let I := fun (u : Progress) (known : List ResolvedCall) =>
    k.Sound c found u ∧ k.Leads p u ∧ k.AllowsCalls u.session known
  let R := fun x y : Progress × List ResolvedCall => k.Leads x.1 y.1 ∧ x.2 ⊆ y.2
  have htrans : ∀ {x y z}, R x y → R y z → R x z := fun hxy hyz =>
    ⟨hxy.1.trans hyz.1, fun _ hcall => hyz.2 (hxy.2 hcall)⟩
  have hturn : ∀ {site u known known' w},
      (resolveSite host c found calls parameters site >>= fun out =>
        pure (out.foldl addCall known)) u = (.ok known', w) →
      ∃ out, resolveSite host c found calls parameters site u = (.ok out, w) ∧
        known' = out.foldl addCall known := by
    intro site u known known' w hrun
    obtain ⟨out, v, hout, hpure⟩ := Run.bind_eq_ok.1 hrun
    cases hpure
    exact ⟨out, hout, rfl⟩
  have hstep : ∀ site ∈ sites, ∀ u known known' w, I u known →
      (resolveSite host c found calls parameters site >>= fun out =>
        pure (out.foldl addCall known)) u = (.ok known', w) →
      I w known' ∧ R (u, known) (w, known') := by
    rintro site hsite u known known' w ⟨hu, hpu, hknown⟩ hrun
    obtain ⟨out, hout, rfl⟩ := hturn hrun
    obtain ⟨hw, huw, hallowed, -⟩ :=
      resolveSite_spec hcalls hu (AllowsAll.ext (hsites site hsite) hpu.ext) hout
    obtain ⟨hsub, -, hfrom⟩ := foldl_addCall_spec out known
    refine ⟨⟨hw, hpu.trans huw, fun call hcall => ?_⟩, huw, hsub⟩
    rcases hfrom call hcall with hold | hnew
    · exact AllowsAll.ext (hknown call hold) huw.ext
    · exact hallowed call hnew
  obtain ⟨⟨hq, hpq, hfinal⟩, -, hturns⟩ := Run.exists_of_foldlM (I := I) (R := R)
    (fun _ => ⟨.refl _, fun _ h => h⟩) htrans hstep ⟨hp, .refl p, by simp [AllowsCalls]⟩ h
  refine ⟨hq, hpq, hfinal, fun site hsite => ?_⟩
  -- the list only grows, so what the site has added is still listed at the end
  obtain ⟨u, known, known', w, ⟨hu, hpu, -⟩, -, hrun, hwq, hsub⟩ := hturns site hsite
  obtain ⟨out, hout, rfl⟩ := hturn hrun
  exact ⟨u, out, w, hu, hpu, hout, hwq, fun call hcall =>
    ((foldl_addCall_spec out known).2.1 call hcall).mono hsub⟩

lemma Sound.withGuard (h : k.Sound c found p) (guard : Guard NodeId) :
    k.Sound c found { p with guard } := ⟨h.inv, h.branch, h.found, h.resolved⟩

/-- Resolving a function comes back to the path that it started from, and gives the calls that stand
in the table after it.  The induction is on the room that is left on the path. -/
theorem answers_resolveFunction (k : Contract host) (c : Context) (found : Callees) (fuel : Nat) :
    k.Answers c found (resolveFunction host c found fuel) := by
  induction fuel with
  | zero =>
    intro function p o q hp h
    cases h
    exact ⟨hp, .refl _, fun known hnone => by cases hnone⟩
  | succ fuel ih =>
    intro function p o q hp h
    rcases resolveFunction_cases h with ⟨calls, hget, rfl, rfl⟩ | ⟨hget, hrefused, rfl, rfl⟩ |
      ⟨hget, hentered, calls, r, hsites, rfl, rfl⟩
    · refine ⟨hp, .refl _, fun known hknown => ?_⟩
      obtain rfl := Option.some.inj hknown
      exact hget
    · exact ⟨hp.withGuard _, ⟨k.ext_refl _, Guard.samePath_enter hrefused, fun _ _ hf => hf⟩,
        fun known hnone => by cases hnone⟩
    · -- the call sites are resolved one level deeper on the path
      have hallowed : ∀ site ∈ ((found.get? function).getD {}).sites,
          k.AllowsAll p.session site.arguments := by
        intro site hsite
        rcases hcallee : found.get? function with _ | callee
        · rw [hcallee] at hsite
          cases hsite
        · rw [hcallee] at hsite
          exact (hp.found function callee hcallee).2 site hsite
      obtain ⟨hr, hpr, hcalls, -⟩ :=
        resolveSites_spec ih (hp.withGuard (p.guard.enter function).2) hallowed hsites
      refine ⟨⟨hr.inv, hr.branch, hr.found, fun f known hf => ?_⟩,
        ⟨hpr.ext, hpr.guard.leave hentered, fun f known hf => ?_⟩, fun known hknown => ?_⟩
      · by_cases hfunction : function = f
        · subst hfunction
          rw [Table.get?_put_self] at hf
          obtain rfl := Option.some.inj hf
          exact hcalls
        · rw [Table.get?_put_of_ne _ hfunction] at hf
          exact hr.resolved f known hf
      · -- the function was not in the table, so putting it there replaces nothing
        have hne : function ≠ f := by
          rintro rfl
          rw [hget] at hf
          cases hf
        rw [Table.get?_put_of_ne _ hne]
        exact hpr.kept f known hf
      · obtain rfl := Option.some.inj hknown
        exact Table.get?_put_self ..

end Contract

end ValueSchema
