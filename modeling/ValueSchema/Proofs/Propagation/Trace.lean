/-
# Runs of the resolution

How a run of `functionCalls` comes to its result: it discovers call sites, and then resolves the
function and, on the way, the owners of its call sites.  The table at the end has the calls of each
of these owners, and every call site of the function stands for one call for each call of its owner.
-/
import ValueSchema.Proofs.Propagation.Resolution

namespace ValueSchema.Propagation

/-- How a run came to the calls of a function: what it has found, and how far it has come. -/
structure Trace (host : Host) (c : Context) (symbol : SymbolId) (s : Session)
    (calls : List ResolvedCall) (t : Session) where
  /-- What the symbol declares. -/
  declaration : NodeId
  /-- The function. -/
  function : NodeId
  /-- The call sites that were found. -/
  found : Callees
  /-- The session after they were found. -/
  middle : Session
  /-- The progress at the end, with the calls of every function that was resolved. -/
  progress : Progress
  declares : host.declarationOfSymbol symbol = some declaration
  isFunction : Evaluation.functionOfDeclaration? host.tree declaration = some function
  discovered : discover host c function symbol s = (.ok found, middle)
  resolved : resolveFunction host c found (maxDepth + 1) function { session := middle } =
    (.ok (some calls), progress)
  session_eq : progress.session = t

section

variable {host : Host} {c : Context} {symbol : SymbolId} {s t : Session} {calls : List ResolvedCall}

/-- The call sites of the function itself. -/
def Trace.sites (trace : Trace host c symbol s calls t) : List CallSite :=
  ((trace.found.get? trace.function).getD {}).sites

/-- A function is resolved if it is not active and the path is not too long. -/
lemma exists_calls_of_short {found : Callees} {fuel : Nat} {function : NodeId} {p q : Progress}
    {o : Option (List ResolvedCall)} (hactive : p.guard.isActive function = false)
    (hdepth : p.guard.depth < p.guard.limit)
    (h : resolveFunction host c found (fuel + 1) function p = (.ok o, q)) :
    ∃ known, o = some known := by
  rcases resolveFunction_cases h with ⟨known, -, rfl, -⟩ | ⟨-, hrefused, -⟩ |
    ⟨-, -, known, -, -, rfl, -⟩
  · exact ⟨known, rfl⟩
  · exact absurd (Guard.enter_of_short hactive hdepth) hrefused
  · exact ⟨known, rfl⟩

lemma exists_trace (h : functionCalls host c symbol s = (.ok calls, t)) :
    Nonempty (Trace host c symbol s calls t) := by
  rw [functionCalls] at h
  rcases hdeclares : host.declarationOfSymbol symbol with _ | declaration
  · rw [hdeclares] at h
    cases h
  rw [hdeclares] at h
  dsimp only at h
  rcases hfunction : Evaluation.functionOfDeclaration? host.tree declaration with _ | function
  · rw [hfunction] at h
    cases h
  rw [hfunction] at h
  obtain ⟨found, middle, hfound, h⟩ := Run.bind_eq_ok.1 h
  rw [Run.get_bind] at h
  rcases hrun : resolveFunction host c found (maxDepth + 1) function { session := middle } with
    ⟨stop | o, progress⟩
  · rw [hrun] at h
    cases h
  · obtain ⟨known, rfl⟩ := exists_calls_of_short rfl (by simp [Guard.depth, maxDepth]) hrun
    rw [hrun] at h
    cases h
    exact ⟨declaration, function, found, middle, progress, hdeclares, hfunction, hfound, hrun, rfl⟩

/-- In a run, a call site stands for one call for each call that its owner turns out to have. -/
lemma Trace.exists_call {k : Contract host} (trace : Trace host c symbol s calls t)
    (hmiddle : k.Inv trace.middle) (hb : k.Admits trace.middle c.branch)
    (hfound : k.AllowsFound trace.middle trace.found) {sites : List CallSite}
    (hfunction : trace.found.get? trace.function =
      some ⟨formalParameters host trace.function, sites⟩) :
    k.Ext trace.middle t ∧ ∀ site ∈ sites, ∀ owner, settled? site = .inr owner →
      owner ≠ trace.function → ∃ ownerCalls,
        trace.progress.resolved.get? owner = some ownerCalls ∧
        ∀ ownerCall ∈ ownerCalls, ∃ call, Listed calls call ∧ ∃ u w, k.Inv u ∧
          k.Admits u c.branch ∧ k.AllowsAll u site.arguments ∧
          k.AllowsAll u ownerCall.arguments ∧
          throughCall host c (formalParameters host trace.function)
            ((trace.found.get? owner).getD {}).parameters site ownerCall u = (.ok call, w) := by
  have hstart : k.Sound c trace.found { session := trace.middle } :=
    ⟨hmiddle, hb, hfound, fun _ _ hnone => by cases hnone⟩
  rcases resolveFunction_cases trace.resolved with ⟨_, hnone, -⟩ | ⟨-, -, hnone, -⟩ |
    ⟨-, hentered, known, r, hsites, hcalls, hprogress⟩
  · cases hnone
  · cases hnone
  obtain rfl := Option.some.inj hcalls
  rw [hfunction, Option.getD_some] at hsites
  have hanswers := k.answers_resolveFunction c trace.found maxDepth
  obtain ⟨hr, hstartr, -, hturns⟩ := Contract.resolveSites_spec hanswers (hstart.withGuard _)
    (hfound _ _ hfunction).2 hsites
  refine ⟨?_, fun site hsite owner hsettled hne => ?_⟩
  · have hsession : r.session = t := by simpa [hprogress] using trace.session_eq
    exact hsession ▸ hstartr.ext
  obtain ⟨p, out, q, hp, hstartp, hrun, hqr, hlisted⟩ := hturns site hsite
  have hallowed := Contract.AllowsAll.ext ((hfound _ _ hfunction).2 site hsite) hstartp.ext
  obtain ⟨-, -, -, howner⟩ := Contract.resolveSite_spec hanswers hp hallowed hrun
  obtain ⟨o, p', hcalls, hp'q, hthrough⟩ := howner owner hsettled
  -- only the function itself is on the path
  have hactive : p.guard.isActive owner = false := by
    rw [hstartp.guard.isActive, Guard.isActive_enter hentered]
    simpa [Guard.isActive] using hne
  have hdepth : p.guard.depth < p.guard.limit := by
    rw [Guard.depth, hstartp.guard.path, hstartp.guard.limit, Guard.path_enter hentered,
      Guard.limit_enter]
    simp [maxDepth]
  obtain ⟨ownerCalls, rfl⟩ := exists_calls_of_short hactive hdepth hcalls
  obtain ⟨hp', hpp', hknown⟩ := hanswers owner p _ p' hp hcalls
  have hget := hknown ownerCalls rfl
  refine ⟨ownerCalls, ?_, fun ownerCall hmem => ?_⟩
  · rw [hprogress]
    show (r.resolved.put trace.function calls).get? owner = _
    rw [Table.get?_put_of_ne _ hne.symm]
    exact hqr.kept _ _ (hp'q.kept _ _ hget)
  · obtain ⟨call, hcall, u, w, hu, hp'u, hrun⟩ := hthrough ownerCalls rfl ownerCall hmem
    exact ⟨call, hlisted call hcall, u, w, hu, hp'.branch.ext hp'u,
      Contract.AllowsAll.ext hallowed (k.ext_trans hpp'.ext hp'u),
      Contract.AllowsAll.ext (hp'.resolved owner _ hget ownerCall hmem) hp'u, hrun⟩

end

end ValueSchema.Propagation
