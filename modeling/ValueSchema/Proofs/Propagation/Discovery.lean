/-
# What the discovery of call sites finds

Discovery evaluates the arguments of calls, so it keeps every contract that evaluations keep.  What
has been found about a function is never replaced, and the owners of the calls of the function that
it starts from are among the functions that it has looked at.
-/
import ValueSchema.Proofs.Evaluation.Preservation
import ValueSchema.Propagation.CallSite

namespace ValueSchema

variable {host : Host} {k : Contract host} {c : Context} {s t : Session}

namespace Propagation

/-- Everything that has been found stays. -/
def Grows (found later : Callees) : Prop :=
  ∀ f callee, found.get? f = some callee → later.get? f = some callee

lemma Grows.refl (found : Callees) : Grows found found := fun _ _ h => h

lemma Grows.trans {first second third : Callees} (h : Grows first second)
    (h' : Grows second third) : Grows first third := fun f callee hf => h' f callee (h f callee hf)

lemma grows_put {found : Callees} {f : NodeId} (h : found.get? f = none) (callee : Callee) :
    Grows found (found.put f callee) := by
  intro g known hg
  have hne : f ≠ g := by
    rintro rfl
    rw [h] at hg
    cases hg
  rw [Table.get?_put_of_ne found hne, hg]

end Propagation

namespace Contract

open Propagation

/-! ## Call sites -/

lemma meets_callSite (hb : k.Admits s c.branch) (call : NodeId) (arguments : List NodeId) :
    k.Meets k.Err s (callSite host c call arguments) fun t site => k.AllowsAll t site.arguments := by
  have hkeeps := k.keeps_evaluator c.remaining
  refine (meets_positionalArguments hkeeps hb arguments).bind fun t o _ hst ho => ?_
  cases o with
  | some schemas => exact .pure fun _ => ho schemas rfl
  | none =>
    have hall : k.Meets k.Err t ((arguments.map (plainArgument host.tree)).mapM
        (c.schemaOfNode host)) k.AllowsAll :=
      .mapM (fun _ _ _ huw hr => Allows.ext hr huw) fun n _ u htu =>
        hkeeps.node u _ n (hb.ext (k.ext_trans hst htu))
    exact hall.map fun _ _ _ hr => hr

lemma meets_callSites (hb : k.Admits s c.branch) (symbol : SymbolId) :
    k.Meets k.Err s (callSites host c symbol)
      fun t sites => ∀ site ∈ sites, k.AllowsAll t site.arguments :=
  .mapM (fun _ _ _ huw hsite => AllowsAll.ext hsite huw) fun call _ _ hst =>
    meets_callSite (hb.ext hst) call _

/-! ## Functions -/

/-- What has been found about functions: their parameters, and call sites whose arguments may be
used in a session. -/
def AllowsFound (k : Contract host) (s : Session) (found : Callees) : Prop :=
  ∀ f callee, found.get? f = some callee → callee.parameters = formalParameters host f ∧
    ∀ site ∈ callee.sites, k.AllowsAll s site.arguments

lemma AllowsFound.ext {found : Callees} (h : k.AllowsFound s found) (hst : k.Ext s t) :
    k.AllowsFound t found := by
  intro f callee hf
  obtain ⟨hparameters, hsites⟩ := h f callee hf
  exact ⟨hparameters, fun site hsite => AllowsAll.ext (hsites site hsite) hst⟩

lemma AllowsFound.put {found : Callees} (h : k.AllowsFound s found) (f : NodeId)
    {sites : List CallSite} (hsites : ∀ site ∈ sites, k.AllowsAll s site.arguments) :
    k.AllowsFound s (found.put f ⟨formalParameters host f, sites⟩) := by
  intro g callee hg
  by_cases hfg : f = g
  · subst hfg
    rw [Table.get?_put_self] at hg
    obtain rfl := Option.some.inj hg
    exact ⟨rfl, hsites⟩
  · rw [Table.get?_put_of_ne found hfg] at hg
    exact h g callee hg

/-- Looking at a function adds what is found about it, unless it is known. -/
lemma meets_visit (hb : k.Admits s c.branch) {found : Callees × List NodeId}
    (hfound : k.AllowsFound s found.1) (f : NodeId) (symbol : Option SymbolId) :
    k.Meets k.Err s (visit host c found f symbol) fun t later =>
      k.AllowsFound t later.1 ∧ Grows found.1 later.1 ∧ (later.1.get? f).isSome = true := by
  rw [visit]
  split
  · rename_i hknown
    exact .pure fun _ => ⟨hfound, .refl _, hknown⟩
  · rename_i hunknown
    have hnone : found.1.get? f = none := by simpa using hunknown
    have hput : ∀ t sites, k.Ext s t → (∀ site ∈ sites, k.AllowsAll t site.arguments) →
        let later := found.1.put f ⟨formalParameters host f, sites⟩
        k.AllowsFound t later ∧ Grows found.1 later ∧ (later.get? f).isSome = true := by
      intro t sites hst hall
      refine ⟨(hfound.ext hst).put f hall, grows_put hnone _, ?_⟩
      rw [Table.get?_put_self]
      rfl
    dsimp only
    split
    · exact (meets_callSites hb _).map fun t sites hst hall => hput t sites hst hall
    · exact .pure fun _ => hput s [] (k.ext_refl s) (by simp)

/-- What is found on the way from one state of the discovery to another. -/
lemma visitAll_spec (hs : k.Inv s) (hb : k.Admits s c.branch) {functions : List NodeId}
    {found later : Callees × List NodeId} (hfound : k.AllowsFound s found.1)
    (h : functions.foldlM (fun found f => visit host c found f (symbolOfFunction? host f)) found s =
      (.ok later, t)) :
    k.Inv t ∧ k.Ext s t ∧ k.AllowsFound t later.1 ∧ Grows found.1 later.1 ∧
      ∀ f ∈ functions, (later.1.get? f).isSome = true := by
  let R := fun x y : Session × Callees × List NodeId => k.Ext x.1 y.1 ∧ Grows x.2.1 y.2.1
  have htrans : ∀ {x y z}, R x y → R y z → R x z := fun hxy hyz =>
    ⟨k.ext_trans hxy.1 hyz.1, hxy.2.trans hyz.2⟩
  have hstep : ∀ f ∈ functions, ∀ u found later w,
      (k.Inv u ∧ k.Ext s u ∧ k.AllowsFound u found.1) →
      visit host c found f (symbolOfFunction? host f) u = (.ok later, w) →
      (k.Inv w ∧ k.Ext s w ∧ k.AllowsFound w later.1) ∧ R (u, found) (w, later) := by
    rintro f - u found later w ⟨hu, hsu, hfound⟩ hvisit
    obtain ⟨hw, huw, hlater, hgrows, -⟩ :=
      (meets_visit (hb.ext hsu) hfound f (symbolOfFunction? host f)).ok hu later w hvisit
    exact ⟨⟨hw, k.ext_trans hsu huw, hlater⟩, huw, hgrows⟩
  obtain ⟨⟨ht, -, hlater⟩, ⟨hst, hgrows⟩, hturns⟩ := Run.exists_of_foldlM
    (I := fun u found => k.Inv u ∧ k.Ext s u ∧ k.AllowsFound u found.1) (R := R)
    (fun _ => ⟨k.ext_refl _, .refl _⟩) htrans hstep ⟨hs, k.ext_refl s, hfound⟩ h
  refine ⟨ht, hst, hlater, hgrows, fun f hf => ?_⟩
  obtain ⟨u, found, next, w, ⟨hu, hsu, hfound⟩, -, hvisit, -, hgrows⟩ := hturns f hf
  obtain ⟨-, -, -, -, hsome⟩ :=
    (meets_visit (hb.ext hsu) hfound f (symbolOfFunction? host f)).ok hu next w hvisit
  obtain ⟨callee, hcallee⟩ := Option.isSome_iff_exists.1 hsome
  rw [hgrows f callee hcallee]
  rfl

/-- Discovery from functions on has looked at each of them. -/
lemma discoverFrom_spec (hs : k.Inv s) (hb : k.Admits s c.branch) (depth : Nat)
    {functions : List NodeId} {found final : Callees} (hfound : k.AllowsFound s found)
    (h : discoverFrom host c depth functions found s = (.ok final, t)) :
    k.Inv t ∧ k.Ext s t ∧ k.AllowsFound t final ∧ Grows found final ∧
      ∀ f ∈ functions, (final.get? f).isSome = true := by
  induction depth generalizing s functions found with
  | zero =>
    rw [discoverFrom] at h
    obtain ⟨later, u, hlater, h⟩ := Run.bind_eq_ok.1 h
    cases h
    exact visitAll_spec hs hb hfound hlater
  | succ depth ih =>
    rw [discoverFrom] at h
    obtain ⟨later, u, hlater, h⟩ := Run.bind_eq_ok.1 h
    obtain ⟨hu, hsu, hallowed, hgrows, hall⟩ := visitAll_spec hs hb hfound hlater
    dsimp only at h
    split at h
    · cases h
      exact ⟨hu, hsu, hallowed, hgrows, hall⟩
    · obtain ⟨ht, hut, hfinal, hmore, -⟩ := ih hu (hb.ext hsu) hallowed h
      refine ⟨ht, k.ext_trans hsu hut, hfinal, hgrows.trans hmore, fun f hf => ?_⟩
      obtain ⟨callee, hcallee⟩ := Option.isSome_iff_exists.1 (hall f hf)
      rw [hmore f callee hcallee]
      rfl

/-- Discovery finds the call sites of the function that it starts from, and the parameters of the
owners of these call sites. -/
theorem discover_spec (hs : k.Inv s) (hb : k.Admits s c.branch) {function : NodeId}
    {symbol : SymbolId} {found : Callees}
    (h : discover host c function symbol s = (.ok found, t)) :
    k.Inv t ∧ k.AllowsFound t found ∧ ∃ sites u, callSites host c symbol s = (.ok sites, u) ∧
      k.Ext u t ∧ found.get? function = some ⟨formalParameters host function, sites⟩ ∧
      ∀ site ∈ sites, ∀ owner ∈ site.owners, ∃ callee, found.get? owner = some callee := by
  obtain ⟨first, u, hfirst, h⟩ := Run.bind_eq_ok.1 h
  rw [visit] at hfirst
  obtain ⟨sites, w, hsites, hpure⟩ := Run.bind_eq_ok.1 hfirst
  cases hpure
  obtain ⟨hu, hsu, hallowed⟩ := (meets_callSites hb symbol).ok hs sites u hsites
  have hstart : k.AllowsFound u
      (Table.put [] function ⟨formalParameters host function, sites⟩) :=
    AllowsFound.put (fun _ _ hnone => by cases hnone) function hallowed
  obtain ⟨ht, hut, hfound, hgrows, hall⟩ := discoverFrom_spec hu (hb.ext hsu) _ hstart h
  refine ⟨ht, hfound, sites, u, hsites, hut, hgrows _ _ (Table.get?_put_self _ _ _),
    fun site hsite owner howner => Option.isSome_iff_exists.1 (hall owner ?_)⟩
  exact List.mem_flatMap.2 ⟨site, hsite, howner⟩

end Contract

end ValueSchema
