/-
# Discovery covers resolution

Discovery goes from a function to the owners of its calls level by level, and stops after a number of
levels.  Resolution goes from a function to the first owner of each call along a path, and stops where
the path is as long as it may be.  Both limits are the same number, and a path of that length stays
within the levels that discovery has looked at: whatever function the resolution enters, its call
sites have been recorded, `Propagation.discovery_covers_resolution`.

So a call whose owner is reported never to be called has an owner without any call; an owner that was
only too far away is reported otherwise.
-/
import Mathlib.Logic.Relation
import ValueSchema.Program.Basic
import ValueSchema.Proofs.Propagation.Trace

namespace ValueSchema.Propagation

variable {host : Host} {c : Context} {s t : Session}

/-! ## What is recorded of a function -/

/-- The calls of a function have been looked for by a symbol: there is a call site for each of them,
in order, and none if there is no symbol. -/
structure Recorded (host : Host) (f : NodeId) (symbol : Option SymbolId) (callee : Callee) :
    Prop where
  parameters : callee.parameters = formalParameters host f
  calls : callee.sites.map CallSite.call = symbol.elim [] (callsOf host)

/-- The symbol that discovery looks for: the given one for the function that it starts from. -/
def symbolFrom (host : Host) (root : NodeId) (symbol : SymbolId) (f : NodeId) : Option SymbolId :=
  if f = root then some symbol else symbolOfFunction? host f

lemma call_callSite {call : NodeId} {arguments : List NodeId} {site : CallSite}
    (h : callSite host c call arguments s = (.ok site, t)) : site.call = call := by
  obtain ⟨o, u, -, h⟩ := Run.bind_eq_ok.1 h
  cases o with
  | some schemas =>
    cases h
    rfl
  | none =>
    obtain ⟨schemas, w, -, hpure⟩ := Run.bind_eq_ok.1 h
    cases hpure
    rfl

lemma calls_callSites {symbol : SymbolId} {sites : List CallSite}
    (h : callSites host c symbol s = (.ok sites, t)) :
    sites.map CallSite.call = callsOf host symbol := by
  obtain ⟨-, -, hall⟩ := Run.forall₂_of_mapM (I := fun _ => True) (R := fun _ _ => True)
    (fun _ => trivial) (fun _ _ => trivial) (fun _ _ _ _ _ _ _ => ⟨trivial, trivial⟩) trivial h
  have hcalls : List.Forall₂ (fun call site => site.call = call) (callsOf host symbol) sites := by
    refine hall.imp fun call site hsite => ?_
    obtain ⟨v, w, -, -, hrun, -⟩ := hsite
    exact call_callSite hrun
  simpa using Run.map_eq_of_forall₂ (g := id) hcalls

/-- A function that is looked at is known already, or is recorded and its owners are noted. -/
lemma visit_cases {found later : Callees × List NodeId} {f : NodeId} {symbol : Option SymbolId}
    (h : visit host c found f symbol s = (.ok later, t)) :
    ((found.1.get? f).isSome = true ∧ later = found) ∨
    found.1.get? f = none ∧ ∃ callee, Recorded host f symbol callee ∧
      later = (found.1.put f callee, found.2 ++ callee.sites.flatMap CallSite.owners) := by
  rw [visit] at h
  split at h
  · cases h
    exact Or.inl ⟨‹_›, rfl⟩
  · rename_i hunknown
    refine Or.inr ⟨by simpa using hunknown, ?_⟩
    cases symbol with
    | none =>
      cases h
      exact ⟨_, ⟨rfl, rfl⟩, rfl⟩
    | some symbol =>
      obtain ⟨sites, u, hsites, hpure⟩ := Run.bind_eq_ok.1 h
      cases hpure
      exact ⟨_, ⟨rfl, calls_callSites hsites⟩, rfl⟩

/-! ## Levels of owners -/

/-- The owners of the calls of a function, as far as they have been found. -/
def ownersIn (found : Callees) (f : NodeId) : List NodeId :=
  ((found.get? f).getD {}).sites.flatMap CallSite.owners

/-- From a function to another one in a number of steps, each to an owner of a call. -/
inductive Upstream (found : Callees) : Nat → NodeId → NodeId → Prop
  | refl (f : NodeId) : Upstream found 0 f f
  | head {n : Nat} {f owner g : NodeId} (howner : owner ∈ ownersIn found f)
    (h : Upstream found n owner g) : Upstream found (n + 1) f g

lemma Upstream.snoc {found : Callees} {n : Nat} {f g owner : NodeId} (h : Upstream found n f g)
    (howner : owner ∈ ownersIn found g) : Upstream found (n + 1) f owner := by
  induction h with
  | refl f => exact .head howner (.refl owner)
  | head hfirst _ ih => exact .head hfirst (ih howner)

/-- What has been found is recorded by the right symbols, and the owners that have not been looked at
wait. -/
structure Explored (host : Host) (root : NodeId) (symbol : SymbolId) (found : Callees)
    (waiting : List NodeId) : Prop where
  recorded : ∀ f callee, found.get? f = some callee →
    Recorded host f (symbolFrom host root symbol f) callee
  owners : ∀ f, ∀ owner ∈ ownersIn found f, owner ∈ waiting ∨ (found.get? owner).isSome = true

variable {root : NodeId} {symbol : SymbolId} {found : Callees}

lemma Explored.root_of_nil (host : Host) (root : NodeId) (symbol : SymbolId)
    (waiting : List NodeId) : Explored host root symbol [] waiting where
  recorded := by simp [Table.get?]
  owners := by simp [ownersIn, Table.get?]

/-- Recording a function that was waiting puts its owners in its place. -/
lemma Explored.put {f : NodeId} {waiting : List NodeId} {callee : Callee}
    (h : Explored host root symbol found (f :: waiting))
    (hcallee : Recorded host f (symbolFrom host root symbol f) callee) :
    Explored host root symbol (found.put f callee)
      (waiting ++ callee.sites.flatMap CallSite.owners) where
  recorded := by
    intro g known hg
    by_cases hfg : f = g
    · subst hfg
      rw [Table.get?_put_self] at hg
      obtain rfl := Option.some.inj hg
      exact hcallee
    · rw [Table.get?_put_of_ne found hfg] at hg
      exact h.recorded g known hg
  owners := by
    intro g owner howner
    by_cases hfo : f = owner
    · subst hfo
      exact Or.inr (by rw [Table.get?_put_self]; rfl)
    rw [Table.get?_put_of_ne found hfo]
    by_cases hfg : f = g
    · subst hfg
      rw [ownersIn, Table.get?_put_self] at howner
      exact Or.inl (List.mem_append_right _ howner)
    · rw [ownersIn, Table.get?_put_of_ne found hfg] at howner
      rcases h.owners g owner howner with hwaiting | hfound
      · rcases List.mem_cons.1 hwaiting with rfl | hwaiting
        · exact absurd rfl hfo
        · exact Or.inl (List.mem_append_left _ hwaiting)
      · exact Or.inr hfound

/-- A function that is known need not wait. -/
lemma Explored.drop {f : NodeId} {waiting : List NodeId}
    (h : Explored host root symbol found (f :: waiting)) (hf : (found.get? f).isSome = true) :
    Explored host root symbol found waiting where
  recorded := h.recorded
  owners := by
    intro g owner howner
    rcases h.owners g owner howner with hwaiting | hfound
    · rcases List.mem_cons.1 hwaiting with rfl | hwaiting
      · exact Or.inr hf
      · exact Or.inl hwaiting
    · exact Or.inr hfound

/-- If nothing waits, everything upstream is known. -/
lemma Explored.isSome (h : Explored host root symbol found []) {n : Nat} {f g : NodeId}
    (hup : Upstream found n f g) (hf : (found.get? f).isSome = true) :
    (found.get? g).isSome = true := by
  induction hup with
  | refl f => exact hf
  | head howner _ ih => exact ih ((h.owners _ _ howner).resolve_left List.not_mem_nil)

lemma isSome_of_grows {later : Callees} (h : Grows found later) {f : NodeId}
    (hf : (found.get? f).isSome = true) : (later.get? f).isSome = true := by
  obtain ⟨callee, hcallee⟩ := Option.isSome_iff_exists.1 hf
  rw [h f callee hcallee]
  rfl

/-- Looking at one function after the other: all of them are known at the end. -/
lemma explored_visitAll {functions next : List NodeId} {later : Callees × List NodeId}
    (hroot : (found.get? root).isSome = true)
    (h : Explored host root symbol found (functions ++ next))
    (hrun : functions.foldlM (fun found f => visit host c found f (symbolOfFunction? host f))
      (found, next) s = (.ok later, t)) :
    Grows found later.1 ∧ Explored host root symbol later.1 later.2 ∧
      ∀ f ∈ functions, (later.1.get? f).isSome = true := by
  induction functions generalizing found next s with
  | nil =>
    cases hrun
    exact ⟨.refl found, h, by simp⟩
  | cons f rest ih =>
    rw [List.foldlM_cons] at hrun
    obtain ⟨first, u, hvisit, hrun⟩ := Run.bind_eq_ok.1 hrun
    rcases visit_cases hvisit with ⟨hknown, rfl⟩ | ⟨hnew, callee, hcallee, rfl⟩
    · obtain ⟨hgrows, hlater, hall⟩ := ih hroot (h.drop hknown) hrun
      exact ⟨hgrows, hlater, List.forall_mem_cons.2 ⟨isSome_of_grows hgrows hknown, hall⟩⟩
    · have hne : f ≠ root := by
        rintro rfl
        rw [hnew] at hroot
        cases hroot
      have hput := grows_put hnew callee
      have hexplored : Explored host root symbol (found.put f callee)
          (rest ++ (next ++ callee.sites.flatMap CallSite.owners)) := by
        rw [← List.append_assoc]
        refine h.put ?_
        rwa [symbolFrom, if_neg hne]
      obtain ⟨hgrows, hlater, hall⟩ := ih (isSome_of_grows hput hroot) hexplored hrun
      refine ⟨hput.trans hgrows, hlater, List.forall_mem_cons.2 ⟨?_, hall⟩⟩
      refine isSome_of_grows hgrows ?_
      rw [Table.get?_put_self]
      rfl

/-- What is looked at stays as it was recorded, so its owners are the same at the end. -/
lemma ownersIn_of_grows {later : Callees} (h : Grows found later) {f : NodeId}
    (hf : (found.get? f).isSome = true) : ownersIn later f = ownersIn found f := by
  obtain ⟨callee, hcallee⟩ := Option.isSome_iff_exists.1 hf
  rw [ownersIn, ownersIn, h f callee hcallee, hcallee]

/-- Discovery with a depth finds everything that many steps upstream.  The induction is on the depth;
a step is one level. -/
lemma discoverFrom_covers (depth : Nat) {functions : List NodeId} {final : Callees}
    (hroot : (found.get? root).isSome = true) (h : Explored host root symbol found functions)
    (hrun : discoverFrom host c depth functions found s = (.ok final, t)) :
    (∀ f callee, final.get? f = some callee →
      Recorded host f (symbolFrom host root symbol f) callee) ∧ Grows found final ∧
    ∀ n f g, n ≤ depth → f ∈ functions ∨ (found.get? f).isSome = true → Upstream final n f g →
      (final.get? g).isSome = true := by
  induction depth generalizing s functions found with
  | zero =>
    rw [discoverFrom] at hrun
    obtain ⟨later, u, hlater, hpure⟩ := Run.bind_eq_ok.1 hrun
    cases hpure
    obtain ⟨hgrows, hexplored, hall⟩ := explored_visitAll hroot (by simpa using h) hlater
    refine ⟨hexplored.recorded, hgrows, fun n f g hn hf hup => ?_⟩
    obtain rfl : n = 0 := Nat.le_zero.1 hn
    cases hup
    exact hf.elim (hall f) (isSome_of_grows hgrows)
  | succ depth ih =>
    rw [discoverFrom] at hrun
    obtain ⟨later, u, hlater, hrun⟩ := Run.bind_eq_ok.1 hrun
    obtain ⟨hgrows, hexplored, hall⟩ := explored_visitAll hroot (by simpa using h) hlater
    have hlook : ∀ f, f ∈ functions ∨ (found.get? f).isSome = true →
        (later.1.get? f).isSome = true := fun f hf => hf.elim (hall f) (isSome_of_grows hgrows)
    dsimp only at hrun
    split at hrun
    · -- no owner waits, so nothing upstream is missing
      rename_i hempty
      cases hrun
      rw [List.isEmpty_iff.1 hempty] at hexplored
      exact ⟨hexplored.recorded, hgrows, fun n f g _ hf hup => hexplored.isSome hup (hlook f hf)⟩
    · obtain ⟨hrecorded, hmore, hcovers⟩ := ih (isSome_of_grows hgrows hroot) hexplored hrun
      refine ⟨hrecorded, hgrows.trans hmore, fun n f g hn hf hup => ?_⟩
      cases hup with
      | refl => exact isSome_of_grows hmore (hlook f hf)
      | @head n f owner g howner hup =>
        rw [ownersIn_of_grows hmore (hlook f hf)] at howner
        exact hcovers n owner g (by omega) (hexplored.owners f owner howner) hup

/-- Everything that the limit allows to be reached has been recorded. -/
lemma discover_covers {final : Callees}
    (hrun : discover host c root symbol s = (.ok final, t)) :
    (∀ f callee, final.get? f = some callee →
      Recorded host f (symbolFrom host root symbol f) callee) ∧
    ∀ n f, n ≤ maxDepth → Upstream final n root f → (final.get? f).isSome = true := by
  obtain ⟨first, u, hvisit, hrun⟩ := Run.bind_eq_ok.1 hrun
  rcases visit_cases hvisit with ⟨hknown, -⟩ | ⟨-, callee, hcallee, rfl⟩
  · cases hknown
  have hexplored : Explored host root symbol (Table.put [] root callee)
      (callee.sites.flatMap CallSite.owners) := by
    refine (Explored.root_of_nil host root symbol [root]).put ?_
    rwa [symbolFrom, if_pos rfl]
  have hroot : ((Table.put [] root callee).get? root).isSome = true := by
    rw [Table.get?_put_self]
    rfl
  obtain ⟨hrecorded, hgrows, hcovers⟩ := discoverFrom_covers _ hroot hexplored hrun
  refine ⟨hrecorded, fun n f hn hup => ?_⟩
  cases hup with
  | refl => exact isSome_of_grows hgrows hroot
  | @head n f owner g howner hup =>
    -- the first step leads to the functions that the other levels start from
    rw [ownersIn_of_grows hgrows hroot] at howner
    exact hcovers n owner f (by omega) (hexplored.owners root owner howner) hup

/-! ## Tasks of a resolution -/

/-- A function whose calls are asked for, with the room that is left and the progress so far. -/
structure Task where
  /-- How many functions may be asked for inside one another. -/
  room : Nat
  /-- The function. -/
  function : NodeId
  /-- The progress when it is asked for. -/
  progress : Progress

namespace Task

/-- The task that a resolution starts with. -/
def start (function : NodeId) (session : Session) : Task := ⟨maxDepth + 1, function, { session }⟩

/-- The progress with the function on the path. -/
def inside (task : Task) : Progress :=
  { task.progress with guard := (task.progress.guard.enter task.function).2 }

/-- The calls of the function are found by resolving its call sites, with the function on the path:
they are not known yet, and the guard lets it in. -/
structure Enters (task : Task) : Prop where
  unresolved : task.progress.resolved.get? task.function = none
  entered : (task.progress.guard.enter task.function).1 = .entered

/-- The calls that a call site of the function stands for. -/
def siteCalls (host : Host) (c : Context) (found : Callees) (task : Task) :
    CallSite → Resolve (List ResolvedCall) :=
  resolveSite host c found (resolveFunction host c found (task.room - 1))
    ((found.get? task.function).getD {}).parameters

/-- The resolution of a function asks for the first owner of one of its call sites, when those before
it have been resolved. -/
structure AsksAt (host : Host) (c : Context) (found : Callees) (site : CallSite)
    (task asked : Task) : Prop where
  room : task.room = asked.room + 1
  enters : task.Enters
  depends : settled? site = .inr asked.function
  turn : ∃ before after calls, ((found.get? task.function).getD {}).sites = before ++ site :: after ∧
    resolveSites (task.siteCalls host c found) before task.inside = (.ok calls, asked.progress)

/-- The resolution of a function asks for another one. -/
def Asks (host : Host) (c : Context) (found : Callees) (task asked : Task) : Prop :=
  ∃ site, AsksAt host c found site task asked

end Task

/-! ## The path of a resolution -/

/-- Back on the path that a part of a resolution started from, with all calls that were known; those
of active functions are not found in between. -/
structure Returns (p q : Progress) : Prop where
  guard : p.guard.SamePath q.guard
  kept : ∀ f calls, p.resolved.get? f = some calls → q.resolved.get? f = some calls
  untouched : ∀ f, p.guard.isActive f = true → q.resolved.get? f = p.resolved.get? f

lemma Returns.refl (p : Progress) : Returns p p := ⟨.refl _, fun _ _ h => h, fun _ _ => rfl⟩

lemma Returns.trans {p q r : Progress} (h : Returns p q) (h' : Returns q r) : Returns p r where
  guard := h.guard.trans h'.guard
  kept f calls hf := h'.kept f calls (h.kept f calls hf)
  untouched f hf := (h'.untouched f ((h.guard.isActive f).trans hf)).trans (h.untouched f hf)

/-- What is known of a call site without its owner. -/
lemma resolution_of_settled? {site : CallSite} {resolution : Resolution}
    (h : settled? site = .inl resolution) :
    (resolution = .concrete ∧ site.arguments.all Schema.isConcrete = true) ∨
      resolution = .symbolic .unknownLength ∨ resolution = .symbolic .foreignInputs := by
  rw [settled?] at h
  split at h
  · cases h
    exact Or.inr (Or.inl rfl)
  · split at h
    · cases h
      exact Or.inl ⟨rfl, ‹_›⟩
    · split at h
      · cases h
        exact Or.inr (Or.inr rfl)
      · cases h

lemma owners_of_settled? {site : CallSite} {owner : NodeId} (h : settled? site = .inr owner) :
    ∃ rest, site.owners = owner :: rest := by
  rw [settled?] at h
  split at h
  · cases h
  · split at h
    · cases h
    · split at h
      · cases h
      · rename_i first rest howners
        cases h
        exact ⟨rest, howners⟩

lemma mem_ownersIn {f owner : NodeId} {site : CallSite}
    (hsite : site ∈ ((found.get? f).getD {}).sites) (h : settled? site = .inr owner) :
    owner ∈ ownersIn found f := by
  obtain ⟨rest, howners⟩ := owners_of_settled? h
  exact List.mem_flatMap.2 ⟨site, hsite, by simp [howners]⟩

/-! ## Owners that are never called -/

/-- Nothing calls a function: it has no symbol, or no reference to its symbol is a callee. -/
def NeverCalled (host : Host) (f : NodeId) : Prop :=
  ∀ symbol, symbolOfFunction? host f = some symbol → callsOf host symbol = []

lemma Recorded.neverCalled {f : NodeId} {callee : Callee}
    (h : Recorded host f (symbolOfFunction? host f) callee) (hsites : callee.sites = []) :
    NeverCalled host f := by
  intro symbol hsymbol
  have hcalls := h.calls
  rw [hsites, hsymbol] at hcalls
  exact hcalls.symm

/-- If a call of a function is reported to have an owner that is never called, then this is the first
owner of its call site; it has been resolved, without calls, and nothing calls it. -/
def Justified (host : Host) (found : Callees) (p : Progress) (f : NodeId) (call : ResolvedCall) :
    Prop :=
  call.resolution = .symbolic .neverCalled → ∃ site ∈ ((found.get? f).getD {}).sites,
    site.call = call.call ∧ ∃ owner rest, site.owners = owner :: rest ∧
      p.resolved.get? owner = some [] ∧ NeverCalled host owner

lemma Justified.mono {p q : Progress} {f : NodeId} {call : ResolvedCall}
    (h : Justified host found p f call)
    (hkept : ∀ g calls, p.resolved.get? g = some calls → q.resolved.get? g = some calls) :
    Justified host found q f call := by
  intro hnever
  obtain ⟨site, hsite, hcall, owner, rest, howners, hresolved, hnever⟩ := h hnever
  exact ⟨site, hsite, hcall, owner, rest, howners, hkept _ _ hresolved, hnever⟩

/-- What holds between the steps of a resolution: a function without calls has been recorded without
call sites, and what is reported of owners is justified. -/
structure Accounted (host : Host) (found : Callees) (p : Progress) : Prop where
  limit : p.guard.limit = maxDepth
  empty : ∀ f, p.resolved.get? f = some [] →
    ∃ callee, found.get? f = some callee ∧ callee.sites = []
  justified : ∀ f calls, p.resolved.get? f = some calls →
    ∀ call ∈ calls, Justified host found p f call

/-- A table without a function has no more to account for than the calls that are added for it. -/
lemma Accounted.put {p : Progress} {f : NodeId} {calls : List ResolvedCall} {guard : Guard NodeId}
    (h : Accounted host found p) (hguard : guard.limit = maxDepth)
    (hkept : ∀ g known, p.resolved.get? g = some known →
      (p.resolved.put f calls).get? g = some known)
    (hempty : calls = [] → ∃ callee, found.get? f = some callee ∧ callee.sites = [])
    (hjustified : ∀ call ∈ calls, Justified host found p f call) :
    Accounted host found { p with guard, resolved := p.resolved.put f calls } where
  limit := hguard
  empty := by
    intro g hg
    dsimp only at hg
    by_cases hfg : f = g
    · subst hfg
      rw [Table.get?_put_self] at hg
      exact hempty (Option.some.inj hg)
    · rw [Table.get?_put_of_ne _ hfg] at hg
      exact h.empty g hg
  justified := by
    intro g known hg call hcall
    dsimp only at hg
    by_cases hfg : f = g
    · subst hfg
      rw [Table.get?_put_self] at hg
      obtain rfl := Option.some.inj hg
      exact (hjustified call hcall).mono hkept
    · rw [Table.get?_put_of_ne _ hfg] at hg
      exact (h.justified g known hg call hcall).mono hkept

/-- Something that gives the calls of functions upstream of the path comes back with them. -/
def Reports (host : Host) (found : Callees) (root : NodeId)
    (calls : NodeId → Resolve (Option (List ResolvedCall))) : Prop :=
  ∀ f p o q, Accounted host found p → Upstream found p.guard.path.length root f →
    calls f p = (.ok o, q) → Accounted host found q ∧ Returns p q ∧
      ∀ known, o = some known → q.resolved.get? f = some known

/-- What discovery has recorded for the resolution of a function. -/
structure Covered (host : Host) (root : NodeId) (symbol : SymbolId) (found : Callees) : Prop where
  recorded : ∀ f callee, found.get? f = some callee →
    Recorded host f (symbolFrom host root symbol f) callee
  upstream : ∀ n f, n ≤ maxDepth → Upstream found n root f → (found.get? f).isSome = true

section

variable {calls : NodeId → Resolve (Option (List ResolvedCall))} {parameters : List FormalParameter}
  {p q : Progress} {f : NodeId}

/-- A call site stands for at least one call, and what it reports of its owner is justified. -/
lemma resolveSite_justified (hcovered : Covered host root symbol found)
    (hcalls : Reports host found root calls) {site : CallSite} {out : List ResolvedCall}
    (hp : Accounted host found p)
    (hup : ∀ owner ∈ ownersIn found f, Upstream found p.guard.path.length root owner)
    (hroot : ((found.get? root).getD {}).sites ≠ [])
    (hsite : site ∈ ((found.get? f).getD {}).sites)
    (h : resolveSite host c found calls parameters site p = (.ok out, q)) :
    Accounted host found q ∧ Returns p q ∧ out ≠ [] ∧ ∀ call ∈ out, Justified host found q f call := by
  have hwritten : ∀ {r : Progress} {resolution : Resolution},
      resolution ≠ .symbolic .neverCalled →
      ∀ call ∈ [asWritten parameters site resolution], Justified host found r f call := by
    intro r resolution hne call hcall hnever
    obtain rfl := List.mem_singleton.1 hcall
    exact absurd hnever hne
  rcases resolveSite_cases h with ⟨resolution, hsettled, rfl, rfl⟩ | ⟨owner, hsettled, hcases⟩
  · refine ⟨hp, .refl _, by simp, hwritten ?_⟩
    rcases resolution_of_settled? hsettled with ⟨rfl, -⟩ | rfl | rfl <;> simp
  · have howner := hup owner (mem_ownersIn hsite hsettled)
    rcases hcases with ⟨hrun, rfl⟩ | ⟨hrun, rfl⟩ | ⟨ownerCalls, r, hne, hrun, hthrough⟩
    · obtain ⟨hq, hpq, -⟩ := hcalls owner p none q hp howner hrun
      exact ⟨hq, hpq, by simp, hwritten (by simp)⟩
    · obtain ⟨hq, hpq, hknown⟩ := hcalls owner p (some []) q hp howner hrun
      refine ⟨hq, hpq, by simp, fun call hcall _ => ?_⟩
      obtain rfl := List.mem_singleton.1 hcall
      obtain ⟨rest, howners⟩ := owners_of_settled? hsettled
      obtain ⟨callee, hcallee, hempty⟩ := hq.empty owner (hknown [] rfl)
      -- the function that the resolution started from has call sites, so it is not this owner
      have hother : owner ≠ root := by
        rintro rfl
        rw [hcallee] at hroot
        exact hroot hempty
      have hrecorded := hcovered.recorded owner callee hcallee
      rw [symbolFrom, if_neg hother] at hrecorded
      exact ⟨site, hsite, rfl, owner, rest, howners, hknown [] rfl, hrecorded.neverCalled hempty⟩
    · obtain ⟨hr, hpr, -⟩ := hcalls owner p _ r hp howner hrun
      obtain ⟨hguard, hresolved, hall⟩ := throughCalls_cases hthrough
      have hrq : Returns r q :=
        ⟨by rw [hguard]; exact .refl _, by rw [hresolved]; exact fun _ _ h => h,
          by rw [hresolved]; exact fun _ _ => rfl⟩
      refine ⟨⟨hrq.guard.limit.trans hr.limit, ?_, ?_⟩, hpr.trans hrq, ?_, fun call hcall hnever => ?_⟩
      · rw [hresolved]
        exact hr.empty
      · intro g known hg call hcall
        rw [hresolved] at hg
        exact (hr.justified g known hg call hcall).mono hrq.kept
      · rintro rfl
        cases hall
        exact hne rfl
      · obtain ⟨ownerCall, -, u, w, hrun⟩ := Run.exists_item hall hcall
        obtain ⟨arguments, rfl⟩ := throughCall_cases hrun
        simp only [propagatedResolution] at hnever
        split at hnever
        · cases hnever
        · split at hnever <;> cases hnever

/-- The calls of call sites, in any number of them: they are justified, and there are some if there is
a call site. -/
lemma resolveSites_justified (hcovered : Covered host root symbol found)
    (hcalls : Reports host found root calls) {sites : List CallSite} {final : List ResolvedCall}
    (hp : Accounted host found p)
    (hup : ∀ owner ∈ ownersIn found f, Upstream found p.guard.path.length root owner)
    (hroot : sites ≠ [] → ((found.get? root).getD {}).sites ≠ [])
    (hsites : sites ⊆ ((found.get? f).getD {}).sites)
    (h : resolveSites (resolveSite host c found calls parameters) sites p = (.ok final, q)) :
    Accounted host found q ∧ Returns p q ∧ (final = [] → sites = []) ∧
      ∀ call ∈ final, Justified host found q f call := by
  let I := fun (u : Progress) (known : List ResolvedCall) =>
    Accounted host found u ∧ Returns p u ∧ ∀ call ∈ known, Justified host found u f call
  let R := fun x y : Progress × List ResolvedCall => Returns x.1 y.1 ∧ x.2 ⊆ y.2
  have hturn : ∀ site ∈ sites, ∀ u known known' w, I u known →
      (resolveSite host c found calls parameters site >>= fun out =>
        pure (out.foldl addCall known)) u = (.ok known', w) →
      (I w known' ∧ R (u, known) (w, known')) ∧ known' ≠ [] := by
    rintro site hsite u known known' w ⟨hu, hpu, hknown⟩ hrun
    obtain ⟨out, v, hout, hpure⟩ := Run.bind_eq_ok.1 hrun
    cases hpure
    obtain ⟨hw, huw, hne, hjustified⟩ := resolveSite_justified hcovered hcalls hu
      (by rwa [hpu.guard.path]) (hroot (List.ne_nil_of_mem hsite)) (hsites hsite) hout
    obtain ⟨hsub, hlisted, hfrom⟩ := foldl_addCall_spec out known
    refine ⟨⟨⟨hw, hpu.trans huw, fun call hcall => ?_⟩, huw, hsub⟩, ?_⟩
    · rcases hfrom call hcall with hold | hnew
      · exact (hknown call hold).mono huw.kept
      · exact hjustified call hnew
    · obtain ⟨call, hcall⟩ := List.exists_mem_of_ne_nil out hne
      obtain ⟨entry, hentry, -⟩ := hlisted call hcall
      exact List.ne_nil_of_mem hentry
  obtain ⟨⟨hq, hpq, hfinal⟩, -, hturns⟩ := Run.exists_of_foldlM (I := I) (R := R)
    (fun _ => ⟨.refl _, fun _ h => h⟩)
    (fun hxy hyz => ⟨hxy.1.trans hyz.1, fun _ hcall => hyz.2 (hxy.2 hcall)⟩)
    (fun site hsite u known known' w hI hrun => (hturn site hsite u known known' w hI hrun).1)
    ⟨hp, .refl p, by simp⟩ h
  refine ⟨hq, hpq, fun hnil => ?_, hfinal⟩
  by_contra hsome
  obtain ⟨site, hsite⟩ := List.exists_mem_of_ne_nil sites hsome
  obtain ⟨u, known, known', w, hI, -, hrun, -, hsub⟩ := hturns site hsite
  obtain ⟨entry, hentry⟩ := List.exists_mem_of_ne_nil _ (hturn site hsite u known known' w hI hrun).2
  rw [hnil] at hsub
  exact List.not_mem_nil (hsub hentry)

end

/-- Where there is a way upstream to a function with call sites, the first one has call sites. -/
lemma Upstream.sites_ne_nil {n : Nat} {f g : NodeId} (h : Upstream found n f g)
    (hg : ((found.get? g).getD {}).sites ≠ []) : ((found.get? f).getD {}).sites ≠ [] := by
  cases h with
  | refl => exact hg
  | head howner =>
    obtain ⟨site, hsite, -⟩ := List.mem_flatMap.1 howner
    exact List.ne_nil_of_mem hsite

/-- The call sites of a function that is entered are one step further upstream. -/
lemma upstream_inside {room : Nat} {f : NodeId} {p : Progress}
    (henters : Task.Enters ⟨room, f, p⟩) (hup : Upstream found p.guard.path.length root f) :
    ∀ owner ∈ ownersIn found f,
      Upstream found (Task.inside ⟨room, f, p⟩).guard.path.length root owner := by
  intro owner howner
  rw [Task.inside, Guard.path_enter henters.entered, List.length_append]
  exact hup.snoc howner

/-- The path leads upstream, and is shorter than what discovery has looked at.  The induction is on
the room that is left. -/
lemma reports_resolveFunction (hcovered : Covered host root symbol found) (fuel : Nat) :
    Reports host found root (resolveFunction host c found fuel) := by
  induction fuel with
  | zero =>
    intro f p o q hp _ h
    cases h
    exact ⟨hp, .refl _, fun known hnone => by cases hnone⟩
  | succ fuel ih =>
    intro f p o q hp hup h
    rcases resolveFunction_cases h with ⟨calls, hget, rfl, rfl⟩ | ⟨hget, hrefused, rfl, rfl⟩ |
      ⟨hget, hentered, calls, r, hsites, rfl, rfl⟩
    · refine ⟨hp, .refl _, fun known hknown => ?_⟩
      obtain rfl := Option.some.inj hknown
      exact hget
    · have hlimit := p.guard.limit_enter f
      refine ⟨⟨hlimit.trans hp.limit, hp.empty, hp.justified⟩,
        ⟨Guard.samePath_enter hrefused, fun _ _ h => h, fun _ _ => rfl⟩,
        fun known hnone => by cases hnone⟩
    · obtain ⟨hnew, hshort⟩ := p.guard.short_of_enter hentered
      have henters : Task.Enters ⟨fuel + 1, f, p⟩ := ⟨hget, hentered⟩
      have hlimit := p.guard.limit_enter f
      obtain ⟨callee, hcallee⟩ : ∃ callee, found.get? f = some callee :=
        Option.isSome_iff_exists.1 (hcovered.upstream _ f (by rw [hp.limit] at hshort; omega) hup)
      obtain ⟨hr, hpr, hempty, hjustified⟩ := resolveSites_justified hcovered ih
        (p := Task.inside ⟨fuel + 1, f, p⟩) ⟨hlimit.trans hp.limit, hp.empty, hp.justified⟩
        (upstream_inside henters hup) hup.sites_ne_nil (List.Subset.refl _) hsites
      -- the function was on the path all the time, so it is still without calls in the table
      have hunknown : r.resolved.get? f = none := by
        rw [hpr.untouched f (by simp [Task.inside, Guard.isActive_enter hentered])]
        exact hget
      have hkept : ∀ g known, r.resolved.get? g = some known →
          (r.resolved.put f calls).get? g = some known := by
        intro g known hg
        rw [Table.get?_put_of_ne _ (by rintro rfl; rw [hunknown] at hg; cases hg)]
        exact hg
      have hnone : calls = [] → ∃ callee, found.get? f = some callee ∧ callee.sites = [] := by
        intro hnil
        refine ⟨callee, hcallee, ?_⟩
        have hsites := hempty hnil
        rwa [hcallee] at hsites
      refine ⟨hr.put (hpr.guard.limit.trans (hlimit.trans hp.limit)) hkept hnone hjustified,
        ⟨hpr.guard.leave hentered, fun g known hg => hkept g known (hpr.kept g known hg),
          fun g hg => ?_⟩, fun known hknown => ?_⟩
      · dsimp only
        rw [Table.get?_put_of_ne _ (by rintro rfl; rw [hnew] at hg; cases hg)]
        exact hpr.untouched g (by simp [Task.inside, Guard.isActive_enter hentered, hg])
      · obtain rfl := Option.some.inj hknown
        exact Table.get?_put_self ..

/-- Whatever is asked for lies upstream, as far as the path is long. -/
lemma upstream_of_asks (hcovered : Covered host root symbol found) {session : Session} {task : Task}
    (h : Relation.ReflTransGen (Task.Asks host c found) (Task.start root session) task) :
    Accounted host found task.progress ∧ task.room + task.progress.guard.path.length = maxDepth + 1 ∧
      Upstream found task.progress.guard.path.length root task.function := by
  induction h with
  | refl =>
    exact ⟨⟨rfl, by simp [Task.start, Table.get?], by simp [Task.start, Table.get?]⟩, rfl, .refl root⟩
  | @tail task asked _ hasks ih =>
    obtain ⟨hp, hroom, hup⟩ := ih
    obtain ⟨site, hasks⟩ := hasks
    obtain ⟨before, after, calls, hsites, hdone⟩ := hasks.turn
    have hlimit := task.progress.guard.limit_enter task.function
    have hsite : site ∈ ((found.get? task.function).getD {}).sites := by simp [hsites]
    obtain ⟨hq, hpq, -⟩ := resolveSites_justified hcovered
      (reports_resolveFunction hcovered (task.room - 1)) (p := task.inside)
      ⟨hlimit.trans hp.limit, hp.empty, hp.justified⟩ (upstream_inside hasks.enters hup)
      (fun _ => hup.sites_ne_nil (List.ne_nil_of_mem hsite)) (by simp [hsites]) hdone
    have hlength : asked.progress.guard.path.length = task.progress.guard.path.length + 1 := by
      rw [hpq.guard.path, Task.inside, Guard.path_enter hasks.enters.entered, List.length_append,
        List.length_singleton]
    refine ⟨hq, ?_, ?_⟩
    · have hless := hasks.room
      omega
    · rw [hlength]
      exact hup.snoc (mem_ownersIn hsite hasks.depends)

/-- An owner that the path refuses leaves its call site as it is written, as a part of a chain that is
cut. -/
lemma siteCalls_of_refused {site : CallSite} {task asked : Task}
    (hasks : Task.AsksAt host c found site task asked) (hroom : asked.room ≠ 0)
    (hunresolved : asked.progress.resolved.get? asked.function = none)
    (hrefused : (asked.progress.guard.enter asked.function).1 ≠ .entered) :
    (task.siteCalls host c found site asked.progress).1 =
      .ok [asWritten ((found.get? task.function).getD {}).parameters site
        (.symbolic .recursiveChain)] := by
  obtain ⟨room, hroom⟩ := Nat.exists_eq_succ_of_ne_zero hroom
  have hnone : resolveFunction host c found (task.room - 1) asked.function asked.progress =
      (.ok none, { asked.progress with
        guard := (asked.progress.guard.enter asked.function).2 }) := by
    rw [hasks.room, hroom, Nat.add_sub_cancel, resolveFunction, Run.get_bind, hunresolved]
    rcases henter : asked.progress.guard.enter asked.function with ⟨answer, guard⟩
    cases answer with
    | entered => exact absurd (by rw [henter]) hrefused
    | cycle => rfl
    | depthExceeded => rfl
  rw [Task.siteCalls, resolveSite, hasks.depends]
  dsimp only
  rw [Run.bind_of_ok hnone]
  rfl

/-- Discovery and resolution agree on how far they go.

* Every function that the resolution enters has been recorded with all its call sites.
* A call that is reported to have an owner which is never called, anywhere in the resolution, has a
  first owner that has been resolved and that nothing calls.
* A chain that is cut, since its next function is on the path already or the path is too long, is
  reported as such. -/
theorem discovery_covers_resolution {found : Callees}
    (hroot : (host.declarationOfSymbol symbol).bind
      (Evaluation.functionOfDeclaration? host.tree) = some root)
    (hfound : discover host c root symbol s = (.ok found, t)) :
    (∀ task, Relation.ReflTransGen (Task.Asks host c found) (Task.start root t) task →
      task.Enters → ∃ callee, found.get? task.function = some callee ∧
        Recorded host task.function (symbolFrom host root symbol task.function) callee) ∧
    (∀ calls u, functionCalls host c symbol s = (.ok calls, u) → ∃ progress,
      resolveFunction host c found (maxDepth + 1) root { session := t } =
        (.ok (some calls), progress) ∧ progress.resolved.get? root = some calls ∧
      ∀ f known, progress.resolved.get? f = some known → ∀ call ∈ known,
        call.resolution = .symbolic .neverCalled →
        ∃ site ∈ ((found.get? f).getD {}).sites, site.call = call.call ∧
          ∃ owner rest, site.owners = owner :: rest ∧
            progress.resolved.get? owner = some [] ∧ NeverCalled host owner) ∧
    ∀ site task asked, Relation.ReflTransGen (Task.Asks host c found) (Task.start root t) task →
      Task.AsksAt host c found site task asked →
      asked.progress.resolved.get? asked.function = none →
      (asked.progress.guard.enter asked.function).1 ≠ .entered →
      (task.siteCalls host c found site asked.progress).1 =
        .ok [asWritten ((found.get? task.function).getD {}).parameters site
          (.symbolic .recursiveChain)] := by
  obtain ⟨hrecorded, hupstream⟩ := discover_covers hfound
  have hcovered : Covered host root symbol found := ⟨hrecorded, hupstream⟩
  refine ⟨fun task htask henters => ?_, fun calls u hrun => ?_,
    fun site task asked htask hasks hunresolved hrefused => ?_⟩
  · obtain ⟨hp, -, hup⟩ := upstream_of_asks hcovered htask
    obtain ⟨-, hshort⟩ := task.progress.guard.short_of_enter henters.entered
    rw [hp.limit] at hshort
    obtain ⟨callee, hcallee⟩ := Option.isSome_iff_exists.1
      (hcovered.upstream _ task.function (by omega) hup)
    exact ⟨callee, hcallee, hcovered.recorded _ callee hcallee⟩
  · obtain ⟨trace⟩ := exists_trace hrun
    obtain rfl : trace.function = root := by
      rw [trace.declares, Option.bind_some, trace.isFunction] at hroot
      exact Option.some.inj hroot
    obtain ⟨rfl, rfl⟩ : trace.found = found ∧ trace.middle = t := by
      have hsame := trace.discovered.symm.trans hfound
      exact ⟨Except.ok.inj (congrArg Prod.fst hsame), congrArg Prod.snd hsame⟩
    have hstart : Accounted host trace.found { session := trace.middle } :=
      ⟨rfl, by simp [Table.get?], by simp [Table.get?]⟩
    obtain ⟨hq, -, hknown⟩ := reports_resolveFunction hcovered _ _ _ _ _ hstart (.refl _)
      trace.resolved
    exact ⟨trace.progress, trace.resolved, hknown calls rfl, hq.justified⟩
  · -- the room is used up later than the path is full, so only the guard can refuse
    obtain ⟨hp, hroom, -⟩ := upstream_of_asks hcovered htask
    obtain ⟨-, hshort⟩ := task.progress.guard.short_of_enter hasks.enters.entered
    rw [hp.limit] at hshort
    have hless := hasks.room
    exact siteCalls_of_refused hasks (by omega) hunresolved hrefused

/-- A function that nothing calls: `function foo(n) {}  function bar(x) { foo(x) }`. -/
def uncalled : Draft :=
  let forms : List Form :=
    [.identifier "n", .parameter ⟨0⟩ none false, .identifier "foo", .block [],
      .functionDeclaration ⟨some ⟨2⟩, [⟨1⟩], some ⟨3⟩, false, false⟩,
      .identifier "x", .parameter ⟨5⟩ none false, .identifier "x", .identifier "foo",
      .call ⟨8⟩ [⟨7⟩], .expressionStatement ⟨9⟩, .identifier "bar", .block [⟨10⟩],
      .functionDeclaration ⟨some ⟨11⟩, [⟨6⟩], some ⟨12⟩, false, false⟩,
      .sourceFile "main.ts" [⟨4⟩, ⟨13⟩]]
  forms.foldl (fun d form => (d.add form).2) {}

set_option maxRecDepth 4000 in
/-- The only call of `foo` in `uncalled` is reported to stand in a function that is never called, and
so it does. -/
theorem functionCalls_uncalled :
    ∃ calls u, functionCalls uncalled.finish.host (Context.start {}) ⟨0⟩ { options := {} } =
        (.ok calls, u) ∧ ∃ call ∈ calls, call.resolution = .symbolic .neverCalled ∧
      ∃ found t, discover uncalled.finish.host (Context.start {}) ⟨4⟩ ⟨0⟩ { options := {} } =
          (.ok found, t) ∧
        ∃ site ∈ ((found.get? ⟨4⟩).getD {}).sites, site.call = call.call ∧
          ∃ owner rest, site.owners = owner :: rest ∧ NeverCalled uncalled.finish.host owner := by
  have hcomputed : Run.passes (functionCalls uncalled.finish.host (Context.start {}) ⟨0⟩)
      { options := {} } (fun calls _ => calls.any
        fun call => call.resolution == .symbolic .neverCalled) = true := by
    decide +kernel
  obtain ⟨calls, u, hrun, hcalls⟩ := Run.exists_of_passes hcomputed
  have hdiscovers : Run.passes (discover uncalled.finish.host (Context.start {}) ⟨4⟩ ⟨0⟩)
      { options := {} } (fun _ _ => true) = true := by
    decide +kernel
  obtain ⟨found, t, hfound, -⟩ := Run.exists_of_passes hdiscovers
  obtain ⟨call, hcall, hnever⟩ := List.any_eq_true.1 hcalls
  obtain ⟨-, hall, -⟩ := discovery_covers_resolution (by decide +kernel) hfound
  obtain ⟨progress, -, hroot, hreported⟩ := hall calls u hrun
  obtain ⟨site, hsite, hsame, owner, rest, howners, -, howner⟩ :=
    hreported ⟨4⟩ calls hroot call hcall (by simpa using hnever)
  exact ⟨calls, u, hrun, call, hcall, by simpa using hnever, found, t, hfound, site, hsite, hsame,
    owner, rest, howners, howner⟩

end ValueSchema.Propagation
