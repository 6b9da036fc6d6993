/-
# The history of a session

A session serves one request after the other, in any contexts, and goes on after those that fail.
What one request does to the definitions, `Request.moves`, the whole history does, `Later.moves`.

A definition whose conversion stops is lost to the session.  It has been claimed, nobody converts it
any more, and no request claims it again; so it is missing from everything that is evaluated later,
also where it is referred to.
-/
import ValueSchema.Program.Basic
import ValueSchema.Proofs.Definition.Inlining
import ValueSchema.Proofs.Definition.Reachability
import ValueSchema.Proofs.Evaluation.Completion
import ValueSchema.Proofs.Propagation.Uniformity

namespace ValueSchema

/-! ## Requests -/

/-- What can be asked in a session. -/
inductive Request where
  /-- The schema of an entry. -/
  | schema (c : Context) (entry : Entry)
  /-- What a schema stands for. -/
  | resolve (c : Context) (reference : Schema)
  /-- The complete evaluation of an entry. -/
  | evaluate (c : Context) (entry : Entry)
  /-- The calls of the function with a symbol. -/
  | calls (c : Context) (symbol : SymbolId)

/-- The session after a request, whether or not it fails. -/
def Request.after (host : Host) (s : Session) : Request → Session
  | .schema c entry => (c.schemaOfEntry host entry s).2
  | .resolve c reference => (c.resolve host reference s).2
  | .evaluate c entry => (c.evaluate host entry s).2
  | .calls c symbol => (Propagation.functionCalls host c symbol s).2

/-- A session after any requests. -/
inductive Session.Later (host : Host) (s : Session) : Session → Prop
  | refl : s.Later host s
  | request {t : Session} (h : s.Later host t) (r : Request) : s.Later host (r.after host t)

variable {host : Host} {s t u : Session}

/-- One request after the other leads to a later session. -/
lemma Session.Later.of_requests (s : Session) (requests : List Request) :
    s.Later host (requests.foldl (Request.after host) s) :=
  List.foldlRecOn requests _ .refl fun _ h r _ => h.request r

/-- The context of a request. -/
def Request.context : Request → Context
  | .schema c _ | .resolve c _ | .evaluate c _ | .calls c _ => c

/-- The node that is given with the type of a request. -/
def Request.node? : Request → Option NodeId
  | .schema _ entry | .evaluate _ entry => entry.node?
  | .resolve .. | .calls .. => none

/-- A request starts in a domain. -/
def Domain.Admits (domain : Domain host) (r : Request) : Prop :=
  domain.Fits r.context.branch ∧ domain.Asks r.node?

/-- What a simulation says of the sessions that computations start and end in, it says of requests
that start in its domain. -/
lemma Simulation.request (S : Simulation host) {P : Session → Session → Prop}
    (h : ∀ {α : Type} {m : Eval α}, S.Rel m m → ∀ s, P s (m s).2) {r : Request}
    (hr : S.domain.Admits r) (s : Session) : P s (r.after host s) := by
  obtain ⟨hc, hentry⟩ := hr
  cases r with
  | schema c entry => exact h (S.rel_schemaOfEntry rfl (Nat.le_refl _) hc hentry) s
  | resolve c reference =>
    exact h (rel_resolve (S.related_evaluator (Nat.le_refl _) hc) reference) s
  | evaluate c entry => exact h (S.rel_evaluate rfl (Nat.le_refl _) hc hentry) s
  | calls c symbol => exact h (S.rel_functionCalls rfl (Nat.le_refl _) hc symbol) s

lemma Request.moves (r : Request) (s : Session) : s.Moves host (r.after host s) :=
  (Simulation.progress host).request (P := Session.Moves host) (fun hm _ => hm.moves rfl)
    ⟨trivial, trivial⟩ s

lemma Session.Later.moves (h : s.Later host t) : s.Moves host t := by
  induction h with
  | refl => exact .refl host s
  | request _ r ih => exact ih.trans (r.moves _)

/-! ## Definitions that are lost -/

lemma Bundle.names_reduce_sublist (b : Bundle) (inlineSingle : Bool) :
    (Entries.names (b.reduce inlineSingle).definitions).Sublist (Entries.names b.definitions) := by
  rw [reduce_eq]
  exact (names_prune_sublist _).trans
    ((names_inlined_sublist _ _).trans (names_inlineTrivial_sublist _ b))

/-- What is not ready is not part of a result. -/
lemma Context.ready_of_mem_evaluate {c : Context} {entry : Entry} {bundle : Bundle} {id : String}
    (ht : t.definitions.Distinct) (hrun : c.evaluate host entry s = (.ok bundle, t))
    (hid : id ∈ Entries.names bundle.definitions) :
    ∃ d schema, t.definitions.get? id = some d ∧ d.state = .ready schema := by
  obtain ⟨root, u, -, -, rfl⟩ := evaluate_eq_ok hrun
  exact (Registry.mem_names_readyDefinitions_iff ht).1 ((Bundle.names_reduce_sublist _ _).subset hid)

/-- A definition that is being converted when a request comes is left as it is. -/
lemma Evaluation.materialize_of_resolving {convert : TypeId → Eval Schema} {id : String}
    {d : Definition} (hd : s.definitions.get? id = some d) (hstate : d.state = .resolving) :
    materialize convert id s = (.ok none, s) := by
  rw [materialize_apply, Registry.begin?, Registry.ready?, hd, Option.map_some, hstate]

/-- An evaluation stops where the conversion of the first definition that waits does. -/
lemma Context.evaluate_of_materialize_error {c : Context} {entry : Entry} {root : Schema}
    {id : String} {rest : List String} {stop : Stop}
    (hroot : c.schemaOfEntry host entry s = (.ok root, t))
    (hpending : t.definitions.pending = id :: rest)
    (hstop : Evaluation.materialize (Evaluation.convertBody (c.evaluator host) c.branch) id t =
      (.error stop, u)) : c.evaluate host entry s = (.error stop, u) := by
  have hround : t.definitions.pending.forM (c.convertDefinition host) t = (.error stop, u) := by
    rw [hpending]
    exact Run.bind_of_error (Run.bind_of_error hstop)
  have hlength : 1 ≤ t.definitions.entries.length := by
    have hle : t.definitions.pending.length ≤ t.definitions.entries.length :=
      List.length_filterMap_le _ _
    rw [hpending, List.length_cons] at hle
    omega
  exact evaluate_of_ok hroot
    ((Rounds.stopped (by simp [hpending]) hround).convertDefinitions_eq (by omega))

/-- Where a conversion stops, the definition was waiting and is being converted from then on.  No
later request converts it, and no later evaluation has it among its definitions. -/
theorem Context.resolving_of_materialize_error (c : Context) {id : String} {stop : Stop}
    (hs : s.definitions.Distinct)
    (hrun : Evaluation.materialize (Evaluation.convertBody (c.evaluator host) c.branch) id s =
      (.error stop, t)) :
    (∃ body, (s.definitions.get? id).map Definition.state = some (.pending body)) ∧
    ∀ u, t.Later host u →
      (u.definitions.get? id).map Definition.state = some .resolving ∧
      (∀ convert, Evaluation.materialize convert id u = (.ok none, u)) ∧
      ∀ (c' : Context) entry bundle v, c'.evaluate host entry u = (.ok bundle, v) →
        id ∉ Entries.names bundle.definitions := by
  rcases Evaluation.materialize_cases hrun with
    ⟨-, hready, -⟩ | ⟨body, definitions, hclaim, ⟨schema, u, -, hready, -⟩ | ⟨stop', hbody, -⟩⟩
  · cases hready
  · cases hready
  · obtain ⟨⟨d, hd, hpending⟩, rfl⟩ := Registry.begin?_cases hclaim
    refine ⟨⟨body, by rw [hd, Option.map_some, hpending]⟩, fun u hu => ?_⟩
    have hmoves := ((c.progresses_convertBody host _ _).moves hbody).trans hu.moves
    obtain ⟨d', hd', hstate⟩ :=
      hmoves.advances.resolving (Registry.get?_setState_self hd .resolving) rfl
    refine ⟨by rw [hd', Option.map_some, hstate], fun convert =>
      Evaluation.materialize_of_resolving hd' hstate, fun c' entry bundle v hagain hid => ?_⟩
    -- the definition is still being converted at the end of an evaluation
    have hlast := (c'.progresses_evaluate host entry).moves hagain
    have hdistinct := (hmoves.trans hlast).distinct (Session.distinct_setState hs id .resolving)
    obtain ⟨open', hopen, hresolving⟩ := hlast.advances.resolving hd' hstate
    obtain ⟨closed, schema, hclosed, hready⟩ := ready_of_mem_evaluate hdistinct hagain hid
    obtain rfl := Option.some.inj (hopen.symm.trans hclosed)
    rw [hresolving] at hready
    cases hready

/-- The type `Box<string>`, whose body comes from the object `{ view: <div>{...items}</div> }`.  A
spread among the children of an element has no schema. -/
def spreadChild : Draft :=
  let forms : List Form :=
    [.identifier "items", .spreadElement ⟨0⟩, .jsxElement "div" [] [⟨1⟩], .identifier "view",
      .propertyAssignment ⟨3⟩ ⟨2⟩, .objectLiteral [⟨4⟩], .expressionStatement ⟨5⟩,
      .sourceFile "main.ts" [⟨6⟩]]
  let types : List TypeForm :=
    [.object { literal := some ⟨5⟩, properties :=
        [⟨"view", Intrinsic.any.id, Intrinsic.any.id, false, some ⟨4⟩⟩] },
      .parameter "T" none, .application "Box" ⟨13⟩ [Intrinsic.string.id] ⟨12⟩]
  types.foldl (fun d type => (d.addType type).2)
    (forms.foldl (fun d form => (d.add form).2) ({} : Draft))

/-- The first evaluation of `Box<string>` fails.  The second one, in the same context, has a result
that refers to `Box<string>` and does not define it. -/
theorem Context.evaluate_spreadChild :
    ∃ stop t bundle u,
      (start { permissive := false }).evaluate spreadChild.finish.host (.type ⟨14⟩ none)
        { options := { permissive := false } } = (.error stop, t) ∧
      (start { permissive := false }).evaluate spreadChild.finish.host (.type ⟨14⟩ none) t =
        (.ok bundle, u) ∧
      bundle.root.references = ["Box<string>"] ∧
      "Box<string>" ∉ Entries.names bundle.definitions := by
  let c := start { permissive := false }
  let host := spreadChild.finish.host
  -- the root registers the definition, whose conversion stops
  obtain ⟨root, s, stop, t, hroot, hpending, hnames, hstop⟩ : ∃ root s stop t,
      c.schemaOfEntry host (.type ⟨14⟩ none) { options := { permissive := false } } =
        (.ok root, s) ∧
      s.definitions.pending = ["Box<string>"] ∧
      Entries.names s.definitions.entries = ["Box<string>"] ∧
      Evaluation.materialize (Evaluation.convertBody (c.evaluator host) c.branch) "Box<string>" s =
        (.error stop, t) :=
    ⟨_, _, _, _, rfl, by decide +kernel, by decide +kernel, rfl⟩
  have hfirst := evaluate_of_materialize_error hroot hpending hstop
  have hdistinct : s.definitions.Distinct := by
    rw [Registry.Distinct, hnames]
    exact List.nodup_singleton _
  obtain ⟨-, hlost⟩ := resolving_of_materialize_error c hdistinct hstop
  -- the second evaluation does not come to it any more
  have hpasses : Run.passes (c.evaluate host (.type ⟨14⟩ none)) (c.evaluate host (.type ⟨14⟩ none)
      { options := { permissive := false } }).2
      (fun bundle _ => bundle.root.references == ["Box<string>"]) = true := by
    decide +kernel
  obtain ⟨bundle, u, hsecond, hreferences⟩ := Run.exists_of_passes hpasses
  rw [hfirst] at hsecond
  exact ⟨stop, t, bundle, u, hfirst, hsecond, beq_iff_eq.1 hreferences,
    (hlost t .refl).2.2 c _ bundle u hsecond⟩

end ValueSchema
