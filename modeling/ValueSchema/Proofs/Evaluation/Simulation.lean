/-
# Simulations of computations

A simulation relates computations that do alike.  It goes through the ways in which computations are
put together, and through the few operations that look at the session or change it: reading the
options that every evaluation has in common, rejecting a node, giving up for want of depth,
registering an instance of a generic type, converting a definition, and remembering a type.

Whatever a simulation says of these, it says of whole evaluations; that is the subject of
`Proofs/Evaluation/Uniformity`.  What evaluations keep is a simulation that looks at one of the two
computations only; what two evaluations have in common is one that looks at both.
-/
import ValueSchema.Evaluation.Request
import ValueSchema.Proofs.Evaluation.Run

namespace ValueSchema

/-- Two sessions are alike in what an evaluation reads of them besides the memory of types: the
definitions, and the options other than the depth and whether the evaluation is permissive. -/
structure Session.Alike (s s' : Session) : Prop where
  definitions : s'.definitions = s.definitions
  isWellKnown : s'.options.isWellKnown = s.options.isWellKnown
  maxUnionExpansion : s'.options.maxUnionExpansion = s.options.maxUnionExpansion
  inlineSingleUse :
    s'.options.inlineSingleUseDefinitions = s.options.inlineSingleUseDefinitions

lemma Session.Alike.refl (s : Session) : s.Alike s := ⟨rfl, rfl, rfl, rfl⟩

lemma Eval.options_bind {α : Type} (f : Options → Eval α) :
    (Eval.options >>= f) = get >>= fun s => f s.options := rfl

namespace Evaluation

/-- A node that has no schema: its type has to answer, or the evaluation fails. -/
def reject (kind : String) : Eval (Option Schema) := do
  if (← Eval.options).permissive then return none
  else Eval.fail (.unsupportedNode kind)

/-- Registers an instance of a generic type and gives the id of its definition. -/
def registerInstance (host : Host) (id : TypeId) (name : String) (target body : TypeId) :
    Eval String := do
  let session ← get
  let (key, definitions) := session.definitions.register name (host.types.display id) target body
  set { session with definitions }
  return key

/-! ## What the operations do to a session -/

/-- How a definition is converted: nothing happens unless it can be claimed, and then the schema of
its body completes it. -/
lemma materialize_apply (convert : TypeId → Eval Schema) (id : String) (s : Session) :
    materialize convert id s =
      match s.definitions.begin? id with
      | none => (.ok (s.definitions.ready? id), s)
      | some (body, definitions) =>
        match convert body { s with definitions } with
        | (.ok schema, t) =>
          (.ok (some schema), { t with definitions := t.definitions.complete id schema })
        | (.error stop, t) => (.error stop, t) := by
  rw [materialize, Run.get_bind, Registry.ready?, Registry.begin?]
  rcases (s.definitions.get? id).map Definition.state with _ | body | _ | schema
  · rfl
  · dsimp only
    rw [Run.set_bind, Run.bind_apply]
    rcases convert body _ with ⟨_ | schema, t⟩ <;> rfl
  · rfl
  · rfl

/-- A conversion does nothing, or claims the definition; then it completes it, or stops before. -/
lemma materialize_cases {convert : TypeId → Eval Schema} {id : String} {s t : Session}
    {o : Except Stop (Option Schema)} (h : materialize convert id s = (o, t)) :
    s.definitions.begin? id = none ∧ o = .ok (s.definitions.ready? id) ∧ t = s ∨
    ∃ body definitions, s.definitions.begin? id = some (body, definitions) ∧
      ((∃ schema u, convert body { s with definitions } = (.ok schema, u) ∧
          o = .ok (some schema) ∧
          t = { u with definitions := u.definitions.complete id schema }) ∨
        ∃ stop, convert body { s with definitions } = (.error stop, t) ∧ o = .error stop) := by
  rw [materialize_apply] at h
  rcases hclaim : s.definitions.begin? id with _ | ⟨body, definitions⟩
  · rw [hclaim] at h
    cases h
    exact Or.inl ⟨rfl, rfl, rfl⟩
  · rw [hclaim] at h
    refine Or.inr ⟨body, definitions, rfl, ?_⟩
    dsimp only at h
    rcases hbody : convert body { s with definitions } with ⟨stop | schema, u⟩
    · rw [hbody] at h
      cases h
      exact Or.inr ⟨stop, rfl, rfl⟩
    · rw [hbody] at h
      cases h
      exact Or.inl ⟨schema, u, rfl, rfl, rfl⟩

/-- Whether the schema of a type depends neither on a node nor on the branch. -/
def isGeneral (b : Branch) (node : Option NodeId) : Bool := node.isNone && !b.hasBindings

/-- What is remembered after the conversion of a type from one session to another. -/
def remember (b : Branch) (id : TypeId) (node : Option NodeId) (s t : Session) (schema : Schema) :
    Session :=
  if isGeneral b node && t.degraded == s.degraded && !schema.containsError then
    { t with types := t.types.put id schema }
  else t

lemma convertCompound_apply (host : Host) (e : Evaluator) (b : Branch) (id : TypeId)
    (node : Option NodeId) (form : TypeForm) (s : Session) :
    convertCompound host e b id node form s =
      if b.isHandlingType id then (.ok (.failure "Circular type"), s)
      else
        match if isGeneral b node then s.types.get? id else none with
        | some schema => (.ok schema, s)
        | none =>
          match convertForm host e (b.withType id) id node form s with
          | (.ok schema, t) => (.ok schema, remember b id node s t schema)
          | (.error stop, t) => (.error stop, t) := by
  have hanew : (do
      let before := (← get).degraded
      let schema ← convertForm host e (b.withType id) id node form
      if isGeneral b node && (← get).degraded == before && !schema.containsError then
        Eval.cacheType id schema
      return schema : Eval Schema) s =
      match convertForm host e (b.withType id) id node form s with
      | (.ok schema, t) => (.ok schema, remember b id node s t schema)
      | (.error stop, t) => (.error stop, t) := by
    rw [Run.get_bind, Run.bind_apply]
    rcases convertForm host e (b.withType id) id node form s with ⟨stop | schema, t⟩
    · rfl
    · dsimp only
      rw [Run.get_bind, remember]
      split <;> rfl
  rw [convertCompound]
  split
  · rfl
  · -- what is known decides whether the type is converted anew
    change (if isGeneral b node then Eval.cachedType? id >>= _ else Pure.pure none >>= _ :
      Eval Schema) s = _
    split
    · rcases hget : s.types.get? id with _ | schema
      · refine Eq.trans ?_ hanew
        rw [Eval.cachedType?]
        show (match s.types.get? id with | some schema => _ | none => _ : Eval Schema) s = _
        rw [hget]
        rfl
      · rw [Eval.cachedType?]
        show (match s.types.get? id with | some schema => _ | none => _ : Eval Schema) s = _
        rw [hget]
        rfl
    · exact hanew

/-- A type that is neither being converted nor known is converted anew. -/
lemma convertCompound_cases {host : Host} {e : Evaluator} {b : Branch} {id : TypeId}
    {node : Option NodeId} {form : TypeForm} {s t : Session} {o : Except Stop Schema}
    (h : convertCompound host e b id node form s = (o, t)) :
    (∃ schema, (schema = .failure "Circular type" ∨ s.types.get? id = some schema) ∧
      o = .ok schema ∧ t = s) ∨
    (∃ schema u, convertForm host e (b.withType id) id node form s = (.ok schema, u) ∧
      o = .ok schema ∧ t = remember b id node s u schema) ∨
    ∃ stop, convertForm host e (b.withType id) id node form s = (.error stop, t) ∧
      o = .error stop := by
  rw [convertCompound_apply] at h
  split at h
  · cases h
    exact Or.inl ⟨_, Or.inl rfl, rfl, rfl⟩
  · rcases hknown : (if isGeneral b node then s.types.get? id else none) with _ | schema
    · rw [hknown] at h
      dsimp only at h
      rcases hform : convertForm host e (b.withType id) id node form s with ⟨stop | schema, u⟩
      · rw [hform] at h
        cases h
        exact Or.inr (Or.inr ⟨stop, rfl, rfl⟩)
      · rw [hform] at h
        cases h
        exact Or.inr (Or.inl ⟨schema, u, rfl, rfl, rfl⟩)
    · rw [hknown] at h
      cases h
      refine Or.inl ⟨schema, Or.inr ?_, rfl, rfl⟩
      split at hknown
      · exact hknown
      · cases hknown

end Evaluation

/-! ## Domains -/

/-- No array literal is given with a type.  With one, the conversion of an array type goes on with
the elements of the literal, inside of the type. -/
def Host.Bare (host : Host) (node : Option NodeId) : Prop :=
  ∀ elements, node.bind host.tree.form? ≠ some (.arrayLiteral elements)

lemma Host.bare_none (host : Host) : host.Bare none := fun _ h => by cases h

/-- The node that is given with the type of an entry. -/
def Entry.node? : Entry → Option NodeId
  | .node _ => none
  | .type _ given => given

/-- Where computations are looked at: in some branches, and in those that evaluations lead to from
there other than by types; and at types with some nodes, if not with array literals only. -/
structure Domain (host : Host) where
  /-- The branches. -/
  Fits : Branch → Prop
  /-- The nodes that may be given with a type. -/
  Asks : Option NodeId → Prop
  withTrace : ∀ {b} n, Fits b → Fits (b.withTrace n)
  withFunction : ∀ {b} function values, Fits b → Fits (b.withFunction function values)
  detached : ∀ {b}, Fits b → Fits b.detached
  bare : ∀ {node}, host.Bare node → Asks node

/-- All branches and all nodes. -/
def Domain.all (host : Host) : Domain host where
  Fits _ := True
  Asks _ := True
  withTrace _ _ := trivial
  withFunction _ _ _ := trivial
  detached _ := trivial
  bare _ := trivial

/-- The branches that are not inside of a type, where no array literals are given with types. -/
def Domain.outside (host : Host) : Domain host where
  Fits b := b.types = []
  Asks := host.Bare
  withTrace _ hb := hb
  withFunction _ _ hb := hb
  detached _ := rfl
  bare hnode := hnode

/-! ## Simulations -/

/-- A relation between computations of a host that everything respects which evaluations are put
together from, where they are looked at. -/
structure Simulation (host : Host) where
  /-- The first computation is like the second one. -/
  Rel : {α : Type} → Eval α → Eval α → Prop
  /-- Where computations are looked at. -/
  domain : Domain host := .all host
  pure : ∀ {α : Type} (a : α), Rel (Pure.pure a) (Pure.pure a)
  bind : ∀ {α β : Type} {m m' : Eval α} {f f' : α → Eval β}, Rel m m' →
    (∀ a, Rel (f a) (f' a)) → Rel (m >>= f) (m' >>= f')
  throw : ∀ {α : Type} (stop : Stop), Rel (throw stop : Eval α) (throw stop)
  within : ∀ {α : Type} {m m' : Eval α} (n : NodeId), Rel m m' →
    Rel (Eval.within host.tree n m) (Eval.within host.tree n m')
  read : ∀ {α : Type} {f f' : Session → Eval α}, (∀ s s', s.Alike s' → Rel (f s) (f' s')) →
    Rel (get >>= f) (get >>= f')
  reject : ∀ kind, Rel (Evaluation.reject kind) (Evaluation.reject kind)
  /-- Giving up is like anything that goes on. -/
  degrade : ∀ m : Eval Schema, Rel Eval.degrade m
  register : ∀ {id name target arguments body},
    host.types.get? id = some (.application name target arguments body) →
    Rel (Evaluation.registerInstance host id name target body)
      (Evaluation.registerInstance host id name target body)
  materialize : ∀ {depth depth' : Nat} {b : Branch} (id : String),
    (∀ body, Rel (Evaluation.convertType host depth b.detached body none)
      (Evaluation.convertType host depth' b.detached body none)) →
    Rel (Evaluation.materialize (Evaluation.convertBody (Evaluation.evaluator host depth) b) id)
      (Evaluation.materialize (Evaluation.convertBody (Evaluation.evaluator host depth') b) id)
  /-- What is found for a type in any way may be remembered.  Inside of the type, computations need
  not be looked at. -/
  compound : ∀ {depth depth' : Nat} {b : Branch} {id : TypeId} {form : TypeForm}
    {node : Option NodeId}, host.types.get? id = some form → domain.Fits b → domain.Asks node →
    (∀ b, domain.Fits b → ∀ type, Rel (Evaluation.convertType host depth b type none)
      (Evaluation.convertType host depth' b type none)) →
    (domain.Fits (b.withType id) →
      Rel (Evaluation.convertForm host (Evaluation.evaluator host depth) (b.withType id) id node form)
        (Evaluation.convertForm host (Evaluation.evaluator host depth') (b.withType id) id node
          form)) →
    Rel (Evaluation.convertCompound host (Evaluation.evaluator host depth) b id node form)
      (Evaluation.convertCompound host (Evaluation.evaluator host depth') b id node form)

namespace Simulation

variable {host : Host} (S : Simulation host) {α β : Type} {m m' : Eval α}

/-- Evaluators are alike in a branch, and in those that evaluations lead to from there. -/
structure Related (b : Branch) (e e' : Evaluator) : Prop where
  levels : ∃ depth depth', e = Evaluation.evaluator host depth ∧
    e' = Evaluation.evaluator host depth'
  node : ∀ n, S.Rel (e.node b n) (e'.node b n)
  typeAt : ∀ id node, S.domain.Asks node → S.Rel (e.type b id node) (e'.type b id node)
  called : ∀ function values n, S.Rel (e.called (b.withFunction function values) n)
    (e'.called (b.withFunction function values) n)
  body : ∀ id, S.Rel (e.type b.detached id none) (e'.type b.detached id none)

variable {S}

lemma Related.type {b : Branch} {e e' : Evaluator} (h : S.Related b e e') (id : TypeId) :
    S.Rel (e.type b id none) (e'.type b id none) :=
  h.typeAt id none (S.domain.bare host.bare_none)

/-- Results that are only passed on in another form. -/
lemma map (h : S.Rel m m') {f : α → β} :
    S.Rel (m >>= fun a => Pure.pure (f a)) (m' >>= fun a => Pure.pure (f a)) :=
  S.bind h fun a => S.pure (f a)

/-! ## Lists -/

lemma mapM {items : List α} {f f' : α → Eval β} (h : ∀ a, S.Rel (f a) (f' a)) :
    S.Rel (items.mapM f) (items.mapM f') := by
  induction items with
  | nil => exact S.pure []
  | cons a rest ih =>
    rw [List.mapM_cons, List.mapM_cons]
    exact S.bind (h a) fun b => map ih

lemma foldlM {items : List α} {f f' : β → α → Eval β} (h : ∀ b a, S.Rel (f b a) (f' b a))
    (init : β) : S.Rel (items.foldlM f init) (items.foldlM f' init) := by
  induction items generalizing init with
  | nil => exact S.pure init
  | cons a rest ih =>
    rw [List.foldlM_cons, List.foldlM_cons]
    exact S.bind (h init a) fun b => ih b

lemma forM {items : List α} {f f' : α → Eval PUnit} (h : ∀ a, S.Rel (f a) (f' a)) :
    S.Rel (items.forM f) (items.forM f') := by
  induction items with
  | nil => exact S.pure PUnit.unit
  | cons a rest ih =>
    show S.Rel (f a >>= fun _ => rest.forM f) (f' a >>= fun _ => rest.forM f')
    exact S.bind (h a) fun _ => ih

/-! ## Reading the session -/

lemma cap : S.Rel Eval.cap Eval.cap := by
  refine S.read fun s s' hs => ?_
  rw [hs.maxUnionExpansion]
  exact S.pure _

lemma unfoldings : S.Rel (Evaluation.unfoldings host) (Evaluation.unfoldings host) := by
  refine S.read fun s s' hs => ?_
  rw [hs.definitions]
  exact S.pure _

end Simulation

end ValueSchema
