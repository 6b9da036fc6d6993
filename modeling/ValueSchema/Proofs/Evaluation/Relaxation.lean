/-
# Relaxed options

Options are relaxed if they allow more depth, or allow nodes without a schema where they did not
before.  An evaluation in which the depth sufficed does the same under relaxed options, step by
step: the sessions of the two evaluations differ in their options only.  Relaxing the options is a
simulation, which holds for as long as the depth suffices.
-/
import ValueSchema.Proofs.Evaluation.Uniformity

namespace ValueSchema

/-- The second options allow what the first ones do: at least as much depth, and nodes without a
schema if they were allowed; all else is the same. -/
structure Options.Relaxes (o o' : Options) : Prop where
  maxDepth_le : o.maxDepth ≤ o'.maxDepth
  permissive : o.permissive = true → o'.permissive = true
  maxUnionExpansion : o'.maxUnionExpansion = o.maxUnionExpansion
  wellKnownReferences : o'.wellKnownReferences = o.wellKnownReferences
  inlineSingleUse : o'.inlineSingleUseDefinitions = o.inlineSingleUseDefinitions

namespace Session

/-- The session under other options. -/
def under (s : Session) (o : Options) : Session := { s with options := o }

@[simp] lemma under_options (s : Session) (o : Options) : (s.under o).options = o := rfl

@[simp] lemma under_types (s : Session) (o : Options) : (s.under o).types = s.types := rfl

@[simp] lemma under_definitions (s : Session) (o : Options) :
    (s.under o).definitions = s.definitions := rfl

lemma alike_under {s : Session} {o o' : Options} (h : o.Relaxes o') (hs : s.options = o) :
    s.Alike (s.under o') where
  definitions := rfl
  isWellKnown := by
    funext name
    simp [Options.isWellKnown, h.wellKnownReferences, hs]
  maxUnionExpansion := by simp [h.maxUnionExpansion, hs]
  inlineSingleUse := by simp [h.inlineSingleUse, hs]

end Session

namespace Evaluation

variable (b : Branch) (id : TypeId) (node : Option NodeId) (s t : Session) (schema : Schema)

lemma options_remember : (remember b id node s t schema).options = t.options := by
  rw [remember]
  split <;> rfl

lemma degraded_remember : (remember b id node s t schema).degraded = t.degraded := by
  rw [remember]
  split <;> rfl

lemma remember_under (o : Options) :
    remember b id node (s.under o) (t.under o) schema =
      (remember b id node s t schema).under o := by
  by_cases h : (isGeneral b node && t.degraded == s.degraded && !schema.containsError) = true
  · rw [remember, remember, if_pos h, if_pos (by exact h)]
    rfl
  · rw [remember, remember, if_neg h, if_neg (by exact h)]

end Evaluation

namespace Eval

/-- A computation under the options `o` is repeated by another one under `o'`.  It keeps the options
and counts upwards; if the depth sufficed, the other one has the same result and leaves the same
behind. -/
def Repeated (o o' : Options) {α : Type} (m m' : Eval α) : Prop :=
  ∀ s a t, s.options = o → m s = (.ok a, t) →
    t.options = o ∧ s.degraded ≤ t.degraded ∧
      (t.degraded = s.degraded → m' (s.under o') = (.ok a, t.under o'))

variable {o o' : Options} {α β : Type} {m m' : Eval α}

lemma Repeated.pure (a : α) : Repeated o o' (Pure.pure a) (Pure.pure a) := by
  intro s b t hs h
  cases h
  exact ⟨hs, Nat.le_refl _, fun _ => rfl⟩

lemma Repeated.bind {f f' : α → Eval β} (hm : Repeated o o' m m')
    (hf : ∀ a, Repeated o o' (f a) (f' a)) : Repeated o o' (m >>= f) (m' >>= f') := by
  intro s b u hs h
  obtain ⟨a, t, ha, hb⟩ := Run.bind_eq_ok.1 h
  obtain ⟨ht, hst, hrun⟩ := hm s a t hs ha
  obtain ⟨hu, htu, hrest⟩ := hf a t b u ht hb
  refine ⟨hu, Nat.le_trans hst htu, fun hsame => ?_⟩
  -- neither part can have counted if the whole did not
  rw [Run.bind_of_ok (hrun (by omega)), hrest (by omega)]

lemma Repeated.read (h : o.Relaxes o') {f f' : Session → Eval α}
    (hf : ∀ s s', s.Alike s' → Repeated o o' (f s) (f' s')) :
    Repeated o o' (get >>= f) (get >>= f') :=
  fun s a t hs hrun => hf s (s.under o') (Session.alike_under h hs) s a t hs hrun

lemma Repeated.within (tree : Tree) (n : NodeId) (hm : Repeated o o' m m') :
    Repeated o o' (Eval.within tree n m) (Eval.within tree n m') := by
  intro s a t hs h
  rcases hrun : m s with ⟨stop | b, u⟩
  · rw [within_of_error hrun] at h
    cases h
  · rw [within_of_ok hrun] at h
    cases h
    obtain ⟨ht, hst, hrest⟩ := hm s a t hs hrun
    exact ⟨ht, hst, fun hsame => within_of_ok (hrest hsame)⟩

lemma Repeated.degrade (m' : Eval Schema) : Repeated o o' Eval.degrade m' := by
  intro s a t hs h
  cases h
  exact ⟨hs, Nat.le_succ _, fun hsame => absurd hsame (Nat.succ_ne_self _)⟩

lemma Repeated.reject (h : o.Relaxes o') (kind : String) :
    Repeated o o' (Evaluation.reject kind) (Evaluation.reject kind) := by
  intro s a t hs hrun
  rw [Evaluation.reject, options_bind, Run.get_bind] at hrun
  split at hrun
  · rename_i hpermissive
    cases hrun
    refine ⟨hs, Nat.le_refl _, fun _ => ?_⟩
    rw [Evaluation.reject, options_bind, Run.get_bind, Session.under_options,
      if_pos (h.permissive (hs ▸ hpermissive))]
    rfl
  · cases hrun

lemma Repeated.materialize {convert convert' : TypeId → Eval Schema} (id : String)
    (h : ∀ body, Repeated o o' (convert body) (convert' body)) :
    Repeated o o' (Evaluation.materialize convert id) (Evaluation.materialize convert' id) := by
  intro s a t hs hrun
  rw [Evaluation.materialize_apply, Session.under_definitions]
  rcases Evaluation.materialize_cases hrun with
    ⟨hclaim, hready, rfl⟩ | ⟨body, definitions, hclaim, ⟨schema, u, hbody, hready, rfl⟩ |
      ⟨stop, -, hstop⟩⟩
  · obtain rfl := Except.ok.inj hready
    exact ⟨hs, Nat.le_refl _, fun _ => by rw [hclaim]⟩
  · obtain rfl := Except.ok.inj hready
    obtain ⟨hu, hsu, hrest⟩ := h body { s with definitions } schema u hs hbody
    refine ⟨hu, hsu, fun hsame => ?_⟩
    have hagain : convert' body { s.under o' with definitions } = (.ok schema, u.under o') :=
      hrest hsame
    rw [hclaim]
    dsimp only
    rw [hagain]
    rfl
  · cases hstop

/-- What is remembered is the same under both options, since neither counted. -/
lemma Repeated.compound {host : Host} {e e' : Evaluator} {b : Branch} {id : TypeId}
    {form : TypeForm} (node : Option NodeId)
    (h : Repeated o o' (Evaluation.convertForm host e (b.withType id) id node form)
      (Evaluation.convertForm host e' (b.withType id) id node form)) :
    Repeated o o' (Evaluation.convertCompound host e b id node form)
      (Evaluation.convertCompound host e' b id node form) := by
  intro s a t hs hrun
  rw [Evaluation.convertCompound_apply] at hrun
  rw [Evaluation.convertCompound_apply, Session.under_types]
  split at hrun
  · cases hrun
    exact ⟨hs, Nat.le_refl _, fun _ => by rw [if_pos ‹_›]⟩
  · rw [if_neg ‹_›]
    rcases hknown : (if Evaluation.isGeneral b node then s.types.get? id else none) with _ | schema
    · rw [hknown] at hrun
      dsimp only at hrun ⊢
      rcases hform : Evaluation.convertForm host e (b.withType id) id node form s with
        ⟨stop | schema, u⟩
      · rw [hform] at hrun
        cases hrun
      · rw [hform] at hrun
        cases hrun
        obtain ⟨hu, hsu, hrest⟩ := h s a u hs hform
        rw [Evaluation.options_remember, Evaluation.degraded_remember]
        refine ⟨hu, hsu, fun hsame => ?_⟩
        rw [hrest hsame]
        dsimp only
        rw [Evaluation.remember_under]
    · rw [hknown] at hrun
      cases hrun
      exact ⟨hs, Nat.le_refl _, fun _ => rfl⟩

end Eval

/-- Relaxing the options is a simulation. -/
def Simulation.relaxation (host : Host) {o o' : Options} (h : o.Relaxes o') : Simulation host where
  Rel := Eval.Repeated o o'
  pure := .pure
  bind := .bind
  throw := by
    intro _ stop s a t _ hrun
    cases hrun
  within := .within host.tree
  read := .read h
  reject := .reject h
  degrade := .degrade
  register := by
    intro id name target arguments body _ s key t hs hrun
    cases hrun
    exact ⟨hs, Nat.le_refl _, fun _ => rfl⟩
  materialize id h := .materialize id h
  compound _ _ _ _ hform := .compound _ (hform trivial)

namespace Context

end Context

end ValueSchema
