/-
# Contracts of evaluations

Everything that evaluates keeps something of the session: an invariant, an order in which sessions
may follow each other, and a vocabulary that the schemas of a session keep to and that only grows.
A contract says what these are, and why the few operations that change the session respect them.

`Contract.Meets` says that a computation keeps a contract.  Its rules follow the ways in which
computations are put together; a proof about an evaluation uses these rules and never looks at the
session itself.
-/
import ValueSchema.Evaluation.Request
import ValueSchema.Proofs.Evaluation.Run
import ValueSchema.Proofs.Schema.Vocabulary

namespace ValueSchema

/-- Adds the place of a failure, unless it has one. -/
def Stop.withContext (location : Location) (subject : String) : Stop → Stop
  | failed failure => failed (failure.withContext location subject)
  | diverged => diverged

namespace Eval

variable {α : Type} {tree : Tree} {n : NodeId} {m : Eval α} {s t : Session}

lemma within_of_ok {a : α} (h : m s = (.ok a, t)) : within tree n m s = (.ok a, t) := by
  rw [within, Run.tryCatch_apply, h]

lemma within_of_error {stop : Stop} (h : m s = (.error stop, t)) :
    within tree n m s = (.error (stop.withContext (tree.location n) (tree.kindName n)), t) := by
  rw [within, Run.tryCatch_apply, h]
  cases stop <;> rfl

end Eval

/-- The kinds of nodes that have no schema of their own. -/
def Form.isRejected : Form → Bool
  | .sourceFile .. | .block _ | .variableStatement _ | .ifStatement .. | .spreadElement _
  | .jsxSpreadAttribute _ => true
  | _ => false

/-- What the evaluations of a host keep. -/
structure Contract (host : Host) where
  /-- What holds of a session between the steps of an evaluation. -/
  Inv : Session → Prop
  /-- Which sessions may come after a session. -/
  Ext : Session → Session → Prop
  /-- The names and ids of the references that the schemas of a session may contain. -/
  Known : Session → String → String → Prop
  /-- How an evaluation may stop. -/
  Err : Stop → Prop
  ext_refl : ∀ s, Ext s s
  ext_trans : ∀ {s t u}, Ext s t → Ext t u → Ext s u
  known_ext : ∀ {s t name id}, Ext s t → Known s name id → Known t name id
  known_wellKnown : ∀ {s name}, Inv s → s.options.isWellKnown name = true → Known s name name
  degrade : ∀ {s}, Inv s →
    Inv { s with degraded := s.degraded + 1 } ∧ Ext s { s with degraded := s.degraded + 1 }
  /-- What is remembered of a type may be used, and is what a type can have. -/
  cached : ∀ {s type schema}, Inv s → s.types.get? type = some schema →
    schema.Within (.ofReferences (Known s)) ∧ schema.Typelike
  cache : ∀ {s type schema}, Inv s → schema.Within (.ofReferences (Known s)) → schema.Typelike →
    Inv { s with types := s.types.put type schema } ∧
      Ext s { s with types := s.types.put type schema }
  /-- The reference to a definition may be used once it is registered. -/
  register : ∀ {s} (name display : String) (target body : TypeId), Inv s →
    let r := s.definitions.register name display target body
    Inv { s with definitions := r.2 } ∧ Ext s { s with definitions := r.2 } ∧
      Known { s with definitions := r.2 } name r.1
  /-- The body of a definition may be used. -/
  ready : ∀ {s id schema}, Inv s → s.definitions.ready? id = some schema →
    schema.Within (.ofReferences (Known s))
  /-- A definition may be claimed, -/
  claim : ∀ {s id body definitions}, Inv s → s.definitions.begin? id = some (body, definitions) →
    Inv { s with definitions }
  /-- and completed with the schema of its body. -/
  complete : ∀ {s t id body definitions schema}, Inv s →
    s.definitions.begin? id = some (body, definitions) → Inv t → Ext { s with definitions } t →
    schema.Within (.ofReferences (Known t)) →
    Inv { t with definitions := t.definitions.complete id schema } ∧
      Ext s { t with definitions := t.definitions.complete id schema } ∧
      Ext t { t with definitions := t.definitions.complete id schema }
  err_diverged : Err .diverged
  /-- A node of a kind that has no schema may stop an evaluation that is not permissive. -/
  err_rejected : ∀ {s n form}, Inv s → s.options.permissive = false →
    host.tree.form? n = some form → form.isRejected = true →
    Err (.failed ⟨.unsupportedNode form.kindName, some (host.tree.location n, form.kindName)⟩)
  /-- So may a name whose declaration is missing, -/
  err_missing : ∀ {n resolved}, host.resolve n = some resolved →
    host.tree.form? resolved.declaration = none →
    Err (.failed ⟨.missingDeclaration resolved.declaration.text, none⟩)
  /-- and a reference to a definition that is missing. -/
  err_undefined : ∀ {s name id}, Inv s → Known s name id →
    Entries.contains id s.definitions.entries = false → s.options.isWellKnown name = false →
    Err (.failed ⟨.definitionNotFound id, none⟩)
  err_context : ∀ {stop location subject}, Err stop → Err (stop.withContext location subject)

namespace Contract

variable {host : Host}

/-- What the schemas of a session may be about. -/
def vocabulary (c : Contract host) (s : Session) : Vocabulary := .ofReferences (c.Known s)

/-- A computation from a session keeps a contract.  If it ends with a result, the result is as `Q`
says in the session that it leads to; if it stops, it is for a reason in `E`. -/
structure Meets {α : Type} (c : Contract host) (E : Stop → Prop) (s : Session) (m : Eval α)
    (Q : Session → α → Prop) : Prop where
  ok : c.Inv s → ∀ a t, m s = (.ok a, t) → c.Inv t ∧ c.Ext s t ∧ Q t a
  error : c.Inv s → ∀ stop t, m s = (.error stop, t) → E stop

variable {α β : Type} {c : Contract host} {E : Stop → Prop} {s : Session}

namespace Meets

/-! ## Rules -/

lemma pure {a : α} {Q : Session → α → Prop} (h : c.Inv s → Q s a) :
    c.Meets E s (Pure.pure a) Q where
  ok := by
    intro hs b t hb
    cases hb
    exact ⟨hs, c.ext_refl s, h hs⟩
  error := by
    intro _ stop t hb
    cases hb

lemma bind {m : Eval α} {f : α → Eval β} {Q : Session → α → Prop} {R : Session → β → Prop}
    (hm : c.Meets E s m Q)
    (hf : ∀ t a, c.Inv t → c.Ext s t → Q t a → c.Meets E t (f a) R) :
    c.Meets E s (m >>= f) R where
  ok := by
    intro hs b u hb
    obtain ⟨a, t, ha, hb⟩ := Run.bind_eq_ok.1 hb
    obtain ⟨ht, hst, hQ⟩ := hm.ok hs a t ha
    obtain ⟨hu, htu, hR⟩ := (hf t a ht hst hQ).ok ht b u hb
    exact ⟨hu, c.ext_trans hst htu, hR⟩
  error := by
    intro hs stop u hb
    rcases Run.bind_eq_error hb with hstop | ⟨a, t, ha, hstop⟩
    · exact hm.error hs stop u hstop
    · obtain ⟨ht, hst, hQ⟩ := hm.ok hs a t ha
      exact (hf t a ht hst hQ).error ht stop u hstop

/-- A result that is only passed on in another form. -/
lemma map {m : Eval α} {f : α → β} {Q : Session → α → Prop} {R : Session → β → Prop}
    (hm : c.Meets E s m Q) (hf : ∀ t a, c.Ext s t → Q t a → R t (f a)) :
    c.Meets E s (m >>= fun a => Pure.pure (f a)) R :=
  hm.bind fun t a _ hst hQ => .pure fun _ => hf t a hst hQ

lemma mono {m : Eval α} {Q R : Session → α → Prop} (hm : c.Meets E s m Q)
    (h : ∀ t a, c.Ext s t → Q t a → R t a) : c.Meets E s m R where
  ok := by
    intro hs a t ha
    obtain ⟨ht, hst, hQ⟩ := hm.ok hs a t ha
    exact ⟨ht, hst, h t a hst hQ⟩
  error := hm.error

lemma weaken {m : Eval α} {Q : Session → α → Prop} {F : Stop → Prop} (hm : c.Meets E s m Q)
    (h : ∀ stop, E stop → F stop) : c.Meets F s m Q where
  ok := hm.ok
  error hs stop t ht := h stop (hm.error hs stop t ht)

lemma throw {stop : Stop} {Q : Session → α → Prop} (h : c.Inv s → E stop) :
    c.Meets E s (MonadExcept.throw stop) Q where
  ok := by
    intro _ a t ha
    cases ha
  error := by
    intro hs stop' t ht
    cases ht
    exact h hs

/-- Reading the session leaves it as it is. -/
lemma get_bind {f : Session → Eval β} {R : Session → β → Prop}
    (h : c.Inv s → c.Meets E s (f s) R) : c.Meets E s (get >>= f) R where
  ok hs b u hb := (h hs).ok hs b u hb
  error hs stop u hb := (h hs).error hs stop u hb

/-- A change of the session that the contract allows. -/
lemma set_bind {t : Session} {m : Eval β} {R : Session → β → Prop}
    (hstep : c.Inv s → c.Inv t ∧ c.Ext s t) (hm : c.Ext s t → c.Meets E t m R) :
    c.Meets E s (set t >>= fun _ => m) R where
  ok := by
    intro hs b u hb
    obtain ⟨ht, hst⟩ := hstep hs
    obtain ⟨hu, htu, hR⟩ := (hm hst).ok ht b u hb
    exact ⟨hu, c.ext_trans hst htu, hR⟩
  error := by
    intro hs stop u hb
    obtain ⟨ht, hst⟩ := hstep hs
    exact (hm hst).error ht stop u hb

lemma update {f : Session → Session} {Q : Session → Unit → Prop}
    (hstep : c.Inv s → c.Inv (f s) ∧ c.Ext s (f s) ∧ Q (f s) ()) :
    c.Meets E s (modify f) Q where
  ok := by
    intro hs a t ha
    cases ha
    exact hstep hs
  error := by
    intro _ stop t ht
    cases ht

/-! ## Lists -/

/-- A computation for each item of a list, one after the other. -/
lemma mapM {items : List α} {f : α → Eval β} {P : Session → β → Prop}
    (hP : ∀ t u b, c.Ext t u → P t b → P u b)
    (hf : ∀ a ∈ items, ∀ t, c.Ext s t → c.Meets E t (f a) P) :
    c.Meets E s (items.mapM f) (fun t results => ∀ b ∈ results, P t b) := by
  induction items generalizing s with
  | nil =>
    rw [List.mapM_nil]
    exact .pure fun _ => by simp
  | cons a rest ih =>
    rw [List.mapM_cons]
    refine (hf a (List.mem_cons_self ..) s (c.ext_refl s)).bind fun t b _ hst hb => ?_
    have hrest : c.Meets E t (rest.mapM f) (fun u results => ∀ b ∈ results, P u b) :=
      ih fun d hd u htu => hf d (List.mem_cons_of_mem _ hd) u (c.ext_trans hst htu)
    exact hrest.map fun u results htu hall => List.forall_mem_cons.2 ⟨hP t u b htu hb, hall⟩

/-- A computation that goes on from result to result. -/
lemma foldlM {items : List α} {f : β → α → Eval β} {init : β} {P : Session → β → Prop}
    (hinit : P s init)
    (hf : ∀ b, ∀ a ∈ items, ∀ t, c.Ext s t → P t b → c.Meets E t (f b a) P) :
    c.Meets E s (items.foldlM f init) P := by
  induction items generalizing s init with
  | nil => exact .pure fun _ => hinit
  | cons a rest ih =>
    rw [List.foldlM_cons]
    refine (hf init a (List.mem_cons_self ..) s (c.ext_refl s) hinit).bind fun t b _ hst hb => ?_
    exact ih hb fun b' d hd u htu =>
      hf b' d (List.mem_cons_of_mem _ hd) u (c.ext_trans hst htu)

lemma forM {items : List α} {f : α → Eval PUnit}
    (hf : ∀ a ∈ items, ∀ t, c.Ext s t → c.Meets E t (f a) fun _ _ => True) :
    c.Meets E s (items.forM f) fun _ _ => True := by
  induction items generalizing s with
  | nil => exact .pure fun _ => trivial
  | cons a rest ih =>
    show c.Meets E s (f a >>= fun _ => rest.forM f) _
    refine (hf a (List.mem_cons_self ..) s (c.ext_refl s)).bind fun t _ _ hst _ => ?_
    exact ih fun d hd u htu => hf d (List.mem_cons_of_mem _ hd) u (c.ext_trans hst htu)

/-! ## Operations of a session -/

lemma options : c.Meets E s Eval.options fun t o => o = t.options :=
  .get_bind fun _ => .pure fun _ => rfl

lemma cap : c.Meets E s Eval.cap fun _ _ => True :=
  options.map fun _ _ _ _ => trivial

lemma degrade :
    c.Meets E s Eval.degrade fun t r => r.Within (c.vocabulary t) ∧ r.Typelike :=
  .bind (Q := fun _ _ => True) (.update fun hs => ⟨(c.degrade hs).1, (c.degrade hs).2, trivial⟩)
    fun _ _ _ _ _ => .pure fun _ => ⟨Schema.within_unknown, .simple rfl rfl⟩

/-- Adding the place of a failure. -/
lemma within {m : Eval α} {Q : Session → α → Prop} {n : NodeId} {F : Stop → Prop}
    (hm : c.Meets F s m Q)
    (h : ∀ stop, F stop →
      E (stop.withContext (host.tree.location n) (host.tree.kindName n))) :
    c.Meets E s (Eval.within host.tree n m) Q where
  ok := by
    intro hs a t ha
    rcases hrun : m s with ⟨stop | b, u⟩
    · rw [Eval.within_of_error hrun] at ha
      cases ha
    · rw [Eval.within_of_ok hrun] at ha
      exact hm.ok hs a t (hrun.trans ha)
  error := by
    intro hs stop t ha
    rcases hrun : m s with ⟨stop' | b, u⟩
    · rw [Eval.within_of_error hrun] at ha
      cases ha
      exact h stop' (hm.error hs stop' _ hrun)
    · rw [Eval.within_of_ok hrun] at ha
      cases ha

end Meets

end Contract

end ValueSchema
