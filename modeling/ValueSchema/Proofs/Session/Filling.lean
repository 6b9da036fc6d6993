/-
# Where bodies come from

A definition becomes ready in one way only: it is claimed, and its body is converted in a branch
that is not inside of anything.  So each definition that a session has stored comes from such a
*conversion* of its body, in some session before, `Simulation.filling`.

What holds of all sessions on the way holds of those in which the bodies were converted.  Such a
*kind* of sessions must not depend on the states of definitions, and a schema that is remembered
must not lead out of it.  Then evaluations stay in the kind.
-/
import ValueSchema.Proofs.Session.History

namespace ValueSchema

namespace Session

/-- A conversion of the body of a definition after a session: the definition is claimed, and its
body converted into a schema. -/
structure Conversion (s : Session) (host : Host) (id : String) (schema : Schema) where
  /-- The depth that is left. -/
  depth : Nat
  /-- The branch in which the definition is needed. -/
  branch : Branch
  body : TypeId
  /-- The session in which the definition waits. -/
  waiting : Session
  claimed : Registry
  /-- The session in which the schema of the body has been found. -/
  found : Session
  moves : s.Moves host waiting
  claims : waiting.definitions.begin? id = some (body, claimed)
  runs : Evaluation.convertType host depth branch.detached body none
    { waiting with definitions := claimed } = (.ok schema, found)

/-- A kind of sessions that a session does not leave when its definitions change, or when the depth
does not suffice. -/
structure Stable (host : Host) (kind : Session → Prop) : Prop where
  degrade : ∀ {s}, kind s → kind { s with degraded := s.degraded + 1 }
  register : ∀ {s id name target arguments body},
    host.types.get? id = some (.application name target arguments body) → kind s →
      kind (Evaluation.registerInstance host id name target body s).2
  setState : ∀ {s} id state, kind s → kind { s with definitions := s.definitions.setState id state }

lemma stable_true (host : Host) : Stable host fun _ => True :=
  ⟨fun _ => trivial, fun _ _ => trivial, fun _ _ _ => trivial⟩

lemma Stable.claim {host : Host} {kind : Session → Prop} (h : Stable host kind) {s : Session}
    (hs : kind s) {id : String} {body : TypeId} {definitions : Registry}
    (hclaim : s.definitions.begin? id = some (body, definitions)) :
    kind { s with definitions } := by
  rw [Registry.begin?_eq_some hclaim]
  exact h.setState id _ hs

/-- A definition is ready in the second session only if it is so in the first one, or if its body
has been converted in between, after a session of some kind. -/
def Gains (host : Host) (kind : Session → Prop) (s t : Session) : Prop :=
  ∀ id schema, t.definitions.ready? id = some schema →
    s.definitions.ready? id = some schema ∨ ∃ k : s.Conversion host id schema, kind k.waiting

variable {host : Host} {kind : Session → Prop} {s t u : Session}

/-- A conversion after a session is one after those before it. -/
def Conversion.earlier {id : String} {schema : Schema} (k : t.Conversion host id schema)
    (h : s.Moves host t) : s.Conversion host id schema :=
  { k with moves := h.trans k.moves }

lemma Gains.of_ready? (h : ∀ id schema, t.definitions.ready? id = some schema →
    s.definitions.ready? id = some schema) : s.Gains host kind t :=
  fun id schema hready => Or.inl (h id schema hready)

lemma Gains.refl (s : Session) : s.Gains host kind s := .of_ready? fun _ _ h => h

lemma Gains.trans (hmoves : s.Moves host t) (h : s.Gains host kind t) (h' : t.Gains host kind u) :
    s.Gains host kind u := by
  intro id schema hready
  rcases h' id schema hready with hready | ⟨k, hk⟩
  · exact h id schema hready
  · exact Or.inr ⟨k.earlier hmoves, hk⟩

lemma Gains.claim {id : String} {body : TypeId} {definitions : Registry}
    (hclaim : s.definitions.begin? id = some (body, definitions)) :
    s.Gains host kind { s with definitions } := by
  refine .of_ready? fun other schema hready => ?_
  rw [Registry.begin?_eq_some hclaim] at hready
  exact Registry.ready?_of_setState_resolving hready

end Session

namespace Eval

open Session

/-! ## Computations that make no definition ready -/

/-- A computation after which a session is of the same kind as before, and no more definitions are
ready. -/
structure Quiet (kind : Session → Prop) {α : Type} (m : Eval α) : Prop where
  stays : ∀ {s : Session} {o t}, kind s → m s = (o, t) →
    kind t ∧ ∀ id, t.definitions.ready? id = s.definitions.ready? id

namespace Quiet

variable {host : Host} {kind : Session → Prop} {α β : Type} {m : Eval α}

/-- A computation that only looks at the session. -/
lemma of_snd_eq (h : ∀ s, (m s).2 = s) : Quiet kind m where
  stays := by
    intro s o t hs hrun
    obtain rfl : t = s := by rw [← h s, hrun]
    exact ⟨hs, fun _ => rfl⟩

lemma bind {f : α → Eval β} (hm : Quiet kind m) (hf : ∀ a, Quiet kind (f a)) :
    Quiet kind (m >>= f) where
  stays := by
    intro s o u hs hrun
    rcases hfirst : m s with ⟨stop | a, t⟩
    · rw [Run.bind_of_error hfirst] at hrun
      cases hrun
      exact hm.stays hs hfirst
    · rw [Run.bind_of_ok hfirst] at hrun
      obtain ⟨ht, hst⟩ := hm.stays hs hfirst
      obtain ⟨hu, htu⟩ := (hf a).stays ht hrun
      exact ⟨hu, fun id => (htu id).trans (hst id)⟩

lemma degrade (hkind : Stable host kind) : Quiet kind Eval.degrade where
  stays := by
    intro s o t hs hrun
    cases hrun
    exact ⟨hkind.degrade hs, fun _ => rfl⟩

lemma registerInstance (hkind : Stable host kind) {id : TypeId} {name : String} {target : TypeId}
    {arguments : List TypeId} {body : TypeId}
    (hid : host.types.get? id = some (.application name target arguments body)) :
    Quiet kind (Evaluation.registerInstance host id name target body) where
  stays := by
    intro s o t hs hrun
    have ht := hkind.register hid hs
    rw [hrun] at ht
    cases hrun
    exact ⟨ht, fun other => Registry.ready?_register s.definitions _ _ _ _ other⟩

lemma compound {e : Evaluator} {b : Branch} {id : TypeId} {form : TypeForm} {node : Option NodeId}
    (hform : Quiet kind (Evaluation.convertForm host e (b.withType id) id node form))
    (hremember : ∀ {s schema t}, kind s → kind t →
      Evaluation.convertForm host e (b.withType id) id node form s = (.ok schema, t) →
        kind (Evaluation.remember b id node s t schema)) :
    Quiet kind (Evaluation.convertCompound host e b id node form) where
  stays := by
    intro s o t hs hrun
    rcases Evaluation.convertCompound_cases hrun with
      ⟨schema, -, -, rfl⟩ | ⟨schema, u, hnew, -, rfl⟩ | ⟨stop, hstop, -⟩
    · exact ⟨hs, fun _ => rfl⟩
    · obtain ⟨hu, hready⟩ := hform.stays hs hnew
      refine ⟨hremember hs hu hnew, fun other => ?_⟩
      rw [Evaluation.definitions_remember]
      exact hready other
    · exact hform.stays hs hstop

end Quiet

/-! ## Computations that convert bodies -/

/-- A computation that goes forward, after which a session is of the same kind as before, and by
which definitions become ready only if their bodies are converted. -/
structure Fills (host : Host) (kind : Session → Prop) {α : Type} (m : Eval α) : Prop where
  progresses : Progresses host m
  gains : ∀ {s : Session} {o t}, kind s → m s = (o, t) → kind t ∧ s.Gains host kind t

namespace Fills

variable {host : Host} {kind : Session → Prop} {α β : Type} {m : Eval α}

lemma of_quiet (hm : Progresses host m) (h : Quiet kind m) : Fills host kind m where
  progresses := hm
  gains := by
    intro s o t hs hrun
    obtain ⟨ht, hready⟩ := h.stays hs hrun
    exact ⟨ht, .of_ready? fun id schema hid => (hready id).symm.trans hid⟩

lemma bind {f : α → Eval β} (hm : Fills host kind m) (hf : ∀ a, Fills host kind (f a)) :
    Fills host kind (m >>= f) where
  progresses := hm.progresses.bind fun a => (hf a).progresses
  gains := by
    intro s o u hs hrun
    rcases hfirst : m s with ⟨stop | a, t⟩
    · rw [Run.bind_of_error hfirst] at hrun
      cases hrun
      exact hm.gains hs hfirst
    · rw [Run.bind_of_ok hfirst] at hrun
      obtain ⟨ht, hst⟩ := hm.gains hs hfirst
      obtain ⟨hu, htu⟩ := (hf a).gains ht hrun
      exact ⟨hu, hst.trans (hm.progresses.moves hfirst) htu⟩

lemma read {f : Session → Eval α} (h : ∀ s, Fills host kind (f s)) :
    Fills host kind (get >>= f) where
  progresses := .read fun s => (h s).progresses
  gains {s} := (h s).gains

lemma within (tree : Tree) (n : NodeId) (hm : Fills host kind m) :
    Fills host kind (Eval.within tree n m) where
  progresses := hm.progresses.within tree n
  gains := by
    intro s o t hs hrun
    rcases hinner : m s with ⟨stop | a, u⟩
    · rw [within_of_error hinner] at hrun
      cases hrun
      exact hm.gains hs hinner
    · rw [within_of_ok hinner] at hrun
      cases hrun
      exact hm.gains hs hinner

/-- The only place where a definition becomes ready. -/
lemma materialize (hkind : Stable host kind) {depth : Nat} {b : Branch} (id : String)
    (h : ∀ body, Fills host kind (Evaluation.convertType host depth b.detached body none)) :
    Fills host kind
      (Evaluation.materialize (Evaluation.convertBody (Evaluation.evaluator host depth) b) id) where
  progresses := .materialize id fun body => (h body).progresses
  gains := by
    intro s o t hs hrun
    rcases Evaluation.materialize_cases hrun with
      ⟨-, -, rfl⟩ | ⟨body, definitions, hclaim, ⟨schema, u, hbody, -, rfl⟩ | ⟨stop, hbody, -⟩⟩
    · exact ⟨hs, .refl t⟩
    · obtain ⟨hu, hgains⟩ := (h body).gains (hkind.claim hs hclaim) hbody
      refine ⟨hkind.setState id _ hu, fun other schema' hready => ?_⟩
      -- the definition itself, or one that became ready while its body was converted
      rcases Registry.ready?_of_complete hready with ⟨rfl, rfl⟩ | hready
      · exact Or.inr ⟨⟨depth, b, body, s, definitions, u, .refl host s, hclaim, hbody⟩, hs⟩
      · exact ((Gains.claim hclaim).trans (moves_claim hclaim) hgains) other schema' hready
    · obtain ⟨ht, hgains⟩ := (h body).gains (hkind.claim hs hclaim) hbody
      exact ⟨ht, (Gains.claim hclaim).trans (moves_claim hclaim) hgains⟩

lemma compound {depth : Nat} {b : Branch} {id : TypeId} {form : TypeForm} {node : Option NodeId}
    (hform : Fills host kind (Evaluation.convertForm host (Evaluation.evaluator host depth)
      (b.withType id) id node form)) (hid : host.types.get? id = some form)
    (hremember : ∀ {s schema t}, kind s → kind t →
      kind (Evaluation.remember b id node s t schema)) :
    Fills host kind
      (Evaluation.convertCompound host (Evaluation.evaluator host depth) b id node form) where
  progresses := Evaluation.progresses_convertCompound hid
    (fun b => (Simulation.related_progress host depth b).type) hform.progresses
  gains := by
    intro s o t hs hrun
    rcases Evaluation.convertCompound_cases hrun with
      ⟨schema, -, -, rfl⟩ | ⟨schema, u, hnew, -, rfl⟩ | ⟨stop, hstop, -⟩
    · exact ⟨hs, .refl t⟩
    · obtain ⟨hu, hgains⟩ := hform.gains hs hnew
      refine ⟨hremember hs hu, fun other schema' hready => ?_⟩
      rw [Evaluation.definitions_remember] at hready
      exact hgains other schema' hready
    · exact hform.gains hs hstop

end Fills

end Eval

open Session Eval

/-- Where bodies come from is a simulation that looks at the first computation only, in a domain in
which the conversions of types keep the kind of a session. -/
def Simulation.filling {host : Host} {kind : Session → Prop} (hkind : Stable host kind)
    (domain : Domain host)
    (hcompound : ∀ {depth : Nat} {b : Branch} {id : TypeId} {form : TypeForm}
      {node : Option NodeId},
      host.types.get? id = some form → domain.Fits b → domain.Asks node →
      (domain.Fits (b.withType id) → Fills host kind (Evaluation.convertForm host
        (Evaluation.evaluator host depth) (b.withType id) id node form)) →
      Fills host kind
        (Evaluation.convertCompound host (Evaluation.evaluator host depth) b id node form)) :
    Simulation host where
  Rel m _ := Fills host kind m
  domain := domain
  pure _ := .of_quiet (.of_snd_eq fun _ => rfl) (.of_snd_eq fun _ => rfl)
  bind := .bind
  throw _ := .of_quiet (.of_snd_eq fun _ => rfl) (.of_snd_eq fun _ => rfl)
  within := .within host.tree
  read h := .read fun s => h s s (.refl s)
  reject kind := .of_quiet (.reject kind) (.of_snd_eq (Evaluation.snd_reject kind))
  degrade _ := .of_quiet .degrade (.degrade hkind)
  register hid := .of_quiet (.registerInstance hid) (.registerInstance hkind hid)
  materialize := .materialize hkind
  compound hid hb hnode _ := hcompound hid hb hnode

namespace Session

variable {host : Host} {s t : Session} {id : String} {schema : Schema}

/-- Every body comes from a conversion, whatever the requests are. -/
lemma Later.gains (h : s.Later host t) : s.Gains host (fun _ => True) t := by
  let S := Simulation.filling (stable_true host) (.all host)
    fun hid _ _ hform => (hform trivial).compound hid fun _ _ => trivial
  induction h with
  | refl => exact .refl s
  | request hlater r ih =>
    have hrequest := S.request (P := Gains host fun _ => True)
      (fun hm _ => (hm.gains trivial rfl).2) (r := r) ⟨trivial, trivial⟩
    exact ih.trans hlater.moves (hrequest _)

end Session

end ValueSchema
