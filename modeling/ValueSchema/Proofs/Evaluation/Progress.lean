/-
# What evaluations do to the definitions

Whatever is evaluated, and whether or not it ends with a result, the definitions of the session go
forward, and those that were registered keep their ids.  This is a simulation that looks at one
computation only, `Simulation.progress`.

A session is indexed if its definitions are instances of generic types of the host, each under the
id that belongs to it, and if what it remembers of such an instance is a reference to this id.
Evaluations keep sessions indexed.
-/
import ValueSchema.Proofs.Definition.Lifecycle
import ValueSchema.Proofs.Evaluation.Uniformity

namespace ValueSchema

/-- The definitions have different ids. -/
def Registry.Distinct (r : Registry) : Prop := (Entries.names r.entries).Nodup

namespace Session

/-- Every definition is an instance of a generic type under its own id, and so is what the memory
has of instances. -/
structure Indexed (host : Host) (s : Session) : Prop where
  instances : ∀ id d, s.definitions.get? id = some d → ∃ type name arguments body,
    host.types.get? type = some (.application name d.target arguments body) ∧
      s.definitions.Assigns (host.types.display type) d.target id
  cached : ∀ type name target arguments body schema,
    host.types.get? type = some (.application name target arguments body) →
    s.options.isWellKnown name = false → s.types.get? type = some schema →
    ∃ items id, schema = .reference name items id ∧
      s.definitions.Assigns (host.types.display type) target id

/-- How computations lead from one session to another. -/
structure Moves (host : Host) (s t : Session) : Prop where
  options_eq : t.options = s.options
  advances : s.definitions.Advances t.definitions
  distinct : s.definitions.Distinct → t.definitions.Distinct
  indexed : s.Indexed host → t.Indexed host

variable {host : Host} {s t u : Session}

lemma Moves.refl (host : Host) (s : Session) : s.Moves host s := ⟨rfl, .refl _, id, id⟩

lemma Moves.trans (h : s.Moves host t) (h' : t.Moves host u) : s.Moves host u :=
  ⟨h'.options_eq.trans h.options_eq, h.advances.trans h'.advances, h'.distinct ∘ h.distinct,
    h'.indexed ∘ h.indexed⟩

/-- A body that is stored stays. -/
lemma Moves.ready? {id : String} {schema : Schema} (h : s.Moves host t)
    (hready : s.definitions.ready? id = some schema) :
    t.definitions.ready? id = some schema := by
  obtain ⟨d, hd, hstate⟩ := Registry.ready?_eq_some_iff.1 hready
  obtain ⟨d', hd', -, hleads⟩ := h.advances id d hd
  rw [hstate] at hleads
  exact Registry.ready?_eq_some_iff.2 ⟨d', hd', hleads.eq_ready⟩

/-! ## Indexed sessions -/

lemma indexed_start (options : Options) : ({ options } : Session).Indexed host where
  instances := by simp [Registry.get?, Entries.get?]
  cached := by simp [Table.get?]

/-- What a session remembers stays valid as long as definitions belong to the same types. -/
lemma Indexed.cached_of_keepsTargets (h : s.Indexed host) {r : Registry}
    (hr : s.definitions.KeepsTargets r) {type : TypeId} {name : String} {target : TypeId}
    {arguments : List TypeId} {body : TypeId} {schema : Schema}
    (htype : host.types.get? type = some (.application name target arguments body))
    (hwell : s.options.isWellKnown name = false) (hcached : s.types.get? type = some schema) :
    ∃ items id, schema = .reference name items id ∧
      r.Assigns (host.types.display type) target id := by
  obtain ⟨items, id, hschema, hassigns⟩ := h.cached _ _ _ _ _ _ htype hwell hcached
  exact ⟨items, id, hschema, hassigns.mono hr⟩

lemma Indexed.setState (h : s.Indexed host) (id : String) (state : Definition.State) :
    ({ s with definitions := s.definitions.setState id state } : Session).Indexed host where
  instances := by
    intro other d' hd'
    dsimp only at hd' ⊢
    rw [Registry.get?_setState] at hd'
    obtain ⟨d, hd, rfl⟩ := Option.map_eq_some_iff.1 hd'
    obtain ⟨type, name, arguments, body, htype, hassigns⟩ := h.instances other d hd
    have htarget : (if other = id then { d with state } else d).target = d.target := by
      split <;> rfl
    rw [htarget]
    exact ⟨type, name, arguments, body, htype,
      hassigns.mono (s.definitions.keepsTargets_setState id state)⟩
  cached _ _ _ _ _ _ htype hwell hcached :=
    h.cached_of_keepsTargets (s.definitions.keepsTargets_setState id state) htype hwell hcached

lemma Indexed.register (h : s.Indexed host) {type : TypeId} {name : String} {target : TypeId}
    {arguments : List TypeId} {body : TypeId} {id : String} {r : Registry}
    (htype : host.types.get? type = some (.application name target arguments body))
    (hregister : s.definitions.register name (host.types.display type) target body = (id, r)) :
    ({ s with definitions := r } : Session).Indexed host where
  instances := by
    intro other d hd
    rcases Registry.register_cases hregister with ⟨rfl, -⟩ | ⟨hfree, rfl, hassigns⟩
    · exact h.instances other d hd
    · dsimp only at hd
      rw [Registry.get?_concat] at hd
      rcases hold : s.definitions.get? other with _ | d'
      · rw [hold, Option.none_or] at hd
        split at hd
        · rename_i hid
          obtain rfl := Option.some.inj hd
          obtain rfl := hid
          exact ⟨type, name, arguments, body, htype, hassigns⟩
        · cases hd
      · rw [hold, Option.some_or] at hd
        obtain rfl := Option.some.inj hd
        obtain ⟨type', name', arguments', body', htype', hother⟩ := h.instances other d' hold
        exact ⟨type', name', arguments', body', htype',
          hother.mono (Registry.advances_register hregister).keepsTargets⟩
  cached _ _ _ _ _ _ htype hwell hcached :=
    h.cached_of_keepsTargets (Registry.advances_register hregister).keepsTargets htype hwell hcached

/-- A schema may be remembered that refers to the definition of the instance, if it is one. -/
lemma Indexed.cache (h : s.Indexed host) {id : TypeId} {schema : Schema}
    (hschema : ∀ name target arguments body,
      host.types.get? id = some (.application name target arguments body) →
      s.options.isWellKnown name = false → ∃ items key, schema = .reference name items key ∧
        s.definitions.Assigns (host.types.display id) target key) :
    ({ s with types := s.types.put id schema } : Session).Indexed host where
  instances := h.instances
  cached := by
    intro type name target arguments body other htype hwell hcached
    dsimp only at hwell hcached
    by_cases htypes : id = type
    · subst htypes
      rw [Table.get?_put_self] at hcached
      obtain rfl := Option.some.inj hcached
      exact hschema name target arguments body htype hwell
    · rw [Table.get?_put_of_ne s.types htypes] at hcached
      exact h.cached type name target arguments body other htype hwell hcached

/-! ## Changes of the definitions -/

lemma moves_register {type : TypeId} {name : String} {target : TypeId}
    {arguments : List TypeId} {body : TypeId} {id : String} {r : Registry}
    (htype : host.types.get? type = some (.application name target arguments body))
    (hregister : s.definitions.register name (host.types.display type) target body = (id, r)) :
    s.Moves host { s with definitions := r } where
  options_eq := rfl
  advances := Registry.advances_register hregister
  distinct := by
    intro hs
    rcases Registry.register_cases hregister with ⟨rfl, -⟩ | ⟨hfree, rfl, -⟩
    · exact hs
    · simp only [Registry.Distinct, Entries.names, List.map_append, List.map_cons, List.map_nil]
      refine List.Nodup.append hs (List.nodup_singleton id) ?_
      rw [List.disjoint_singleton]
      exact Entries.get?_eq_none_iff.1 hfree
  indexed hs := hs.register htype hregister

lemma distinct_setState {r : Registry} (h : r.Distinct) (id : String) (state : Definition.State) :
    (r.setState id state).Distinct := by
  rw [Registry.Distinct, Registry.names_setState]
  exact h

lemma moves_claim {id : String} {body : TypeId} {r : Registry}
    (hclaim : s.definitions.begin? id = some (body, r)) :
    s.Moves host { s with definitions := r } where
  options_eq := rfl
  advances := Registry.advances_claim hclaim
  distinct := by
    rw [Registry.begin?_eq_some hclaim]
    exact fun hs => distinct_setState hs id _
  indexed := by
    rw [Registry.begin?_eq_some hclaim]
    exact fun hs => hs.setState id _

lemma moves_complete {id : String} {body : TypeId} {r : Registry} {schema : Schema}
    (hclaim : s.definitions.begin? id = some (body, r))
    (h : ({ s with definitions := r } : Session).Moves host t) :
    s.Moves host { t with definitions := t.definitions.complete id schema } where
  options_eq := h.options_eq
  advances := Registry.advances_complete hclaim h.advances schema
  distinct hs := by
    have hclaimed : s.Moves host _ := moves_claim hclaim
    exact distinct_setState (h.distinct (hclaimed.distinct hs)) id _
  indexed hs := (h.indexed ((moves_claim hclaim).indexed hs)).setState id _

end Session

/-! ## Computations -/

lemma Evaluation.snd_reject (kind : String) (s : Session) : (reject kind s).2 = s := by
  rw [reject, Eval.options_bind, Run.get_bind]
  split <;> rfl

namespace Eval

/-- A computation goes forward from every session, also if it stops, and leaves no conversion open
if it ends with a result. -/
structure Progresses (host : Host) {α : Type} (m : Eval α) : Prop where
  moves : ∀ {s : Session} {o t}, m s = (o, t) → s.Moves host t
  settles : ∀ {s : Session} {a t}, m s = (.ok a, t) → s.definitions.Settles t.definitions

namespace Progresses

variable {host : Host} {α β : Type} {m : Eval α}

/-- A computation that only looks at the session. -/
lemma of_snd_eq (h : ∀ s, (m s).2 = s) : Progresses host m := by
  constructor
  · intro s o t hrun
    obtain rfl : t = s := by rw [← h s, hrun]
    exact .refl host t
  · intro s a t hrun
    obtain rfl : t = s := by rw [← h s, hrun]
    exact .refl _

lemma bind {f : α → Eval β} (hm : Progresses host m) (hf : ∀ a, Progresses host (f a)) :
    Progresses host (m >>= f) := by
  constructor
  · intro s o u hrun
    rcases hfirst : m s with ⟨stop | a, t⟩
    · rw [Run.bind_of_error hfirst] at hrun
      cases hrun
      exact hm.moves hfirst
    · rw [Run.bind_of_ok hfirst] at hrun
      exact (hm.moves hfirst).trans ((hf a).moves hrun)
  · intro s b u hrun
    obtain ⟨a, t, ha, hb⟩ := Run.bind_eq_ok.1 hrun
    exact (hm.settles ha).trans ((hf a).settles hb)

lemma read {f : Session → Eval α} (h : ∀ s, Progresses host (f s)) :
    Progresses host (get >>= f) :=
  ⟨fun {s} => (h s).moves, fun {s} => (h s).settles⟩

lemma within (tree : Tree) (n : NodeId) (hm : Progresses host m) :
    Progresses host (Eval.within tree n m) := by
  constructor
  · intro s o t hrun
    rcases hinner : m s with ⟨stop | a, u⟩
    · rw [within_of_error hinner] at hrun
      cases hrun
      exact hm.moves hinner
    · rw [within_of_ok hinner] at hrun
      cases hrun
      exact hm.moves hinner
  · intro s a t hrun
    rcases hinner : m s with ⟨stop | b, u⟩
    · rw [within_of_error hinner] at hrun
      cases hrun
    · rw [within_of_ok hinner] at hrun
      cases hrun
      exact hm.settles hinner

lemma degrade : Progresses host Eval.degrade := by
  constructor
  · intro s o t hrun
    cases hrun
    exact ⟨rfl, .refl _, id, fun hs => ⟨hs.instances, hs.cached⟩⟩
  · intro s a t hrun
    cases hrun
    exact .refl _

lemma reject (kind : String) : Progresses host (Evaluation.reject kind) :=
  of_snd_eq (Evaluation.snd_reject kind)

lemma registerInstance {id : TypeId} {name : String} {target : TypeId} {arguments : List TypeId}
    {body : TypeId} (hid : host.types.get? id = some (.application name target arguments body)) :
    Progresses host (Evaluation.registerInstance host id name target body) := by
  constructor
  · intro s o t hrun
    cases hrun
    exact Session.moves_register hid rfl
  · intro s key t hrun
    cases hrun
    exact Registry.settles_register rfl

lemma materialize {convert : TypeId → Eval Schema} (id : String)
    (h : ∀ body, Progresses host (convert body)) :
    Progresses host (Evaluation.materialize convert id) := by
  constructor
  · intro s o t hrun
    rcases Evaluation.materialize_cases hrun with
      ⟨-, -, rfl⟩ | ⟨body, definitions, hclaim, ⟨schema, u, hbody, -, rfl⟩ | ⟨stop, hbody, -⟩⟩
    · exact .refl host t
    · exact Session.moves_complete hclaim ((h body).moves hbody)
    · exact (Session.moves_claim hclaim).trans ((h body).moves hbody)
  · intro s a t hrun
    rcases Evaluation.materialize_cases hrun with
      ⟨-, -, rfl⟩ | ⟨body, definitions, hclaim, ⟨schema, u, hbody, -, rfl⟩ | ⟨stop, -, hstop⟩⟩
    · exact .refl _
    · exact Registry.settles_complete hclaim ((h body).settles hbody) schema
    · cases hstop

lemma mapM {f : α → Eval β} (h : ∀ a, Progresses host (f a)) (items : List α) :
    Progresses host (items.mapM f) := by
  induction items with
  | nil => exact of_snd_eq fun _ => rfl
  | cons a rest ih =>
    rw [List.mapM_cons]
    exact (h a).bind fun b => ih.bind fun more => of_snd_eq fun _ => rfl

end Progresses

end Eval

/-! ## Instances of generic types -/

namespace Evaluation

open Eval

variable {host : Host} {e : Evaluator} {b : Branch} {id : TypeId} {node : Option NodeId}
  {s t : Session}

lemma definitions_remember (b : Branch) (id : TypeId) (node : Option NodeId) (s t : Session)
    (schema : Schema) : (remember b id node s t schema).definitions = t.definitions := by
  rw [remember]
  split <;> rfl

/-- An instance is a reference to its definition, unless it belongs to the library. -/
lemma convertForm_application {name : String} {target : TypeId} {arguments : List TypeId}
    {body : TypeId} (htypes : ∀ b type, Progresses host (e.type b type none))
    (hwell : s.options.isWellKnown name = false) {schema : Schema}
    (hrun : convertForm host e b id node (.application name target arguments body) s =
      (.ok schema, t)) :
    ∃ items key, schema = .reference name items key ∧
      t.definitions.Assigns (host.types.display id) target key := by
  replace hrun : convertApplication host e b id name target arguments body s = (.ok schema, t) :=
    hrun
  rw [Simulation.convertApplication_eq] at hrun
  obtain ⟨items, u, hitems, hrun⟩ := Run.bind_eq_ok.1 hrun
  have hmoves := (Progresses.mapM (fun a => htypes b a) arguments).moves hitems
  rw [Run.get_bind, hmoves.options_eq, hwell] at hrun
  obtain ⟨key, w, hkey, hrun⟩ := Run.bind_eq_ok.1 hrun
  cases hrun
  cases hkey
  refine ⟨items, _, rfl, ?_⟩
  rcases Registry.register_cases (rfl : u.definitions.register name (host.types.display id) target
    body = (_, _)) with ⟨heq, hold⟩ | ⟨-, -, hnew⟩
  · rwa [heq]
  · exact hnew

lemma progresses_convertCompound {form : TypeForm} (hid : host.types.get? id = some form)
    (htypes : ∀ b type, Progresses host (e.type b type none))
    (hform : Progresses host (convertForm host e (b.withType id) id node form)) :
    Progresses host (convertCompound host e b id node form) := by
  have hremember : ∀ {s t schema},
      convertForm host e (b.withType id) id node form s = (.ok schema, t) →
      t.Moves host (remember b id node s t schema) := by
    intro s t schema hrun
    rw [remember]
    split
    · refine ⟨rfl, .refl _, fun h => h, fun ht => ht.cache ?_⟩
      intro name target arguments body happlication hwell
      obtain rfl := Option.some.inj (hid.symm.trans happlication)
      rw [(hform.moves hrun).options_eq] at hwell
      exact convertForm_application htypes hwell hrun
    · exact .refl host t
  constructor
  · intro s o t hrun
    rcases convertCompound_cases hrun with
      ⟨schema, -, -, rfl⟩ | ⟨schema, u, hnew, -, rfl⟩ | ⟨stop, hstop, -⟩
    · exact .refl host t
    · exact (hform.moves hnew).trans (hremember hnew)
    · exact hform.moves hstop
  · intro s a t hrun
    rcases convertCompound_cases hrun with
      ⟨schema, -, -, rfl⟩ | ⟨schema, u, hnew, -, rfl⟩ | ⟨stop, -, hstop⟩
    · exact .refl _
    · rw [definitions_remember]
      exact hform.settles hnew
    · cases hstop

end Evaluation

/-- Going forward is a simulation that looks at the first computation only. -/
def Simulation.progress (host : Host) : Simulation host where
  Rel m _ := Eval.Progresses host m
  pure _ := .of_snd_eq fun _ => rfl
  bind := .bind
  throw _ := .of_snd_eq fun _ => rfl
  within := .within host.tree
  read h := .read fun s => h s s (.refl s)
  reject := .reject
  degrade _ := .degrade
  register := .registerInstance
  materialize id h := .materialize id h
  compound hid _ _ htypes hform :=
    Evaluation.progresses_convertCompound hid (fun b => htypes b trivial) (hform trivial)

lemma Simulation.related_progress (host : Host) (depth : Nat) (b : Branch) :
    (progress host).Related b (Evaluation.evaluator host depth) (Evaluation.evaluator host depth) :=
  related_evaluator _ (Nat.le_refl depth) trivial

namespace Context

variable (c : Context) (host : Host)

lemma progresses_convertBody (b : Branch) (body : TypeId) :
    Eval.Progresses host (Evaluation.convertBody (c.evaluator host) b body) :=
  (Simulation.related_progress host _ b).body body

lemma progresses_schemaOfEntry (entry : Entry) :
    Eval.Progresses host (c.schemaOfEntry host entry) :=
  (Simulation.progress host).rel_schemaOfEntry rfl (Nat.le_refl _) trivial trivial

lemma progresses_convertDefinition (id : String) :
    Eval.Progresses host (c.convertDefinition host id) :=
  (Simulation.progress host).rel_convertDefinition rfl (Nat.le_refl _) trivial id

lemma progresses_evaluate (entry : Entry) : Eval.Progresses host (c.evaluate host entry) :=
  (Simulation.progress host).rel_evaluate rfl (Nat.le_refl _) trivial trivial

end Context

end ValueSchema
