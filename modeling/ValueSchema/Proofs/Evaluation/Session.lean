/-
# Sessions that know what their schemas refer to

A session is closed if it knows every definition that its schemas refer to: those in its memory and
in the bodies of definitions.  What it remembers of types is what types can have.  Evaluations keep
sessions closed, never change the options, and count upwards how often the depth did not suffice:
this is the contract `Contract.closed`.

In a closed session an evaluation stops for few reasons only.  It is not permissive and has come to
a node of a kind that has no schema, or to a name without a declaration; a reference without a
definition cannot be met.
-/
import ValueSchema.Proofs.Definition.Registry
import ValueSchema.Proofs.Evaluation.Preservation

namespace ValueSchema

namespace Session

/-- A reference is known to a session if it names a type of the library or a definition. -/
def Known (s : Session) (name id : String) : Prop :=
  s.options.isWellKnown name = true ∨ id ∈ Entries.names s.definitions.entries

/-- A session knows everything that its schemas refer to. -/
structure Closed (options : Options) (s : Session) : Prop where
  options_eq : s.options = options
  cached : ∀ type schema, s.types.get? type = some schema →
    schema.Within (.ofReferences s.Known) ∧ schema.Typelike
  ready : ∀ id schema, s.definitions.ready? id = some schema →
    schema.Within (.ofReferences s.Known)

/-- A later session has the same options and all definitions, and the depth did not suffice at least
as often. -/
structure Extends (s t : Session) : Prop where
  options_eq : t.options = s.options
  degraded_le : s.degraded ≤ t.degraded
  names_subset : Entries.names s.definitions.entries ⊆ Entries.names t.definitions.entries

lemma Extends.known {s t : Session} (h : s.Extends t) {name id : String} (hk : s.Known name id) :
    t.Known name id := by
  rcases hk with hwell | hmem
  · exact Or.inl (by rw [h.options_eq, hwell])
  · exact Or.inr (h.names_subset hmem)

lemma Extends.within {s t : Session} (h : s.Extends t) {schema : Schema}
    (hs : schema.Within (.ofReferences s.Known)) : schema.Within (.ofReferences t.Known) :=
  hs.mono (fun _ _ hk => h.known hk) (fun _ _ => trivial) fun _ _ => trivial

lemma Extends.refl (s : Session) : s.Extends s := ⟨rfl, Nat.le_refl _, fun _ h => h⟩

lemma Extends.trans {s t u : Session} (hst : s.Extends t) (htu : t.Extends u) : s.Extends u :=
  ⟨htu.options_eq.trans hst.options_eq, Nat.le_trans hst.degraded_le htu.degraded_le,
    fun _ h => htu.names_subset (hst.names_subset h)⟩

variable {options : Options} {s : Session}

/-- A session stays closed if it is extended and what is new in it is known. -/
lemma Closed.extend {t : Session} (h : s.Closed options) (hst : s.Extends t)
    (hcached : ∀ type schema, t.types.get? type = some schema →
      s.types.get? type = some schema ∨ schema.Within (.ofReferences t.Known) ∧ schema.Typelike)
    (hready : ∀ id schema, t.definitions.ready? id = some schema →
      s.definitions.ready? id = some schema ∨ schema.Within (.ofReferences t.Known)) :
    t.Closed options where
  options_eq := hst.options_eq.trans h.options_eq
  cached := by
    intro type schema hget
    rcases hcached type schema hget with hold | hnew
    · obtain ⟨hwithin, htype⟩ := h.cached type schema hold
      exact ⟨hst.within hwithin, htype⟩
    · exact hnew
  ready := by
    intro id schema hget
    rcases hready id schema hget with hold | hnew
    · exact hst.within (h.ready id schema hold)
    · exact hnew

lemma closed_start (options : Options) : ({ options } : Session).Closed options where
  options_eq := rfl
  cached := by simp [Table.get?]
  ready := by simp [Registry.ready?, Registry.get?, Entries.get?]

end Session

/-- How an evaluation of a host may stop: it goes on for ever, it fails at a node of a kind that has
no schema and is not permissive, or the host has names without declarations. -/
def Stop.Expected (host : Host) (options : Options) (stop : Stop) : Prop :=
  stop = .diverged ∨
  (options.permissive = false ∧ ∃ n form, host.tree.form? n = some form ∧
    form.isRejected = true ∧
    stop = .failed ⟨.unsupportedNode form.kindName, some (host.tree.location n, form.kindName)⟩) ∨
  ∃ n resolved, host.resolve n = some resolved ∧ host.tree.form? resolved.declaration = none

/-- The contract of sessions that know what their schemas refer to. -/
def Contract.closed (host : Host) (options : Options) : Contract host where
  Inv := Session.Closed options
  Ext := Session.Extends
  Known := Session.Known
  Err := Stop.Expected host options
  ext_refl := Session.Extends.refl
  ext_trans hst htu := hst.trans htu
  known_ext hst hk := hst.known hk
  known_wellKnown _ hwell := Or.inl hwell
  degrade := by
    intro s hs
    have hext : s.Extends { s with degraded := s.degraded + 1 } :=
      ⟨rfl, Nat.le_succ _, fun _ h => h⟩
    exact ⟨hs.extend hext (fun _ _ h => Or.inl h) fun _ _ h => Or.inl h, hext⟩
  cached hs hget := hs.cached _ _ hget
  cache := by
    intro s type schema hs hschema htype
    have hext : s.Extends { s with types := s.types.put type schema } :=
      ⟨rfl, Nat.le_refl _, fun _ h => h⟩
    refine ⟨hs.extend hext (fun other r hget => ?_) fun _ _ h => Or.inl h, hext⟩
    rw [Table.put, Table.get?] at hget
    split at hget
    · obtain rfl := Option.some.inj hget
      exact Or.inr ⟨hext.within hschema, htype⟩
    · exact Or.inl hget
  register := by
    intro s name display target body hs
    have hext : s.Extends { s with
        definitions := (s.definitions.register name display target body).2 } :=
      ⟨rfl, Nat.le_refl _, s.definitions.names_register_subset name display target body⟩
    refine ⟨hs.extend hext (fun _ _ h => Or.inl h) fun id schema hget => Or.inl ?_, hext,
      Or.inr (s.definitions.mem_names_register name display target body)⟩
    rwa [s.definitions.ready?_register] at hget
  ready hs hget := hs.ready _ _ hget
  claim := by
    intro s id body definitions hs hbegin
    obtain rfl := Registry.begin?_eq_some hbegin
    have hext : s.Extends { s with definitions := s.definitions.setState id .resolving } :=
      ⟨rfl, Nat.le_refl _, by rw [Registry.names_setState]; exact fun _ h => h⟩
    exact hs.extend hext (fun _ _ h => Or.inl h) fun _ _ h =>
      Or.inl (Registry.ready?_of_setState_resolving h)
  complete := by
    intro s t id body definitions schema hs hbegin ht hext hschema
    obtain rfl := Registry.begin?_eq_some hbegin
    have hlast : t.Extends { t with definitions := t.definitions.complete id schema } :=
      ⟨rfl, Nat.le_refl _, by rw [Registry.complete, Registry.names_setState]; exact fun _ h => h⟩
    have hfirst : s.Extends t := ⟨hext.options_eq, hext.degraded_le,
      fun _ h => hext.names_subset (by rwa [Registry.names_setState])⟩
    refine ⟨ht.extend hlast (fun _ _ h => Or.inl h) fun other r hget => ?_, ?_, hlast⟩
    · rcases Registry.ready?_of_complete hget with ⟨-, rfl⟩ | hold
      · exact Or.inr (hlast.within hschema)
      · exact Or.inl hold
    · exact hfirst.trans hlast
  err_diverged := Or.inl rfl
  err_rejected := by
    intro s n form hs hstrict hform hrejected
    exact Or.inr (Or.inl ⟨hs.options_eq ▸ hstrict, n, form, hform, hrejected, rfl⟩)
  err_missing hresolved hnone := Or.inr (Or.inr ⟨_, _, hresolved, hnone⟩)
  err_undefined := by
    intro s name id _ hknown hmissing hunknown
    rcases hknown with hwell | hmem
    · rw [hwell] at hunknown
      cases hunknown
    · exact absurd hmem (Entries.contains_eq_false_iff.1 hmissing)
  err_context := by
    rintro stop location subject (rfl | ⟨hstrict, n, form, hform, hrejected, rfl⟩ | hmissing)
    · exact Or.inl rfl
    · exact Or.inr (Or.inl ⟨hstrict, n, form, hform, hrejected, rfl⟩)
    · exact Or.inr (Or.inr hmissing)

end ValueSchema
