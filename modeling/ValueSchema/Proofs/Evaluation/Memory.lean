/-
# What is remembered of types

A type inside itself is an error, so the schema of a type depends on the types around it, but only
if the type leads back to one of them.  What an acyclic type is converted into is the same
everywhere, its `meaning`.  A session that has remembered acyclic types only is therefore as good as
a fresh one: every type is converted into what it is converted into alone,
`Context.convertType_after`.

The session tells the other types by the error in their schemas.  A union with `any` or `unknown`
does not show this error, and then the schema is remembered although it is right in one place only,
`Context.convertType_circles`.

The two conversions of a type that are compared run side by side, in sessions that remember the same
but for acyclic types.
-/
import ValueSchema.Proofs.Definition.Numbering
import ValueSchema.Proofs.Evaluation.Parts
import ValueSchema.Proofs.Evaluation.Relaxation
import ValueSchema.Proofs.Program.Table
import ValueSchema.Schema.Equality

namespace ValueSchema

/-! ## Instances under their texts -/

/-- Instances with the same text belong to the same generic type. -/
def Host.Unambiguous (host : Host) : Prop :=
  ∀ id id' name name' target target' arguments arguments' body body',
    host.types.get? id = some (.application name target arguments body) →
    host.types.get? id' = some (.application name' target' arguments' body') →
    host.types.display id = host.types.display id' → target = target'

/-- Every definition is an instance of a generic type under its text. -/
def Registry.Named (host : Host) (r : Registry) : Prop :=
  ∀ id d, r.get? id = some d → ∃ type name arguments body,
    host.types.get? type = some (.application name d.target arguments body) ∧
      host.types.display type = id

/-- Under unambiguous texts, an instance is registered under its text. -/
lemma Registry.register_of_named {host : Host} {r : Registry} (hhost : host.Unambiguous)
    (hr : r.Named host) {id : TypeId} {name : String} {target : TypeId} {arguments : List TypeId}
    {body : TypeId} (hid : host.types.get? id = some (.application name target arguments body)) :
    ∃ r', r.register name (host.types.display id) target body = (host.types.display id, r') ∧
      r'.Named host := by
  have hfind : r.findId (host.types.display id) target 1 (r.entries.length + 1) =
      host.types.display id := by
    rw [findId, numbered_one]
    refine if_pos (admits_eq_true_iff.2 ?_)
    rcases hget : r.get? (host.types.display id) with _ | d
    · exact Or.inl rfl
    · obtain ⟨type, name', arguments', body', htype, hdisplay⟩ := hr _ d hget
      exact Or.inr ⟨d, hget, hhost _ _ _ _ _ _ _ _ _ _ htype hid hdisplay⟩
  rw [register, hfind]
  split
  · exact ⟨r, rfl, hr⟩
  · refine ⟨_, rfl, fun other d hd => ?_⟩
    rw [get?_concat] at hd
    rcases hold : r.get? other with _ | d'
    · rw [hold, Option.none_or] at hd
      split at hd
      · obtain rfl := Option.some.inj hd
        exact ⟨id, name, arguments, body, hid, ‹_›⟩
      · cases hd
    · rw [hold] at hd
      obtain rfl := Option.some.inj hd
      exact hr other d' hold

namespace Evaluation

variable {host : Host} {options : Options} {α β : Type}

/-! ## Conversions have results -/

/-- A computation under the options always has a result, and counts in some way how often the depth
did not suffice. -/
def Completes (options : Options) (count : Nat → Nat → Prop) (m : Eval α) : Prop :=
  ∀ s, s.options = options →
    ∃ a t, m s = (.ok a, t) ∧ t.options = options ∧ count s.degraded t.degraded

namespace Completes

variable {count : Nat → Nat → Prop} {m : Eval α}

lemma pure (hrefl : ∀ n, count n n) (a : α) : Completes options count (Pure.pure a) :=
  fun s hs => ⟨a, s, rfl, hs, hrefl _⟩

lemma bind (htrans : ∀ k m n, count k m → count m n → count k n) {f : α → Eval β}
    (hm : Completes options count m) (hf : ∀ a, Completes options count (f a)) :
    Completes options count (m >>= f) := by
  intro s hs
  obtain ⟨a, t, ha, ht, hst⟩ := hm s hs
  obtain ⟨b, u, hb, hu, htu⟩ := hf a t ht
  exact ⟨b, u, by rw [Run.bind_of_ok ha, hb], hu, htrans _ _ _ hst htu⟩

lemma read {f : Options → Eval α} (h : Completes options count (f options)) :
    Completes options count (Eval.options >>= f) := by
  intro s hs
  have hread : (Eval.options >>= f) s = f options s := by
    rw [Eval.options_bind, Run.get_bind, hs]
  rw [hread]
  exact h s hs

lemma register (hrefl : ∀ n, count n n) (host : Host) (id : TypeId) (name : String)
    (target body : TypeId) : Completes options count (registerInstance host id name target body) :=
  fun _ hs => ⟨_, _, rfl, hs, hrefl _⟩

end Completes

/-- Having a result is a relation of the first computation alone. -/
def completing (host : Host) (options : Options) (count : Nat → Nat → Prop)
    (hrefl : ∀ n, count n n) (htrans : ∀ k m n, count k m → count m n → count k n) :
    TypeSimulation host options where
  Rel m _ := Completes options count m
  pure := .pure hrefl
  bind := .bind htrans
  read := .read
  register _ := .register hrefl host _ _ _ _

lemma completes_convertCompound {count : Nat → Nat → Prop} (hrefl : ∀ n, count n n) {e : Evaluator}
    {b : Branch} {id : TypeId} {form : TypeForm}
    (h : Completes options count (convertForm host e (b.withType id) id none form)) :
    Completes options count (convertCompound host e b id none form) := by
  intro s hs
  obtain ⟨schema, t, hrun, ht, hst⟩ := h s hs
  rw [convertCompound_apply]
  split
  · exact ⟨_, s, rfl, hs, hrefl _⟩
  · split
    · exact ⟨_, s, rfl, hs, hrefl _⟩
    · rw [hrun]
      exact ⟨schema, _, rfl, by rw [options_remember, ht], by rwa [degraded_remember]⟩

/-- A type is converted with a result, whatever is known. -/
lemma completes_convertType (hhost : host.LiteralFree) (depth : Nat) (b : Branch) (id : TypeId) :
    Completes options (· ≤ ·) (convertType host depth b id none) := by
  induction depth generalizing b id with
  | zero => exact fun s hs => ⟨_, _, rfl, hs, Nat.le_succ _⟩
  | succ depth ih =>
    rw [convertType_succ, convert]
    split
    · exact .pure Nat.le_refl _
    · exact .pure Nat.le_refl _
    · exact .pure Nat.le_refl _
    · rename_i form _ _ hid
      have hform : (completing host options (· ≤ ·) Nat.le_refl @Nat.le_trans).Rel
          (convertForm host (evaluator host depth) (b.withType id) id none form)
          (convertForm host (evaluator host depth) (b.withType id) id none form) :=
        TypeSimulation.rel_convertForm hhost hid host.bare_none fun part _ => ih _ part
      exact completes_convertCompound Nat.le_refl hform

/-- The depth suffices for a type whose parts come to an end within it. -/
lemma completes_of_endsWithin (hhost : host.LiteralFree) {depth : Nat} {id : TypeId}
    (h : endsWithin host options depth id = true) (b : Branch) :
    Completes options (· = ·) (convertType host depth b id none) := by
  induction depth generalizing b id with
  | zero => cases h
  | succ depth ih =>
    rw [convertType_succ, convert]
    split
    · exact .pure (fun _ => rfl) _
    · exact .pure (fun _ => rfl) _
    · exact .pure (fun _ => rfl) _
    · rename_i form _ _ hid
      rw [endsWithin, partsOf, hid, List.all_eq_true] at h
      have hform : (completing host options (· = ·) (fun _ => rfl) fun _ _ _ => Eq.trans).Rel
          (convertForm host (evaluator host depth) (b.withType id) id none form)
          (convertForm host (evaluator host depth) (b.withType id) id none form) :=
        TypeSimulation.rel_convertForm hhost hid host.bare_none fun part hpart => ih (h part hpart) _
      exact completes_convertCompound (fun _ => rfl) hform

/-! ## Schemas from schemas of parts -/

/-- An evaluator that knows the schemas of types. -/
def answering (f : TypeId → Schema) : Evaluator where
  node _ _ := pure .unknown
  type _ id _ := pure (f id)
  called _ _ := pure .unknown

/-- The schema of a type from given schemas of its parts. -/
def schemaFrom (host : Host) (options : Options) (f : TypeId → Schema) (id : TypeId) : Schema :=
  match host.types.get? id with
  | none => .unknown
  | some form =>
    match convertForm host (answering f) {} id none form { options } with
    | (.ok schema, _) => schema
    | (.error _, _) => .unknown

/-- A type has a schema at once, or a structure of its own. -/
lemma convert_cases (host : Host) (options : Options) (id : TypeId) :
    (∃ schema, (∀ e b, convert host e b id none = pure schema) ∧
      ∀ f, schemaFrom host options f id = schema) ∨
    ∃ form, host.types.get? id = some form ∧
      ∀ e b, convert host e b id none = convertCompound host e b id none form := by
  rcases hget : host.types.get? id with _ | form
  · refine Or.inl ⟨.unknown, fun e b => ?_, fun f => ?_⟩
    · rw [convert, hget]
    · rw [schemaFrom, hget]
  · cases form with
    | intrinsic kind =>
      refine Or.inl ⟨intrinsicSchema kind, fun e b => ?_, fun f => ?_⟩
      · rw [convert, hget]
      · rw [schemaFrom, hget]
        rfl
    | literal value =>
      refine Or.inl ⟨.literal value, fun e b => ?_, fun f => ?_⟩
      · rw [convert, hget]
      · rw [schemaFrom, hget]
        rfl
    | _ =>
      refine Or.inr ⟨_, rfl, fun e b => ?_⟩
      rw [convert, hget]

/-- Computations that do the same under the options. -/
def agreeing (host : Host) (options : Options) : TypeSimulation host options where
  Rel m m' := ∀ s, s.options = options → m s = m' s ∧ (m s).2.options = options
  pure _ _ hs := ⟨rfl, hs⟩
  bind := by
    intro α β m m' f f' hm hf s hs
    obtain ⟨hsame, hoptions⟩ := hm s hs
    rw [Run.bind_apply, Run.bind_apply, ← hsame]
    rcases hrun : m s with ⟨stop | a, t⟩
    · rw [hrun] at hoptions
      exact ⟨rfl, hoptions⟩
    · rw [hrun] at hoptions
      exact hf a t hoptions
  read := by
    intro α f f' hf s hs
    rw [Eval.options_bind, Eval.options_bind, Run.get_bind, Run.get_bind, hs]
    exact hf s hs
  register _ _ hs := ⟨rfl, hs⟩

/-- Nothing but the parts matters. -/
lemma schemaFrom_congr (hhost : host.LiteralFree) {f g : TypeId → Schema} {id : TypeId}
    (h : ∀ part ∈ partsOf host options id, f part = g part) :
    schemaFrom host options f id = schemaFrom host options g id := by
  rw [schemaFrom, schemaFrom]
  rcases hid : host.types.get? id with _ | form
  · rfl
  · rw [partsOf, hid] at h
    have hform : (agreeing host options).Rel (convertForm host (answering f) {} id none form)
        (convertForm host (answering g) {} id none form) := by
      refine TypeSimulation.rel_convertForm hhost hid host.bare_none
        fun part hpart s hs => ⟨?_, hs⟩
      show (Pure.pure (f part) : Eval Schema) s = (Pure.pure (g part) : Eval Schema) s
      rw [h part hpart]
    dsimp only
    rw [(hform { options } rfl).1]

/-- The schema of an acyclic type, from those of its parts. -/
noncomputable def acyclicSchema (host : Host) (options : Options) (id : TypeId)
    (h : Acyclic host options id) : Schema :=
  h.rec fun id _ schemaOf => schemaFrom host options
    (fun part => if hpart : part ∈ partsOf host options id then schemaOf part hpart else .unknown) id

open Classical in
/-- What an acyclic type stands for; nothing is said of other types. -/
noncomputable def meaning (host : Host) (options : Options) (id : TypeId) : Schema :=
  if h : Acyclic host options id then acyclicSchema host options id h else .unknown

lemma meaning_eq (hhost : host.LiteralFree) {id : TypeId} (h : Acyclic host options id) :
    meaning host options id = schemaFrom host options (meaning host options) id := by
  have hstep : acyclicSchema host options id h = schemaFrom host options
      (fun part => if hpart : part ∈ partsOf host options id then
        acyclicSchema host options part (h.part hpart) else .unknown) id := by
    cases h
    rfl
  rw [meaning, dif_pos h, hstep]
  refine schemaFrom_congr hhost fun part hpart => ?_
  rw [dif_pos hpart, meaning, dif_pos (h.part hpart)]

/-! ## Two sessions side by side -/

/-- A session with the options whose definitions stand under their texts. -/
structure Regular (host : Host) (options : Options) (s : Session) : Prop where
  options_eq : s.options = options
  named : s.definitions.Named host

/-- A relation between regular sessions that does not depend on the definitions. -/
structure Pairing (host : Host) (options : Options) where
  /-- The sessions belong together. -/
  Holds : Session → Session → Prop
  left : ∀ {s s'}, Holds s s' → Regular host options s
  right : ∀ {s s'}, Holds s s' → Regular host options s'
  register : ∀ {s s' r r'}, Holds s s' → r.Named host → r'.Named host →
    Holds { s with definitions := r } { s' with definitions := r' }

/-- Computations with results, which are equal if they start in sessions that belong together and if
the depth suffices for both; then the sessions after them belong together again. -/
structure Pairing.Agree (p : Pairing host options) (m m' : Eval α) : Prop where
  left : Completes options (· ≤ ·) m
  right : Completes options (· ≤ ·) m'
  same : ∀ {s s' a a' t t'}, p.Holds s s' → m s = (.ok a, t) → m' s' = (.ok a', t') →
    t.degraded = s.degraded → t'.degraded = s'.degraded → a = a' ∧ p.Holds t t'

/-- The counts of two steps that did not count together. -/
lemma Completes.split {m : Eval α} {f : α → Eval β} {s u : Session} {b : β}
    (hm : Completes options (· ≤ ·) m) (hf : ∀ a, Completes options (· ≤ ·) (f a))
    (hs : s.options = options) (hrun : (m >>= f) s = (.ok b, u)) (hsame : u.degraded = s.degraded) :
    ∃ a t, m s = (.ok a, t) ∧ t.degraded = s.degraded ∧ f a t = (.ok b, u) ∧
      u.degraded = t.degraded := by
  obtain ⟨a, t, ha, ht, hst⟩ := hm s hs
  obtain ⟨b', u', hb, -, htu⟩ := hf a t ht
  rw [Run.bind_of_ok ha, hb] at hrun
  cases hrun
  exact ⟨a, t, ha, by omega, hb, by omega⟩

lemma Pairing.Agree.bind {p : Pairing host options} {m m' : Eval α} {f f' : α → Eval β}
    (hm : p.Agree m m') (hf : ∀ a, p.Agree (f a) (f' a)) : p.Agree (m >>= f) (m' >>= f') where
  left := hm.left.bind @Nat.le_trans fun a => (hf a).left
  right := hm.right.bind @Nat.le_trans fun a => (hf a).right
  same := by
    intro s s' b b' u u' hs hrun hrun' hsame hsame'
    obtain ⟨a, t, ha, hst, hb, htu⟩ := hm.left.split (fun a => (hf a).left) (p.left hs).options_eq
      hrun hsame
    obtain ⟨a', t', ha', hst', hb', htu'⟩ := hm.right.split (fun a => (hf a).right)
      (p.right hs).options_eq hrun' hsame'
    obtain ⟨rfl, ht⟩ := hm.same hs ha ha' hst hst'
    exact (hf a).same ht hb hb' htu htu'

/-- Agreement is respected by conversions. -/
def Pairing.simulation (p : Pairing host options) (hhost : host.Unambiguous) :
    TypeSimulation host options where
  Rel := p.Agree
  pure a :=
    { left := .pure Nat.le_refl a
      right := .pure Nat.le_refl a
      same := by
        intro s s' b b' t t' hs hrun hrun' _ _
        cases hrun
        cases hrun'
        exact ⟨rfl, hs⟩ }
  bind := .bind
  read := by
    intro α f f' hf
    refine ⟨hf.left.read, hf.right.read, fun {s s' a a' t t'} hs hrun hrun' => ?_⟩
    rw [Eval.options_bind, Run.get_bind, (p.left hs).options_eq] at hrun
    rw [Eval.options_bind, Run.get_bind, (p.right hs).options_eq] at hrun'
    exact hf.same hs hrun hrun'
  register := by
    intro id name target arguments body hid
    refine ⟨.register Nat.le_refl host id name target body,
      .register Nat.le_refl host id name target body,
      fun {s s' a a' t t'} hs hrun hrun' _ _ => ?_⟩
    obtain ⟨r, hr, hnamed⟩ := Registry.register_of_named hhost (p.left hs).named hid
    obtain ⟨r', hr', hnamed'⟩ := Registry.register_of_named hhost (p.right hs).named hid
    have hstep : ∀ {u r}, u.definitions.register name (host.types.display id) target body =
        (host.types.display id, r) → registerInstance host id name target body u =
          (.ok (host.types.display id), { u with definitions := r }) := by
      intro u r hr
      rw [registerInstance, Run.get_bind, hr]
      rfl
    rw [hstep hr] at hrun
    rw [hstep hr'] at hrun'
    cases hrun
    cases hrun'
    exact ⟨rfl, p.register hs hnamed hnamed'⟩

/-! ## Acyclic types -/

lemma exists_run_answering (hhost : host.LiteralFree) (f : TypeId → Schema) {id : TypeId}
    {form : TypeForm} (hid : host.types.get? id = some form) :
    ∃ t, convertForm host (answering f) {} id none form { options } =
      (.ok (schemaFrom host options f id), t) ∧ t.degraded = 0 := by
  have hform : (completing host options (· = ·) (fun _ => rfl) fun _ _ _ => Eq.trans).Rel
      (convertForm host (answering f) {} id none form)
      (convertForm host (answering f) {} id none form) :=
    TypeSimulation.rel_convertForm hhost hid host.bare_none
      fun part _ => .pure (fun _ => rfl) (f part)
  obtain ⟨schema, t, hrun, -, hcount⟩ := hform { options } rfl
  refine ⟨t, ?_, hcount.symm⟩
  rw [schemaFrom, hid]
  dsimp only
  rw [hrun]

/-- A session remembers of acyclic types what they stand for. -/
structure Honest (host : Host) (options : Options) (s : Session) : Prop
    extends Regular host options s where
  remembered : ∀ id schema, Acyclic host options id → s.types.get? id = some schema →
    schema = meaning host options id

lemma regular_start : Regular host options { options } where
  options_eq := rfl
  named := by simp [Registry.Named, Registry.get?, Entries.get?]

lemma honest_start : Honest host options { options } where
  toRegular := regular_start
  remembered := by simp [Table.get?]

lemma get?_remember_of_ne {b : Branch} {id other : TypeId} {node : Option NodeId} {s t : Session}
    {schema : Schema} (h : id ≠ other) :
    (remember b id node s t schema).types.get? other = t.types.get? other := by
  rw [remember]
  split
  · exact Table.get?_put_of_ne _ h _
  · rfl

lemma Honest.remember {s t : Session} (h : Honest host options t) {b : Branch} {id : TypeId}
    {node : Option NodeId} {schema : Schema}
    (hschema : Acyclic host options id → schema = meaning host options id) :
    Honest host options (Evaluation.remember b id node s t schema) where
  options_eq := by rw [options_remember, h.options_eq]
  named := by
    rw [Evaluation.remember]
    split
    · exact h.named
    · exact h.named
  remembered := by
    intro other known hother hknown
    by_cases hid : id = other
    · subst hid
      rw [Evaluation.remember] at hknown
      split at hknown
      · rw [Table.get?_put_self] at hknown
        obtain rfl := Option.some.inj hknown
        exact hschema hother
      · exact h.remembered id known hother hknown
    · rw [get?_remember_of_ne hid] at hknown
      exact h.remembered other known hother hknown

/-- All types that a branch is inside of lead to a type. -/
def Above (host : Host) (options : Options) (b : Branch) (id : TypeId) : Prop :=
  ∀ type ∈ b.types, LeadsTo host options type id

lemma above_of_types_eq_nil {b : Branch} {id : TypeId} (h : b.types = []) :
    Above host options b id := by
  simp [Above, h]

lemma Above.part {b : Branch} {id part : TypeId} (h : Above host options b id)
    (hpart : part ∈ partsOf host options id) : Above host options (b.withType id) part := by
  intro type htype
  rcases List.mem_cons.1 htype with rfl | htype
  · exact .single hpart
  · exact (h type htype).tail hpart

/-- A branch does not come to an acyclic type again. -/
lemma Above.isHandlingType_eq_false {b : Branch} {id : TypeId} (h : Above host options b id)
    (hid : Acyclic host options id) : b.isHandlingType id = false := by
  rw [Branch.isHandlingType, Bool.eq_false_iff]
  intro hmem
  exact hid.not_leadsTo_self (h id (List.contains_iff_mem.1 hmem))

/-- An honest session that remembers given schemas of the types that are not acyclic; the second
session is of no account. -/
def recalling (host : Host) (options : Options) (known : TypeId → Option Schema) :
    Pairing host options where
  Holds s s' := (Honest host options s ∧
    ∀ id, ¬ Acyclic host options id → s.types.get? id = known id) ∧ Regular host options s'
  left h := h.1.1.toRegular
  right h := h.2
  register h hr hr' := ⟨⟨⟨⟨h.1.1.options_eq, hr⟩, h.1.1.remembered⟩, h.1.2⟩, ⟨h.2.options_eq, hr'⟩⟩

lemma isGeneral_of_bindings {b : Branch} (hb : b.bindings = []) : isGeneral b none = true := by
  simp [isGeneral, Branch.hasBindings, hb]

/-- Nothing is found out where no depth is left. -/
lemma Pairing.agree_degrade (p : Pairing host options) {m' : Eval Schema}
    (h : Completes options (· ≤ ·) m') : p.Agree Eval.degrade m' where
  left := fun s hs => ⟨.unknown, { s with degraded := s.degraded + 1 }, rfl, hs, Nat.le_succ _⟩
  right := h
  same := by
    intro s s' a a' t t' _ hrun _ hsame _
    cases hrun
    exact absurd hsame (Nat.succ_ne_self _)

/-- An acyclic type is what its structure says, also if that was found out before. -/
lemma agree_compound_meaning (hhost : host.LiteralFree) {known : TypeId → Option Schema}
    {e : Evaluator} {b : Branch} {id : TypeId} {form : TypeForm} (hb : b.bindings = [])
    (habove : Above host options b id) (hid : Acyclic host options id)
    (hget : host.types.get? id = some form)
    (hform : (recalling host options known).Agree (convertForm host e (b.withType id) id none form)
      (convertForm host (answering (meaning host options)) {} id none form)) :
    (recalling host options known).Agree (convertCompound host e b id none form)
      (pure (meaning host options id)) := by
  refine ⟨completes_convertCompound Nat.le_refl hform.left, .pure Nat.le_refl _, ?_⟩
  intro s s' a a' t t' hs hrun hrun' hsame _
  cases hrun'
  rw [convertCompound_apply, habove.isHandlingType_eq_false hid, isGeneral_of_bindings hb,
    if_pos rfl] at hrun
  rcases hknown : s.types.get? id with _ | schema
  · obtain ⟨schema, u, hrunForm, -, -⟩ := hform.left s hs.1.1.options_eq
    simp only [hknown, hrunForm] at hrun
    cases hrun
    rw [degraded_remember] at hsame
    obtain ⟨w, hanswer, hw⟩ := exists_run_answering hhost (meaning host options) hget
    obtain ⟨hschema, hu⟩ := hform.same ⟨hs.1, regular_start⟩ hrunForm hanswer hsame hw
    rw [← meaning_eq hhost hid] at hschema
    refine ⟨hschema, ⟨hu.1.1.remember fun _ => hschema, fun other hother => ?_⟩, hs.2⟩
    rw [get?_remember_of_ne (by rintro rfl; exact hother hid)]
    exact hu.1.2 other hother
  · simp only [hknown] at hrun
    cases hrun
    exact ⟨hs.1.1.remembered id _ hid hknown, hs⟩

/-- The structure of a type says what the type stands for, once its parts do. -/
lemma agree_form_meaning (hhost : host.LiteralFree) (hnames : host.Unambiguous)
    {known : TypeId → Option Schema} {e : Evaluator} {b : Branch} {id : TypeId} {form : TypeForm}
    (hget : host.types.get? id = some form)
    (hparts : ∀ part ∈ partsOf host options id, (recalling host options known).Agree
      (e.type b part none) (pure (meaning host options part))) :
    (recalling host options known).Agree (convertForm host e b id none form)
      (convertForm host (answering (meaning host options)) {} id none form) := by
  refine TypeSimulation.rel_convertForm (S := (recalling host options known).simulation hnames)
    hhost hget host.bare_none fun part hpart => hparts part ?_
  rwa [partsOf, hget]

/-- In an honest session, an acyclic type is converted into what it stands for.  The induction is on
the depth. -/
lemma agree_meaning (hhost : host.LiteralFree) (hnames : host.Unambiguous)
    (known : TypeId → Option Schema) (depth : Nat) {b : Branch} {id : TypeId}
    (hb : b.bindings = []) (habove : Above host options b id) (hid : Acyclic host options id) :
    (recalling host options known).Agree (convertType host depth b id none)
      (pure (meaning host options id)) := by
  induction depth generalizing b id with
  | zero => exact Pairing.agree_degrade _ (.pure Nat.le_refl _)
  | succ depth ih =>
    rw [convertType_succ]
    rcases convert_cases host options id with ⟨schema, hconvert, hfrom⟩ | ⟨form, hget, hconvert⟩
    · rw [hconvert, meaning_eq hhost hid, hfrom]
      exact ((recalling host options known).simulation hnames).pure schema
    · rw [hconvert]
      exact agree_compound_meaning hhost hb habove hid hget <|
        agree_form_meaning hhost hnames hget fun part hpart =>
          ih hb (habove.part hpart) (hid.part hpart)

/-- The same for a run: nothing else is learned than acyclic types. -/
lemma Honest.convertType (hhost : host.LiteralFree) (hnames : host.Unambiguous) {depth : Nat}
    {b : Branch} {id : TypeId} (hb : b.bindings = []) (habove : Above host options b id)
    (hid : Acyclic host options id) {s t : Session} {schema : Schema} (hs : Honest host options s)
    (hrun : Evaluation.convertType host depth b id none s = (.ok schema, t))
    (hsame : t.degraded = s.degraded) :
    schema = meaning host options id ∧ Honest host options t ∧
      ∀ other, ¬ Acyclic host options other → t.types.get? other = s.types.get? other := by
  have hagree := agree_meaning hhost hnames s.types.get? depth hb habove hid
  have hstart : (recalling host options s.types.get?).Holds s { options } :=
    ⟨⟨hs, fun _ _ => rfl⟩, regular_start⟩
  obtain ⟨hschema, ht⟩ := hagree.same hstart hrun rfl hsame rfl
  exact ⟨hschema, ht.1.1, ht.1.2⟩

/-- What is found for an acyclic type from its structure is what the type stands for. -/
lemma Honest.convertForm (hhost : host.LiteralFree) (hnames : host.Unambiguous) {depth : Nat}
    {b : Branch} {id : TypeId} {form : TypeForm} (hb : b.bindings = [])
    (habove : Above host options b id) (hid : Acyclic host options id)
    (hget : host.types.get? id = some form) {s t : Session} {schema : Schema}
    (hs : Honest host options s)
    (hrun : Evaluation.convertForm host (evaluator host depth) (b.withType id) id none form s =
      (.ok schema, t)) (hsame : t.degraded = s.degraded) :
    schema = meaning host options id := by
  have hagree := agree_form_meaning (e := evaluator host depth) hhost hnames hget
    fun part hpart => agree_meaning hhost hnames s.types.get? depth (b := b.withType id) hb
      (habove.part hpart) (hid.part hpart)
  obtain ⟨w, hanswer, hw⟩ := exists_run_answering hhost (meaning host options) hget
  rw [meaning_eq hhost hid]
  exact (hagree.same ⟨⟨hs, fun _ _ => rfl⟩, regular_start⟩ hrun hanswer hsame hw).1

/-! ## All types -/

/-- Honest sessions that remember the same of the types that are not acyclic. -/
def matching (host : Host) (options : Options) : Pairing host options where
  Holds s s' := Honest host options s ∧ Honest host options s' ∧
    ∀ id, ¬ Acyclic host options id → s.types.get? id = s'.types.get? id
  left h := h.1.toRegular
  right h := h.2.1.toRegular
  register h hr hr' := ⟨⟨⟨h.1.options_eq, hr⟩, h.1.remembered⟩,
    ⟨⟨h.2.1.options_eq, hr'⟩, h.2.1.remembered⟩, h.2.2⟩

/-- What is remembered of a type after conversions that did not count. -/
lemma get?_remember_self {b : Branch} (hb : b.bindings = []) {id : TypeId} {s t : Session}
    {schema : Schema} (hsame : t.degraded = s.degraded) :
    (remember b id none s t schema).types.get? id =
      if schema.containsError then t.types.get? id else some schema := by
  rw [remember, isGeneral_of_bindings hb, hsame, beq_self_eq_true]
  cases schema.containsError with
  | true => rfl
  | false => exact Table.get?_put_self ..

/-- A type that is not acyclic is cut off, known, or converted anew on both sides. -/
lemma agree_compound {e e' : Evaluator} {b b' : Branch} {id : TypeId} {form : TypeForm}
    (hb : b.bindings = []) (hb' : b'.bindings = []) (htypes : b'.types = b.types)
    (hid : ¬ Acyclic host options id)
    (hform : (matching host options).Agree (convertForm host e (b.withType id) id none form)
      (convertForm host e' (b'.withType id) id none form)) :
    (matching host options).Agree (convertCompound host e b id none form)
      (convertCompound host e' b' id none form) := by
  refine ⟨completes_convertCompound Nat.le_refl hform.left,
    completes_convertCompound Nat.le_refl hform.right, ?_⟩
  intro s s' a a' t t' hs hrun hrun' hsame hsame'
  obtain ⟨hhonest, hhonest', hmemory⟩ := hs
  have hhandling : b'.isHandlingType id = b.isHandlingType id := by
    rw [Branch.isHandlingType, Branch.isHandlingType, htypes]
  rw [convertCompound_apply, isGeneral_of_bindings hb, if_pos rfl] at hrun
  rw [convertCompound_apply, isGeneral_of_bindings hb', if_pos rfl, hhandling,
    ← hmemory id hid] at hrun'
  split at hrun
  · rw [if_pos ‹_›] at hrun'
    cases hrun
    cases hrun'
    exact ⟨rfl, hhonest, hhonest', hmemory⟩
  · rw [if_neg ‹_›] at hrun'
    rcases hknown : s.types.get? id with _ | schema
    · obtain ⟨schema, u, hrunForm, -, -⟩ := hform.left s hhonest.options_eq
      obtain ⟨schema', u', hrunForm', -, -⟩ := hform.right s' hhonest'.options_eq
      simp only [hknown, hrunForm] at hrun
      simp only [hknown, hrunForm'] at hrun'
      cases hrun
      cases hrun'
      rw [degraded_remember] at hsame hsame'
      obtain ⟨rfl, hu, hu', hmemory'⟩ :=
        hform.same ⟨hhonest, hhonest', hmemory⟩ hrunForm hrunForm' hsame hsame'
      refine ⟨rfl, hu.remember fun h => absurd h hid, hu'.remember fun h => absurd h hid,
        fun other hother => ?_⟩
      by_cases hself : id = other
      · subst hself
        rw [get?_remember_self hb hsame, get?_remember_self hb' hsame', hmemory' id hid]
      · rw [get?_remember_of_ne hself, get?_remember_of_ne hself]
        exact hmemory' other hother
    · simp only [hknown] at hrun hrun'
      cases hrun
      cases hrun'
      exact ⟨rfl, hhonest, hhonest', hmemory⟩

/-- Sessions that remember the same of types that are not acyclic give the same schemas.  The
induction is on the depth of the first conversion. -/
lemma agree_convertType (hhost : host.LiteralFree) (hnames : host.Unambiguous) (depth depth' : Nat)
    {b b' : Branch} {id : TypeId} (hb : b.bindings = []) (hb' : b'.bindings = [])
    (htypes : b'.types = b.types) (habove : Above host options b id) :
    (matching host options).Agree (convertType host depth b id none)
      (convertType host depth' b' id none) := by
  have habove' : Above host options b' id := fun type htype => habove type (htypes ▸ htype)
  induction depth generalizing depth' b b' id with
  | zero => exact Pairing.agree_degrade _ (completes_convertType hhost _ _ _)
  | succ depth ih =>
    refine ⟨completes_convertType hhost _ _ _, completes_convertType hhost _ _ _, ?_⟩
    intro s s' a a' t t' hs hrun hrun' hsame hsame'
    by_cases hid : Acyclic host options id
    · -- both conversions give what the type stands for
      obtain ⟨rfl, ht, hkept⟩ := hs.1.convertType hhost hnames hb habove hid hrun hsame
      obtain ⟨rfl, ht', hkept'⟩ := hs.2.1.convertType hhost hnames hb' habove' hid hrun' hsame'
      refine ⟨rfl, ht, ht', fun other hother => ?_⟩
      rw [hkept other hother, hkept' other hother]
      exact hs.2.2 other hother
    · cases depth' with
      | zero =>
        cases hrun'
        exact absurd hsame' (Nat.succ_ne_self _)
      | succ depth' =>
        rw [convertType_succ] at hrun hrun'
        rcases convert_cases host options id with ⟨schema, hconvert, -⟩ | ⟨form, hget, hconvert⟩
        · rw [hconvert] at hrun hrun'
          cases hrun
          cases hrun'
          exact ⟨rfl, hs⟩
        · rw [hconvert] at hrun hrun'
          refine (agree_compound hb hb' htypes hid ?_).same hs hrun hrun' hsame hsame'
          refine TypeSimulation.rel_convertForm (S := (matching host options).simulation hnames)
            hhost hget host.bare_none fun part hpart => ?_
          have hpart : part ∈ partsOf host options id := by rwa [partsOf, hget]
          exact ih depth' hb hb' (by rw [Branch.withType, Branch.withType, htypes])
            (habove.part hpart) (habove'.part hpart)

end Evaluation

/-! ## One type after another -/

/-- No type is an instance of a generic type, and no object type comes from an object literal. -/
structure Host.PlainTypes (host : Host) : Prop where
  noInstance : ∀ id name target arguments body,
    host.types.get? id ≠ some (.application name target arguments body)
  literalFree : host.LiteralFree

/-- Whether a structure is neither that of an instance nor that of an object literal. -/
def TypeForm.isPlain : TypeForm → Bool
  | .application .. => false
  | .object type => type.literal.isNone
  | _ => true

lemma Host.plainTypes_of_all {host : Host} (h : host.types.types.toList.all TypeForm.isPlain = true) :
    host.PlainTypes := by
  have hform : ∀ {id form}, host.types.get? id = some form → form.isPlain = true := by
    intro id form hid
    exact List.all_eq_true.1 h form (Array.mem_toList_iff.2 (Array.mem_of_getElem? hid))
  constructor
  · intro id name target arguments body hid
    cases hform hid
  · intro id type hid
    exact Option.isNone_iff_eq_none.1 (hform hid)

lemma Host.PlainTypes.unambiguous {host : Host} (h : host.PlainTypes) : host.Unambiguous :=
  fun _ _ _ _ _ _ _ _ _ _ hid => absurd hid (h.noInstance _ _ _ _ _)

namespace Context

open Evaluation

variable {host : Host} {options : Options}

/-- A type is converted after another one into what it is converted into alone, if the depth
suffices and the session has remembered acyclic types only: those whose schema does not depend on
where they are met. -/
theorem convertType_after (hhost : host.PlainTypes) {first second : TypeId} {s t u : Session}
    {o o' o'' : Except Stop Schema}
    (hfirst : (start options).convertType host first none { options } = (o, s))
    (hs : s.degraded = 0)
    (hmemory : ∀ id schema, s.types.get? id = some schema → Acyclic host options id)
    (hafter : (start options).convertType host second none s = (o', t)) (ht : t.degraded = 0)
    (halone : (start options).convertType host second none { options } = (o'', u))
    (hu : u.degraded = 0) :
    ∃ schema, o' = .ok schema ∧ o'' = .ok schema := by
  have hagree : ∀ id, (matching host options).Agree ((start options).convertType host id none)
      ((start options).convertType host id none) := fun id =>
    agree_convertType hhost.literalFree hhost.unambiguous _ _ rfl rfl rfl
      (above_of_types_eq_nil rfl)
  have hstart : (matching host options).Holds { options } { options } :=
    ⟨honest_start, honest_start, fun _ _ => rfl⟩
  obtain ⟨schema, s', hrun, -, -⟩ := (hagree first).left { options } rfl
  obtain ⟨rfl, rfl⟩ := Prod.mk.inj (hfirst.symm.trans hrun)
  obtain ⟨-, hhonest, -⟩ := (hagree first).same hstart hfirst hfirst hs hs
  -- nothing but acyclic types tells the two sessions apart
  have hpair : (matching host options).Holds s { options } := by
    refine ⟨hhonest, honest_start, fun id hid => ?_⟩
    rcases hknown : s.types.get? id with _ | known
    · rfl
    · exact absurd (hmemory id known hknown) hid
  obtain ⟨after, t', hrun, -, -⟩ := (hagree second).left s hhonest.options_eq
  obtain ⟨rfl, rfl⟩ := Prod.mk.inj (hafter.symm.trans hrun)
  obtain ⟨alone, u', hrun, -, -⟩ := (hagree second).left { options } rfl
  obtain ⟨rfl, rfl⟩ := Prod.mk.inj (halone.symm.trans hrun)
  obtain ⟨rfl, -⟩ := (hagree second).same hpair hafter halone (by rw [ht, hs]) hu
  exact ⟨after, rfl, rfl⟩

/-- The types `T = unknown | A` and `A = any | T`, an object type `P`, an object type `Loop` with
itself and `P` as properties, and one with `Loop` and `P`. -/
def circles : Tables where
  types := [TypeForm.union [Intrinsic.unknown.id, ⟨13⟩], .union [Intrinsic.any.id, ⟨12⟩],
    .object { properties := [⟨"name", Intrinsic.string.id, Intrinsic.string.id, false, none⟩] },
    .object { properties := [⟨"self", ⟨15⟩, ⟨15⟩, false, none⟩, ⟨"owner", ⟨14⟩, ⟨14⟩, false, none⟩] },
    .object { properties := [⟨"loop", ⟨15⟩, ⟨15⟩, false, none⟩, ⟨"owner", ⟨14⟩, ⟨14⟩, false, none⟩] }
    ].foldl (fun types form => (types.add form).2) {}

/-- After `Loop`, of which only `P` is remembered, the type with both is converted as it is alone.
After `A`, the type `T` is not: while `A` was being converted, `T` was cut off at `A`, and the union
with `unknown` did not show it. -/
theorem convertType_circles :
    (∃ schema o s t u,
      (start {}).convertType circles.host ⟨15⟩ none { options := {} } = (o, s) ∧
      s.types.map Prod.fst = [⟨14⟩] ∧
      (start {}).convertType circles.host ⟨16⟩ none s = (.ok schema, t) ∧
      (start {}).convertType circles.host ⟨16⟩ none { options := {} } = (.ok schema, u)) ∧
    ∃ o s t u, (start {}).convertType circles.host ⟨13⟩ none { options := {} } = (o, s) ∧
      (start {}).convertType circles.host ⟨12⟩ none s = (.ok .unknown, t) ∧ t.degraded = 0 ∧
      (start {}).convertType circles.host ⟨12⟩ none { options := {} } = (.ok .any, u) ∧
      u.degraded = 0 ∧ Schema.equal .unknown .any = false := by
  constructor
  · obtain ⟨o, s, o', t, o'', u, hfirst, hs, hnames, hafter, ht, halone, hu⟩ : ∃ o s o' t o'' u,
        (start {}).convertType circles.host ⟨15⟩ none { options := {} } = (o, s) ∧
        s.degraded = 0 ∧ s.types.map Prod.fst = [⟨14⟩] ∧
        (start {}).convertType circles.host ⟨16⟩ none s = (o', t) ∧ t.degraded = 0 ∧
        (start {}).convertType circles.host ⟨16⟩ none { options := {} } = (o'', u) ∧
        u.degraded = 0 :=
      ⟨_, _, _, _, _, _, rfl, by decide +kernel, by decide +kernel, rfl, by decide +kernel, rfl,
        by decide +kernel⟩
    have hacyclic : Acyclic circles.host {} ⟨14⟩ := acyclic_of_endsWithin 2 (by decide +kernel)
    have hmemory : ∀ id schema, s.types.get? id = some schema → Acyclic circles.host {} id := by
      intro id schema hknown
      have hmem : id ∈ s.types.map Prod.fst := List.mem_map_of_mem (Table.mem_of_get? hknown)
      rw [hnames, List.mem_singleton] at hmem
      exact hmem ▸ hacyclic
    obtain ⟨schema, rfl, rfl⟩ := convertType_after (Host.plainTypes_of_all (by decide +kernel))
      hfirst hs hmemory hafter ht halone hu
    exact ⟨schema, o, s, t, u, hfirst, hnames, hafter, halone⟩
  · exact ⟨_, _, _, _, rfl, rfl, by decide +kernel, rfl, by decide +kernel, by decide +kernel⟩

end Context

end ValueSchema
