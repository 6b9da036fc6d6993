/-
# How many shapes a spread makes

A spread of a union makes a copy of all shapes for each member, unless that would be more than
`maxShapes` copies.  The product is looked at once for each union, with the shapes that there are
when the union is met.  A member that is itself a union, in an intersection or behind a reference,
is looked at for its own copy of the shapes, and what becomes of all copies is never counted.

So the number of shapes depends on how deep unions lie in each other.  If they lie at most `k` deep
(`Schema.Forks`), a shape becomes at most `maxShapes ^ k` of them, in one spread as well as in a
whole object literal or element, and for each `k` there is a schema with which it becomes as many:
`length_spreadInto`.  The number stays within `maxShapes` as long as no union lies in another one.
-/
import Mathlib.Algebra.Group.Nat.Defs
import ValueSchema.Program.Basic
import ValueSchema.Proofs.Evaluation.Progress

namespace ValueSchema

/-! ## The depth of the forks -/

/-- Whether a schema is spread without a look at what it is composed of. -/
def Schema.isSpreadWhole : Schema → Bool
  | union _ | intersection _ | reference .. => false
  | _ => true

/-- Unions lie at most `k` deep in each other, also in intersections and behind references to the
given definitions.  A definition that is a reference itself is not followed. -/
inductive Schema.Forks (definitions : Registry) : Nat → Schema → Prop
  | union {k : Nat} {items : List Schema} (h : ∀ s ∈ items, Forks definitions k s) :
    Forks definitions (k + 1) (.union items)
  | intersection {k : Nat} {items : List Schema} (h : ∀ s ∈ items, Forks definitions k s) :
    Forks definitions k (.intersection items)
  | reference {k : Nat} {name id : String} {arguments : List Schema}
    (h : ∀ body, definitions.ready? id = some body → body.reference? = none →
      Forks definitions k body) : Forks definitions k (.reference name arguments id)
  | whole {k : Nat} {s : Schema} (h : s.isSpreadWhole = true) : Forks definitions k s

namespace Evaluation

/-- The number of shapes that `n` shapes may become where unions lie at most `k` deep. -/
def shapeBound (k n : Nat) : Nat := if n = 0 then 0 else max n (maxShapes ^ k)

section

variable {k m n : Nat}

lemma le_shapeBound (k n : Nat) : n ≤ shapeBound k n := by
  rw [shapeBound]
  split <;> omega

lemma shapeBound_mono (h : m ≤ n) : shapeBound k m ≤ shapeBound k n := by
  simp only [shapeBound]
  split <;> split <;> omega

/-- Shapes that have become as many as they may do not become more. -/
lemma shapeBound_shapeBound (k n : Nat) : shapeBound k (shapeBound k n) = shapeBound k n := by
  simp only [shapeBound]
  split
  · simp
  · rw [if_neg (by omega), Nat.max_assoc, Nat.max_self]

/-- Where a union is within the cap, each of its members may make a fork of its own. -/
lemma mul_shapeBound_le (h : n * m ≤ maxShapes) : m * shapeBound k n ≤ shapeBound (k + 1) n := by
  simp only [shapeBound]
  split
  · simp
  · rename_i hn
    have hpos : 0 < n := Nat.pos_of_ne_zero hn
    have hm : m ≤ maxShapes := Nat.le_trans (Nat.le_mul_of_pos_left m hpos) h
    have hone : 1 ≤ maxShapes ^ k := Nat.one_le_pow _ _ (by decide)
    have hpow : m * maxShapes ^ k ≤ maxShapes ^ (k + 1) := by
      rw [Nat.pow_succ']
      exact Nat.mul_le_mul_right _ hm
    have hcap : m * n ≤ maxShapes ^ (k + 1) := by
      calc m * n ≤ maxShapes := by rwa [Nat.mul_comm]
        _ ≤ maxShapes * maxShapes ^ k := Nat.le_mul_of_pos_right _ hone
        _ = maxShapes ^ (k + 1) := Nat.pow_succ'.symm
    rw [← Nat.mul_max_mul_left]
    exact Nat.le_trans (Nat.max_le.2 ⟨hcap, hpow⟩) (Nat.le_max_right ..)

end

/-! ## Computations and where they lead -/

/-- What a computation results in, in every run from which a given session is still reached. -/
def Ensures (host : Host) (last : Session) {α : Type} (m : Eval α) (P : α → Prop) : Prop :=
  ∀ s a t, m s = (.ok a, t) → t.Moves host last → P a

section

variable {host : Host} {last : Session} {α β : Type} {m : Eval α} {f : α → Eval β} {P P' : α → Prop}
  {Q : β → Prop}

lemma Ensures.pure {a : α} (h : P a) : Ensures host last (Pure.pure a) P := by
  intro s b t hrun _
  cases hrun
  exact h

lemma Ensures.bind (hm : Ensures host last m P) (hf : ∀ a, Eval.Progresses host (f a))
    (hQ : ∀ a, P a → Ensures host last (f a) Q) : Ensures host last (m >>= f) Q := by
  intro s b u hrun hlast
  obtain ⟨a, t, ha, hb⟩ := Run.bind_eq_ok.1 hrun
  have ht : t.Moves host last := ((hf a).moves hb).trans hlast
  exact hQ a (hm s a t ha ht) t b u hb hlast

lemma Ensures.imp (hm : Ensures host last m P) (h : ∀ a, P a → P' a) : Ensures host last m P' :=
  fun s a t hrun hlast => h a (hm s a t hrun hlast)

lemma ensures_true (m : Eval α) : Ensures host last m fun _ => True := fun _ _ _ _ _ => trivial

end

/-! ## Spreads -/

section

variable {host : Host} {last : Session} {k : Nat}
  {f : Schema → List ObjectShape → Eval (List ObjectShape)} {items : List Schema}
  {shapes : List ObjectShape}
  (hf : ∀ r shapes, Eval.Progresses host (f r shapes))

/-- A computation of shapes that makes at most as many of a number of shapes as it may. -/
def Bounded (host : Host) (last : Session) (k : Nat) (shapes : List ObjectShape)
    (m : Eval (List ObjectShape)) : Prop :=
  Ensures host last m fun result => result.length ≤ shapeBound k shapes.length

lemma bounded_map (g : ObjectShape → ObjectShape) :
    Bounded host last k shapes (return shapes.map g) :=
  .pure (by rw [List.length_map]; exact le_shapeBound ..)

/-- Steps one after the other make at most as many shapes as one of them may. -/
lemma bounded_foldlM {α : Type} {step : List ObjectShape → α → Eval (List ObjectShape)}
    {nodes : List α} (hstep : ∀ shapes n, Eval.Progresses host (step shapes n))
    (h : ∀ n ∈ nodes, ∀ shapes, Bounded host last k shapes (step shapes n)) :
    Bounded host last k shapes (nodes.foldlM step shapes) := by
  induction nodes generalizing shapes with
  | nil => exact .pure (le_shapeBound ..)
  | cons n rest ih =>
    obtain ⟨hn, hrest⟩ := List.forall_mem_cons.1 h
    have hprogress (next : List ObjectShape) : Eval.Progresses host (rest.foldlM step next) :=
      show (Simulation.progress host).Rel (rest.foldlM step next) (rest.foldlM step next) from
        Simulation.foldlM hstep next
    rw [List.foldlM_cons]
    refine (hn shapes).bind hprogress fun next hnext => (ih hrest).imp fun result hresult => ?_
    calc result.length ≤ shapeBound k next.length := hresult
      _ ≤ shapeBound k (shapeBound k shapes.length) := shapeBound_mono hnext
      _ = shapeBound k shapes.length := shapeBound_shapeBound ..

lemma spreadInTurn_eq_foldlM (f : Schema → List ObjectShape → Eval (List ObjectShape))
    (items : List Schema) (shapes : List ObjectShape) :
    spreadInTurn f items shapes = items.foldlM (fun shapes s => spreadWith f s shapes) shapes := by
  induction items generalizing shapes with
  | nil => rfl
  | cons s rest ih =>
    rw [spreadInTurn, List.foldlM_cons]
    exact bind_congr fun next => ih next

include hf

lemma progresses_spreadWith (source : Schema) (shapes : List ObjectShape) :
    Eval.Progresses host (spreadWith f source shapes) :=
  show (Simulation.progress host).Rel (spreadWith f source shapes) (spreadWith f source shapes) from
    Simulation.rel_spreadWith hf source shapes

lemma progresses_spreadEach (items : List Schema) (shapes : List ObjectShape) :
    Eval.Progresses host (spreadEach f items shapes) :=
  show (Simulation.progress host).Rel (spreadEach f items shapes) (spreadEach f items shapes) from
    Simulation.rel_spreadEach fun r _ => progresses_spreadWith hf r shapes

/-- The copies that the members of a union make come one after the other. -/
lemma ensures_spreadEach {n : Nat}
    (h : ∀ s ∈ items, Ensures host last (spreadWith f s shapes) fun result => result.length ≤ n) :
    Ensures host last (spreadEach f items shapes) fun result =>
      result.length ≤ items.length * n := by
  induction items with
  | nil => exact .pure (Nat.zero_le _)
  | cons s rest ih =>
    obtain ⟨hs, hrest⟩ := List.forall_mem_cons.1 h
    have hprogress := progresses_spreadEach hf rest shapes
    rw [spreadEach]
    refine hs.bind (fun _ => hprogress.bind fun _ => .of_snd_eq fun _ => rfl) fun first hfirst => ?_
    refine (ih hrest).bind (fun _ => .of_snd_eq fun _ => rfl) fun more hmore => .pure ?_
    rw [List.length_append, List.length_cons, Nat.succ_mul]
    omega

/-- Each member of an intersection starts with what the earlier ones have made. -/
lemma bounded_spreadInTurn
    (h : ∀ s ∈ items, ∀ shapes, Bounded host last k shapes (spreadWith f s shapes)) :
    Bounded host last k shapes (spreadInTurn f items shapes) := by
  rw [spreadInTurn_eq_foldlM]
  exact bounded_foldlM (fun shapes s => progresses_spreadWith hf s shapes) h

/-- A spread makes at most as many shapes as it may if the references do. -/
lemma bounded_spreadWith {source : Schema} (hsource : source.Forks last.definitions k)
    (h : ∀ k name arguments id shapes,
      (Schema.reference name arguments id).Forks last.definitions k →
      Bounded host last k shapes (f (.reference name arguments id) shapes)) :
    Bounded host last k shapes (spreadWith f source shapes) := by
  induction hsource generalizing shapes with
  | union _ ih =>
    rw [spreadWith]
    split
    · exact bounded_map _
    · rename_i hcap
      refine (ensures_spreadEach hf fun s hs => ih s hs).imp fun result hresult => ?_
      exact Nat.le_trans hresult (mul_shapeBound_le (Nat.le_of_not_lt hcap))
  | intersection _ ih =>
    rw [spreadWith]
    exact bounded_spreadInTurn hf fun s hs shapes => ih s hs
  | reference hbody _ =>
    rw [spreadWith]
    exact h _ _ _ _ _ (.reference hbody)
  | @whole k s hs =>
    cases s with
    | union | intersection | reference => cases hs
    | _ => exact bounded_map _

end

/-! ## References -/

section

variable {host : Host} {last : Session} {k depth : Nat} {b : Branch} {source : Schema}
  {shapes : List ObjectShape}

lemma progresses_resolve (s : Schema) :
    Eval.Progresses host (resolve (evaluator host depth) b s) :=
  Simulation.rel_resolve (Simulation.related_progress host depth b) s

lemma progresses_convertBody (body : TypeId) :
    Eval.Progresses host (convertBody (evaluator host depth) b body) :=
  (Simulation.related_progress host depth b).body body

/-- A reference leads to itself, to anything, or to a body that is stored from then on. -/
lemma resolve_cases {name id : String} {arguments : List Schema} {s t : Session} {r : Schema}
    (h : resolve (evaluator host depth) b (.reference name arguments id) s = (.ok r, t)) :
    r = .reference name arguments id ∨ r = .unknown ∨ t.definitions.ready? id = some r := by
  rw [resolve, resolveReference, Run.get_bind] at h
  split at h
  · obtain ⟨o, u, ho, hpure⟩ := Run.bind_eq_ok.1 h
    cases hpure
    rcases materialize_cases ho with ⟨-, hready, rfl⟩ |
      ⟨body, definitions, hclaim, ⟨schema, u, hbody, hschema, rfl⟩ | ⟨stop, -, hstop⟩⟩
    · cases hready
      rcases hready : t.definitions.ready? id with _ | schema
      · exact Or.inl rfl
      · exact Or.inr (Or.inr rfl)
    · cases hschema
      have hadvances := ((progresses_convertBody body).moves hbody).advances
      exact Or.inr (Or.inr (Registry.ready?_complete_self hclaim hadvances schema))
    · cases hstop
  · split at h
    · cases h
      exact Or.inr (Or.inl rfl)
    · cases h

/-- What a reference leads to forks no deeper than the reference. -/
lemma ensures_resolve {name id : String} {arguments : List Schema}
    (h : (Schema.reference name arguments id).Forks last.definitions k) :
    Ensures host last (resolve (evaluator host depth) b (.reference name arguments id))
      fun r => r.reference? = none → r.Forks last.definitions k := by
  intro s r t hrun hlast hr
  rcases resolve_cases hrun with rfl | rfl | hready
  · cases hr
  · exact .whole rfl
  · cases h with
    | reference hbody => exact hbody r (hlast.ready? hready) hr
    | whole hwhole => cases hwhole

lemma progresses_spreadWithin (fuel : Nat) (source : Schema) (shapes : List ObjectShape) :
    Eval.Progresses host (spreadWithin (resolve (evaluator host depth) b) fuel source shapes) :=
  Simulation.rel_spreadWithin (Simulation.related_progress host depth b) fuel source shapes

lemma bounded_spreadWithin (fuel : Nat) (h : source.Forks last.definitions k) :
    Bounded host last k shapes
      (spreadWithin (resolve (evaluator host depth) b) fuel source shapes) := by
  induction fuel generalizing k source shapes with
  | zero =>
    intro s result t hrun
    cases hrun
  | succ fuel ih =>
    rw [spreadWithin]
    refine bounded_spreadWith (fun r shapes => ?_) h fun k name arguments id shapes h => ?_
    · refine (progresses_resolve r).bind fun resolved => ?_
      split
      · exact .of_snd_eq fun _ => rfl
      · exact progresses_spreadWithin fuel resolved shapes
    · refine (ensures_resolve h).bind (fun resolved => ?_) fun resolved hresolved => ?_
      · split
        · exact .of_snd_eq fun _ => rfl
        · exact progresses_spreadWithin fuel resolved shapes
      · cases resolved with
        | reference => exact bounded_map _
        | _ => exact ih (hresolved rfl)

lemma bounded_spreadInto (h : source.Forks last.definitions k) :
    Bounded host last k shapes (spreadInto host (evaluator host depth) b source shapes) :=
  (ensures_true _).bind (fun fuel => progresses_spreadWithin fuel source shapes) fun fuel _ =>
    bounded_spreadWithin fuel h

/-! ## Object literals and elements -/

/-- The expressions that members spread lead to schemas that fork at most `k` deep. -/
def SpreadsWithin (host : Host) (last : Session) (k : Nat) (e : Evaluator) (b : Branch)
    (spread? : Form → Option NodeId) (nodes : List NodeId) : Prop :=
  ∀ n ∈ nodes, ∀ expression, (host.tree.form? n).bind spread? = some expression →
    Ensures host last (e.node b expression) (·.Forks last.definitions k)

/-- The expression that a member of an object literal spreads. -/
def spreadOfMember? : Form → Option NodeId
  | .spreadAssignment expression => some expression
  | _ => none

/-- The expression that an attribute of an element spreads. -/
def spreadOfAttribute? : Form → Option NodeId
  | .jsxSpreadAttribute expression => some expression
  | _ => none

lemma progresses_spreadInto (source : Schema) (shapes : List ObjectShape) :
    Eval.Progresses host (spreadInto host (evaluator host depth) b source shapes) :=
  Simulation.rel_spreadInto (Simulation.related_progress host depth b) source shapes

/-- An expression is evaluated before it is spread. -/
lemma bounded_spreadExpression {expression : NodeId}
    (h : Ensures host last ((evaluator host depth).node b expression)
      (·.Forks last.definitions k)) :
    Bounded host last k shapes (do
      spreadInto host (evaluator host depth) b
        (← (evaluator host depth).node b expression) shapes) :=
  h.bind (fun source => progresses_spreadInto source shapes) fun _ => bounded_spreadInto

/-- Only spreads make more shapes. -/
lemma bounded_addMember {member : NodeId}
    (h : ∀ expression, (host.tree.form? member).bind spreadOfMember? = some expression →
      Ensures host last ((evaluator host depth).node b expression) (·.Forks last.definitions k)) :
    Bounded host last k shapes (addMember host (evaluator host depth) b shapes member) := by
  have hrelated := Simulation.related_progress host depth b
  have hkeys (name : NodeId) :
      Eval.Progresses host (propertyKeys host (evaluator host depth) b name) :=
    Simulation.rel_propertyKeys hrelated name
  have hmapped (keys : PropertyKeys) (value : Schema) :
      Eval.Progresses host (return shapes.map (keys.setIn value)) := .of_snd_eq fun _ => rfl
  rw [addMember]
  split
  · refine (ensures_true _).bind (fun value => (hkeys _).bind fun keys => hmapped keys value) ?_
    exact fun value _ =>
      (ensures_true _).bind (fun keys => hmapped keys value) fun keys _ => bounded_map _
  · exact (ensures_true _).bind (fun _ => .of_snd_eq fun _ => rfl) fun _ _ => bounded_map _
  · refine (ensures_true _).bind (fun value => ?_) fun value _ => ?_
    · split
      · exact (hkeys _).bind fun keys => hmapped keys value
      · exact .of_snd_eq fun _ => rfl
    · split
      · exact (ensures_true _).bind (fun keys => hmapped keys value) fun keys _ => bounded_map _
      · exact .pure (le_shapeBound ..)
  · rename_i expression hform
    exact bounded_spreadExpression (h expression (by rw [hform]; rfl))
  · exact .pure (le_shapeBound ..)

lemma bounded_addAttribute {item : NodeId}
    (h : ∀ expression, (host.tree.form? item).bind spreadOfAttribute? = some expression →
      Ensures host last ((evaluator host depth).node b expression) (·.Forks last.definitions k)) :
    Bounded host last k shapes (addAttribute host (evaluator host depth) b shapes item) := by
  rw [addAttribute]
  split
  · exact (ensures_true _).bind (fun _ => .of_snd_eq fun _ => rfl) fun _ _ => bounded_map _
  · rename_i expression hform
    exact bounded_spreadExpression (h expression (by rw [hform]; rfl))
  · exact .pure (le_shapeBound ..)

lemma bounded_members {members : List NodeId}
    (h : SpreadsWithin host last k (evaluator host depth) b spreadOfMember? members) :
    Bounded host last k shapes
      (members.foldlM (addMember host (evaluator host depth) b) shapes) := by
  have hrelated := Simulation.related_progress host depth b
  exact bounded_foldlM (fun shapes n => Simulation.rel_addMember hrelated shapes n)
    fun n hn shapes => bounded_addMember (h n hn)

lemma bounded_attributes {attributes : List NodeId}
    (h : SpreadsWithin host last k (evaluator host depth) b spreadOfAttribute? attributes) :
    Bounded host last k shapes
      (attributes.foldlM (addAttribute host (evaluator host depth) b) shapes) := by
  have hrelated := Simulation.related_progress host depth b
  exact bounded_foldlM (fun shapes n => Simulation.rel_addAttribute hrelated shapes n)
    fun n hn shapes => bounded_addAttribute (h n hn)

end

/-! ## As many shapes as there may be -/

/-- A union of as many members as one shape may be copied for, each of them such a union again. -/
def nested : Nat → Schema
  | 0 => .objectOf []
  | k + 1 => .union (List.replicate maxShapes (nested k))

lemma forks_nested (definitions : Registry) (k : Nat) : (nested k).Forks definitions k := by
  induction k with
  | zero => exact .whole rfl
  | succ k ih => exact .union fun s hs => (List.eq_of_mem_replicate hs) ▸ ih

lemma spreadEach_replicate {f : Schema → List ObjectShape → Eval (List ObjectShape)}
    {source : Schema} {shapes result : List ObjectShape}
    (h : spreadWith f source shapes = return result) (n : Nat) :
    spreadEach f (List.replicate n source) shapes = return (List.replicate n result).flatten := by
  induction n with
  | zero => rfl
  | succ n ih =>
    rw [List.replicate_succ, spreadEach, h, ih]
    rfl

lemma spreadWith_nested (f : Schema → List ObjectShape → Eval (List ObjectShape)) (o : ObjectShape)
    (k : Nat) : ∃ result, spreadWith f (nested k) [o] = pure result ∧
      result.length = maxShapes ^ k := by
  induction k with
  | zero => exact ⟨_, rfl, rfl⟩
  | succ k ih =>
    obtain ⟨result, hresult, hlength⟩ := ih
    refine ⟨(List.replicate maxShapes result).flatten, ?_, ?_⟩
    · rw [nested, spreadWith, if_neg (by simp), spreadEach_replicate hresult]
    · simp [hlength, Nat.pow_succ']

/-- A spread that meets no reference needs nothing from the session. -/
lemma exists_spreadInto {source : Schema} {shapes : List ObjectShape}
    {P : List ObjectShape → Prop}
    (h : ∀ f, ∃ result, spreadWith f source shapes = pure result ∧ P result) (host : Host)
    (e : Evaluator) (b : Branch) (s : Session) :
    ∃ result, spreadInto host e b source shapes s = (.ok result, s) ∧ P result := by
  have hfuel : unfoldings host s =
      (.ok (66 * (s.definitions.entries.length + host.types.size + 1) + 65 + 1), s) := rfl
  obtain ⟨result, hresult, hP⟩ := h _
  refine ⟨result, ?_, hP⟩
  rw [spreadInto, Run.bind_of_ok hfuel, spreadWithin, hresult]
  rfl

/-- A spread of a schema in which unions lie at most `k` deep makes at most `maxShapes ^ k` shapes,
or leaves as many as there are.  So does an object literal and an element, as far as it has come, if
this holds of all that is spread in it.  No smaller bound holds for all schemas, and shapes within
the cap stay within it in general only if no union lies in another one. -/
theorem length_spreadInto (host : Host) (depth : Nat) (b : Branch) (k : Nat) :
    let e := evaluator host depth
    (∀ source shapes s result t, spreadInto host e b source shapes s = (.ok result, t) →
      source.Forks t.definitions k → result.length ≤ max shapes.length (maxShapes ^ k)) ∧
    (∀ members s result t, members.foldlM (addMember host e b) [{}] s = (.ok result, t) →
      SpreadsWithin host t k e b spreadOfMember? members → result.length ≤ maxShapes ^ k) ∧
    (∀ attributes s result t, attributes.foldlM (addAttribute host e b) [{}] s = (.ok result, t) →
      SpreadsWithin host t k e b spreadOfAttribute? attributes → result.length ≤ maxShapes ^ k) ∧
    (∀ s, ∃ result, spreadInto host e b (nested k) [{}] s = (.ok result, s) ∧
      result.length = maxShapes ^ k ∧ (nested k).Forks s.definitions k) ∧
    ((∀ source shapes s result t, spreadInto host e b source shapes s = (.ok result, t) →
      source.Forks t.definitions k → shapes.length ≤ maxShapes → result.length ≤ maxShapes) ↔
        k ≤ 1) := by
  intro e
  have hbound (n : Nat) : shapeBound k n ≤ max n (maxShapes ^ k) := by
    rw [shapeBound]
    split <;> omega
  have hone : max 1 (maxShapes ^ k) = maxShapes ^ k :=
    Nat.max_eq_right (Nat.one_le_pow _ _ (by decide))
  have hspread : ∀ source shapes s result t, spreadInto host e b source shapes s = (.ok result, t) →
      source.Forks t.definitions k → result.length ≤ max shapes.length (maxShapes ^ k) :=
    fun source shapes s result t hrun h =>
      Nat.le_trans (bounded_spreadInto h s result t hrun (.refl host t)) (hbound _)
  have hnested : ∀ s, ∃ result, spreadInto host e b (nested k) [{}] s = (.ok result, s) ∧
      result.length = maxShapes ^ k ∧ (nested k).Forks s.definitions k := by
    intro s
    obtain ⟨result, hrun, hlength⟩ :=
      exists_spreadInto (fun f => spreadWith_nested f {} k) host e b s
    exact ⟨result, hrun, hlength, forks_nested _ k⟩
  refine ⟨hspread, fun members s result t hrun h => ?_, fun attributes s result t hrun h => ?_,
    hnested, fun h => ?_, fun hk source shapes s result t hrun h hshapes => ?_⟩
  · have hmembers := bounded_members h s result t hrun (.refl host t)
    exact hone ▸ Nat.le_trans hmembers (hbound 1)
  · have hattributes := bounded_attributes h s result t hrun (.refl host t)
    exact hone ▸ Nat.le_trans hattributes (hbound 1)
  · obtain ⟨result, hrun, hlength, hforks⟩ := hnested {}
    have hle := h _ _ _ _ _ hrun hforks (by decide)
    rw [hlength] at hle
    by_contra hk
    have hlt : maxShapes ^ 1 < maxShapes ^ k := Nat.pow_lt_pow_right (by decide) (by omega)
    rw [Nat.pow_one] at hlt
    omega
  · have hpow : maxShapes ^ k ≤ maxShapes ^ 1 := Nat.pow_le_pow_right (by decide) hk
    have hle := hspread source shapes s result t hrun h
    rw [Nat.pow_one] at hpow
    omega

/-- Eight objects with one property. -/
def eight (name : String) : Schema :=
  .union ((List.range 8).map fun i => .objectOf [(name, .string (toString i))])

/-- Eight times eight objects in one member of a union, and one more object. -/
def crowded : Schema :=
  .union [.intersection [eight "p", eight "q"], .objectOf [("z", .plain .string)]]

/-- The types of eight objects with one property, where `first` is the first free type. -/
def eightTypes (name : String) (first : Nat) : List TypeForm :=
  (List.range 8).flatMap fun i =>
    [.literal (.string (toString i)),
      .object { properties := [⟨name, ⟨first + 2 * i⟩, ⟨first + 2 * i⟩, false, none⟩] }]

/-- `function f(x: (P & Q) | { z: string }) { return { ...x } }`, where `P` and `Q` are unions of
eight objects. -/
def crowd : Draft :=
  let forms : List Form :=
    [.identifier "x", .parameter ⟨0⟩ none false, .identifier "x", .spreadAssignment ⟨2⟩,
      .objectLiteral [⟨3⟩], .returnStatement (some ⟨4⟩), .identifier "f", .block [⟨5⟩],
      .functionDeclaration ⟨some ⟨6⟩, [⟨1⟩], some ⟨7⟩, false, false⟩, .sourceFile "main.ts" [⟨8⟩]]
  let types : List TypeForm := eightTypes "p" 12 ++ eightTypes "q" 28 ++
    [.union ((List.range 8).map fun i => ⟨13 + 2 * i⟩),
      .union ((List.range 8).map fun i => ⟨29 + 2 * i⟩), .intersection [⟨44⟩, ⟨45⟩],
      .object { properties := [⟨"z", Intrinsic.string.id, Intrinsic.string.id, false, none⟩] },
      .union [⟨46⟩, ⟨47⟩]]
  let d := types.foldl (fun d type => (d.addType type).2)
    (forms.foldl (fun d form => (d.add form).2) ({} : Draft))
  { d with nodeTypes := d.nodeTypes.put ⟨1⟩ ⟨48⟩ }

lemma forks_crowded (definitions : Registry) : crowded.Forks definitions 2 := by
  have height (name : String) : (eight name).Forks definitions 1 := by
    refine .union fun s hs => ?_
    obtain ⟨i, -, rfl⟩ := List.mem_map.1 hs
    exact .whole rfl
  refine .union fun s hs => ?_
  rcases List.mem_pair.1 hs with rfl | rfl
  · refine .intersection fun s hs => ?_
    rcases List.mem_pair.1 hs with rfl | rfl
    · exact height "p"
    · exact height "q"
  · exact .whole rfl

set_option maxRecDepth 4000 in
/-- The spread makes one shape more than the cap allows, and so does the object literal. -/
theorem length_spreadInto_crowd :
    let e := evaluator crowd.finish.host 20
    Run.passes (e.node {} ⟨2⟩) {} (fun r _ => r.equal crowded) = true ∧
    (∀ s, ∃ result, spreadInto crowd.finish.host e {} crowded [{}] s = (.ok result, s) ∧
      result.length = maxShapes + 1 ∧ result.length ≤ maxShapes ^ 2) ∧
    Run.passes (e.node {} ⟨4⟩) {} (fun r _ => r.alternatives.length == maxShapes + 1) = true := by
  intro e
  refine ⟨by decide +kernel, fun s => ?_, by decide +kernel⟩
  have hspread : ∀ f, ∃ result, spreadWith f crowded [{}] = pure result ∧
      result.length = maxShapes + 1 := fun _ => ⟨_, rfl, rfl⟩
  obtain ⟨result, hrun, hlength⟩ := exists_spreadInto hspread crowd.finish.host e {} s
  obtain ⟨hbound, -⟩ := length_spreadInto crowd.finish.host 20 {} 2
  exact ⟨result, hrun, hlength, hbound _ _ _ _ _ hrun (forks_crowded _)⟩

end Evaluation

end ValueSchema
