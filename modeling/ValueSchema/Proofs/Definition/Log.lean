/-
# The log of a registry

A registry is used by three calls: instances are registered, definitions are claimed for conversion,
and bodies are stored.  They may come in any order and for any id.  The log of some calls says what
each of them came to; a claim may be refused, and a body for an id that is not registered is lost.

The log tells everything about the registry: which ids there are and in which order, what each is an
instance of, which ids are claimed, which wait, and which have got a body.  `Registry.Records` is the
invariant that each call keeps.  What holds after all calls together, starting from an empty registry,
is `Registry.Accords`.
-/
import ValueSchema.Proofs.Definition.Lifecycle
import ValueSchema.Proofs.Definition.Reachability

namespace ValueSchema.Registry

/-- A call to a registry. -/
inductive Call where
  /-- Registers an instance of a generic type. -/
  | register (name display : String) (target body : TypeId)
  /-- Claims a definition for conversion. -/
  | begin (id : String)
  /-- Stores the body of a definition. -/
  | complete (id : String) (schema : Schema)

/-- What a call came to. -/
inductive Event where
  /-- An instance has the given id. -/
  | registered (name display : String) (target body : TypeId) (id : String)
  /-- A definition was claimed, and the type of its body was given. -/
  | begun (id : String) (body : TypeId)
  /-- There was nothing to claim. -/
  | refused (id : String)
  /-- A definition has got its body. -/
  | completed (id : String) (schema : Schema)
  /-- There was no definition to store a body for. -/
  | lost (id : String) (schema : Schema)

/-- Carries out a call. -/
def perform (r : Registry) : Call → Event × Registry
  | .register name display target body =>
    let (id, r') := r.register name display target body
    (.registered name display target body id, r')
  | .begin id =>
    match r.begin? id with
    | some (body, r') => (.begun id body, r')
    | none => (.refused id, r)
  | .complete id schema =>
    (if Entries.contains id r.entries then .completed id schema else .lost id schema,
      r.complete id schema)

/-- Carries out some calls, one after the other, and logs what they came to. -/
def run (r : Registry) : List Call → List Event × Registry
  | [] => ([], r)
  | call :: rest =>
    let (event, r') := r.perform call
    let (log, r'') := r'.run rest
    (event :: log, r'')

/-! ## Reading a log -/

section

variable (log : List Event) (id : String)

/-- The ids of all registrations. -/
def givenIds : List String :=
  log.filterMap fun
    | .registered _ _ _ _ i => some i
    | _ => none

/-- The ids that were registered, in the order of their first registrations. -/
def registeredIds : List String := (givenIds log).eraseDups

/-- The types of bodies that an id was registered with, first to last. -/
def registeredBodies : List TypeId :=
  log.filterMap fun
    | .registered _ _ _ body i => if i = id then some body else none
    | _ => none

/-- The types of bodies that were given out for an id, first to last. -/
def claimedBodies : List TypeId :=
  log.filterMap fun
    | .begun i body => if i = id then some body else none
    | _ => none

/-- The ids whose definitions have got a body. -/
def completedIds : List String :=
  log.filterMap fun
    | .completed i _ => some i
    | _ => none

/-- The bodies that a definition has got, first to last. -/
def storedBodies : List Schema :=
  log.filterMap fun
    | .completed i schema => if i = id then some schema else none
    | _ => none

end

/-- The ids, names and targets of all definitions, in order. -/
def outline (r : Registry) : List (String × String × TypeId) :=
  r.entries.map fun e => (e.1, e.2.name, e.2.target)

/-- The search for an id, as long as it takes: it goes from number to number until an id is free or
belongs to the same generic type. -/
inductive Finds (r : Registry) (display : String) (target : TypeId) : Nat → String → Prop
  | found {n : Nat} (h : r.admits target (numbered display n) = true) :
      Finds r display target n (numbered display n)
  | next {n : Nat} {id : String} (h : r.admits target (numbered display n) = false)
      (rest : Finds r display target (n + 1) id) : Finds r display target n id

/-- What a log says about the registry, and what is true of it whatever is called. -/
structure Accords (log : List Event) (r : Registry) : Prop where
  /-- The search for the id of an instance ends with the id that registering gives. -/
  finds : ∀ name display target body,
    r.Finds display target 1 (r.register name display target body).1
  /-- An id that was given to an instance has a definition for its generic type. -/
  owns : ∀ {name display target body id}, .registered name display target body id ∈ log →
    r.Owns target id
  /-- The same instance always has the same id. -/
  same_id : ∀ {name name' display target body body' id id'},
    .registered name display target body id ∈ log →
    .registered name' display target body' id' ∈ log → id = id'
  /-- Instances of different generic types never share an id. -/
  different_id : ∀ {name name' display display' target target' body body' id id'},
    .registered name display target body id ∈ log →
    .registered name' display' target' body' id' ∈ log → target ≠ target' → id ≠ id'
  /-- Further calls add definitions at the end, and leave the places, names and targets of all
  others as they are. -/
  outline_isPrefix : ∀ calls, r.outline <+: (r.run calls).2.outline
  /-- No definition is claimed twice. -/
  claimed_once : ∀ id, (claimedBodies log id).length ≤ 1
  /-- A claim gives the body that the id was first registered with. -/
  claimed_body : ∀ id, ∀ body ∈ claimedBodies log id,
    (registeredBodies log id).head? = some body
  /-- The definitions that wait are those that were registered, but neither claimed nor given a
  body. -/
  pending_eq : r.pending = (registeredIds log).filter fun id =>
    (claimedBodies log id).isEmpty && !(completedIds log).contains id
  /-- A definition that waits can be claimed.  This gives the body that its id was first registered
  with, and takes the definition, and no other, off those that wait. -/
  begin?_of_waiting : ∀ id ∈ r.pending, ∃ body r', r.begin? id = some (body, r') ∧
    (registeredBodies log id).head? = some body ∧ r'.pending = r.pending.filter (· ≠ id)
  /-- A definition that does not wait cannot be claimed. -/
  begin?_of_not_waiting : ∀ id ∉ r.pending, r.begin? id = none
  /-- A claim was refused only if the definition did not wait at that time: it was not registered
  yet, or claimed before, or it had got a body. -/
  refused_only : ∀ front id back, log = front ++ .refused id :: back →
    id ∉ registeredIds front ∨ claimedBodies front id ≠ [] ∨ id ∈ completedIds front
  /-- A definition is ready once it has got a body, with the last one that it has got. -/
  ready?_eq : ∀ id, r.ready? id = (storedBodies log id).getLast?

/-! ## The search for an id -/

variable {r r' : Registry} {log : List Event} {event : Event} {id : String}

/-- A search goes past the ids that are taken. -/
lemma Finds.of_taken {display : String} {target : TypeId} (n past : Nat)
    (hadmits : r.admits target (numbered display (n + past)) = true)
    (htaken : ∀ m, n ≤ m → m < n + past → r.Taken target (numbered display m)) :
    r.Finds display target n (numbered display (n + past)) := by
  induction past generalizing n with
  | zero => exact .found hadmits
  | succ past ih =>
    rw [Nat.add_succ, ← Nat.succ_add] at hadmits htaken ⊢
    refine .next (admits_eq_false_iff.2 (htaken n (Nat.le_refl n) (by omega))) ?_
    exact ih (n + 1) hadmits fun m hle => htaken m (by omega)

lemma finds_register (r : Registry) (name display : String) (target body : TypeId) :
    r.Finds display target 1 (r.register name display target body).1 := by
  have hfst : (r.register name display target body).1 =
      r.findId display target 1 (r.entries.length + 1) := by
    rw [register]
    split <;> rfl
  rcases findId_spec r display target 1 (r.entries.length + 1) with
    ⟨k, hk, hfind, hadmits, htaken⟩ | hall
  · obtain ⟨past, rfl⟩ := Nat.exists_eq_add_of_le hk
    rw [hfst, hfind]
    exact .of_taken 1 past hadmits htaken
  · exact absurd hall (not_all_taken r display target)

/-! ## One call -/

/-- What an event does to a registry, and when it happens. -/
inductive Step (r : Registry) : Event → Registry → Prop
  | known {name display : String} {target body : TypeId} {id : String}
      (hid : r.Assigns display target id) : Step r (.registered name display target body id) r
  | added {name display : String} {target body : TypeId} {id : String} (hfree : r.get? id = none)
      (hid : (⟨r.entries ++ [(id, ⟨name, target, .pending body⟩)]⟩ : Registry).Assigns
        display target id) :
      Step r (.registered name display target body id)
        ⟨r.entries ++ [(id, ⟨name, target, .pending body⟩)]⟩
  | begun {id : String} {body : TypeId} {d : Definition} (hd : r.get? id = some d)
      (hstate : d.state = .pending body) : Step r (.begun id body) (r.setState id .resolving)
  | refused (id : String) : Step r (.refused id) r
  | completed {id : String} (hid : id ∈ Entries.names r.entries) (schema : Schema) :
      Step r (.completed id schema) (r.setState id (.ready schema))
  | lost (id : String) (schema : Schema) : Step r (.lost id schema) r

lemma setState_of_notMem (h : id ∉ Entries.names r.entries) (state : Definition.State) :
    r.setState id state = r := by
  have hmap : (r.entries.map fun e => if e.1 = id then (e.1, { e.2 with state }) else e) =
      r.entries := by
    refine (List.map_congr_left fun e he => if_neg ?_).trans (List.map_id' _)
    rintro rfl
    exact h (Entries.mem_names_of_mem he)
  rw [setState, hmap]

lemma step_perform (r : Registry) (call : Call) :
    r.Step (r.perform call).1 (r.perform call).2 := by
  cases call with
  | register name display target body =>
    obtain ⟨id, r', h⟩ : ∃ id r', r.register name display target body = (id, r') := ⟨_, _, rfl⟩
    rw [perform, h]
    rcases register_cases h with ⟨rfl, hid⟩ | ⟨hfree, rfl, hid⟩
    · exact .known hid
    · exact .added hfree hid
  | begin id =>
    rw [perform]
    split
    · rename_i body r' hclaim
      obtain ⟨⟨d, hd, hstate⟩, rfl⟩ := begin?_cases hclaim
      exact .begun hd hstate
    · exact .refused id
  | complete id schema =>
    rw [perform, complete]
    split
    · exact .completed (Entries.contains_eq_true_iff.1 ‹_›) schema
    · rename_i hnot
      rw [setState_of_notMem fun hin => hnot (Entries.contains_eq_true_iff.2 hin)]
      exact .lost id schema

/-! ## Names, targets and places -/

lemma outline_setState (r : Registry) (id : String) (state : Definition.State) :
    (r.setState id state).outline = r.outline := by
  simp only [outline, setState, List.map_map]
  refine List.map_congr_left fun e _ => ?_
  simp only [Function.comp_apply]
  split_ifs <;> rfl

lemma Step.outline_isPrefix (h : r.Step event r') : r.outline <+: r'.outline := by
  cases h with
  | known | refused | lost => exact List.prefix_rfl
  | added =>
    rw [outline, outline, List.map_append]
    exact List.prefix_append _ _
  | begun | completed => exact outline_setState r _ _ ▸ List.prefix_rfl

lemma outline_isPrefix_run (r : Registry) (calls : List Call) :
    r.outline <+: (r.run calls).2.outline := by
  induction calls generalizing r with
  | nil => exact List.prefix_rfl
  | cons call rest ih => exact (step_perform r call).outline_isPrefix.trans (ih _)

lemma Step.keepsTargets (h : r.Step event r') : r.KeepsTargets r' := by
  cases h with
  | known | refused | lost => exact fun _ d hd => ⟨d, hd, rfl⟩
  | added => exact fun other d hd => ⟨d, by rw [get?_concat, hd]; rfl, rfl⟩
  | begun | completed => exact keepsTargets_setState r _ _

/-! ## The invariant -/

/-- A registry is as its log says. -/
structure Records (log : List Event) (r : Registry) : Prop where
  /-- The ids are those that were registered. -/
  names_eq : Entries.names r.entries = registeredIds log
  /-- Every instance has the id that it was given. -/
  assigns : ∀ {name display target body id}, .registered name display target body id ∈ log →
    r.Assigns display target id
  /-- Nothing was claimed, or the first body once. -/
  claimed : ∀ id, claimedBodies log id = [] ∨
    ∃ body, claimedBodies log id = [body] ∧ (registeredBodies log id).head? = some body
  /-- Only what was registered has got a body. -/
  completed : completedIds log ⊆ registeredIds log
  /-- What was neither claimed nor given a body waits, with the first body. -/
  pending_iff : ∀ {id d}, r.get? id = some d → ∀ body, d.state = .pending body ↔
    (registeredBodies log id).head? = some body ∧ claimedBodies log id = [] ∧
      id ∉ completedIds log

/-- An id was registered just if it was registered with some body. -/
lemma registeredBodies_eq_nil_iff : registeredBodies log id = [] ↔ id ∉ registeredIds log := by
  rw [registeredIds, List.mem_eraseDups]
  induction log with
  | nil => simp [registeredBodies, givenIds]
  | cons event rest ih =>
    cases event with
    | registered name display target body i =>
      by_cases hi : i = id
      · simp [registeredBodies, givenIds, hi]
      · simpa [registeredBodies, givenIds, hi, Ne.symm hi] using ih
    | _ => simpa [registeredBodies, givenIds] using ih

lemma eraseDups_concat (ids : List String) (id : String) :
    (ids ++ [id]).eraseDups = if id ∈ ids then ids.eraseDups else ids.eraseDups ++ [id] := by
  rw [List.eraseDups_append, List.removeAll]
  by_cases h : id ∈ ids <;> simp [h, List.eraseDups_cons]

lemma registeredIds_concat (log : List Event) (name display : String) (target body : TypeId)
    (id : String) :
    registeredIds (log ++ [.registered name display target body id]) =
      if id ∈ registeredIds log then registeredIds log else registeredIds log ++ [id] := by
  have hgiven : givenIds (log ++ [.registered name display target body id]) =
      givenIds log ++ [id] := by simp [givenIds]
  simp only [registeredIds, hgiven, eraseDups_concat, List.mem_eraseDups]

lemma registeredIds_append_of_eq_nil (log : List Event) {rest : List Event}
    (h : givenIds rest = []) : registeredIds (log ++ rest) = registeredIds log := by
  have hgiven : givenIds (log ++ rest) = givenIds log ++ givenIds rest := List.filterMap_append
  rw [registeredIds, hgiven, h, List.append_nil, registeredIds]

lemma registeredBodies_append (log rest : List Event) (id : String) :
    registeredBodies (log ++ rest) id = registeredBodies log id ++ registeredBodies rest id :=
  List.filterMap_append

lemma claimedBodies_append (log rest : List Event) (id : String) :
    claimedBodies (log ++ rest) id = claimedBodies log id ++ claimedBodies rest id :=
  List.filterMap_append

lemma completedIds_append (log rest : List Event) :
    completedIds (log ++ rest) = completedIds log ++ completedIds rest :=
  List.filterMap_append

/-- The first body that an id was registered with does not change. -/
lemma head?_registeredBodies_append (h : id ∈ registeredIds log) (rest : List Event) :
    (registeredBodies (log ++ rest) id).head? = (registeredBodies log id).head? := by
  rw [registeredBodies_append, List.head?_append_of_ne_nil]
  exact fun hnil => registeredBodies_eq_nil_iff.1 hnil h

namespace Records

lemma mem_registeredIds (h : Records log r) {d : Definition} (hd : r.get? id = some d) :
    id ∈ registeredIds log :=
  h.names_eq ▸ Entries.mem_names_of_mem (Entries.mem_of_get? hd)

lemma get?_eq_none_iff (h : Records log r) : r.get? id = none ↔ id ∉ registeredIds log := by
  rw [← h.names_eq]
  exact Entries.get?_eq_none_iff

/-- What was not registered has no part in the log. -/
lemma untouched (h : Records log r) (hid : id ∉ registeredIds log) :
    registeredBodies log id = [] ∧ claimedBodies log id = [] ∧ id ∉ completedIds log := by
  have hbodies := registeredBodies_eq_nil_iff.2 hid
  refine ⟨hbodies, (h.claimed id).resolve_right ?_, fun hin => hid (h.completed hin)⟩
  rintro ⟨body, -, hhead⟩
  rw [hbodies] at hhead
  cases hhead

/-! What one event keeps of each part of the invariant. -/

lemma assigns_concat (h : Records log r) (hstep : r.Step event r')
    {name display : String} {target body : TypeId} {id : String}
    (hmem : .registered name display target body id ∈ log ++ [event]) :
    r'.Assigns display target id := by
  rcases List.mem_append.1 hmem with hold | hnew
  · exact (h.assigns hold).mono hstep.keepsTargets
  · obtain rfl := List.mem_singleton.1 hnew
    cases hstep with
    | known hid | added _ hid => exact hid

lemma claimed_concat (h : Records log r) (hevent : claimedBodies [event] id = []) :
    claimedBodies (log ++ [event]) id = [] ∨
      ∃ body, claimedBodies (log ++ [event]) id = [body] ∧
        (registeredBodies (log ++ [event]) id).head? = some body := by
  rw [claimedBodies_append, hevent, List.append_nil]
  refine (h.claimed id).imp_right ?_
  rintro ⟨body, hbody, hhead⟩
  exact ⟨body, hbody, by rw [registeredBodies_append, List.head?_append, hhead, Option.some_or]⟩

lemma pending_concat (h : Records log r) {d : Definition} (hd : r.get? id = some d)
    (hclaimed : claimedBodies [event] id = []) (hcompleted : id ∉ completedIds [event])
    (body : TypeId) :
    d.state = .pending body ↔ (registeredBodies (log ++ [event]) id).head? = some body ∧
      claimedBodies (log ++ [event]) id = [] ∧ id ∉ completedIds (log ++ [event]) := by
  rw [head?_registeredBodies_append (h.mem_registeredIds hd), claimedBodies_append, hclaimed,
    List.append_nil, completedIds_append, List.mem_append, or_iff_left hcompleted]
  exact h.pending_iff hd body

lemma known (h : Records log r) {name display : String} {target : TypeId}
    (hid : r.Assigns display target id) (body : TypeId) :
    Records (log ++ [.registered name display target body id]) r := by
  have hids : registeredIds (log ++ [.registered name display target body id]) =
      registeredIds log := by
    obtain ⟨-, -, -, ⟨d, hd, -⟩, -⟩ := hid
    rw [registeredIds_concat, if_pos (h.mem_registeredIds hd)]
  constructor
  · rw [hids, h.names_eq]
  · exact h.assigns_concat (.known hid)
  · exact fun other => h.claimed_concat rfl
  · rw [hids, completedIds_append]
    exact List.append_subset.2 ⟨h.completed, List.nil_subset _⟩
  · exact fun hd first => h.pending_concat hd rfl List.not_mem_nil first

lemma added (h : Records log r) {name display : String} {target body : TypeId}
    (hfree : r.get? id = none)
    (hid : (⟨r.entries ++ [(id, ⟨name, target, .pending body⟩)]⟩ : Registry).Assigns
      display target id) :
    Records (log ++ [.registered name display target body id])
      ⟨r.entries ++ [(id, ⟨name, target, .pending body⟩)]⟩ := by
  have hnew := h.get?_eq_none_iff.1 hfree
  have hids : registeredIds (log ++ [.registered name display target body id]) =
      registeredIds log ++ [id] := by
    rw [registeredIds_concat, if_neg hnew]
  constructor
  · rw [hids, ← h.names_eq, Entries.names, List.map_append]
    rfl
  · exact h.assigns_concat (.added hfree hid)
  · exact fun other => h.claimed_concat rfl
  · rw [hids, completedIds_append]
    exact List.append_subset.2
      ⟨List.Subset.trans h.completed (List.subset_append_left _ _), List.nil_subset _⟩
  · intro other d hd first
    -- the new definition waits with its body, and for the others nothing has happened
    rw [get?_concat] at hd
    rcases hold : r.get? other with _ | e
    · rw [hold, Option.none_or] at hd
      split at hd
      · rename_i heq
        subst heq
        obtain rfl := Option.some.inj hd
        obtain ⟨hbodies, hclaims, hdone⟩ := h.untouched hnew
        have hone : registeredBodies [.registered name display target body id] id = [body] := by
          simp [registeredBodies]
        rw [registeredBodies_append, hbodies, hone, claimedBodies_append, hclaims,
          completedIds_append]
        simpa [claimedBodies, completedIds] using fun _ => hdone
      · cases hd
    · rw [hold, Option.some_or] at hd
      obtain rfl := Option.some.inj hd
      exact h.pending_concat hold rfl List.not_mem_nil first

/-- An event that changes nothing, and is no registration. -/
lemma idle (h : Records log r) (hstep : r.Step event r) (hgiven : givenIds [event] = [])
    (hclaimed : ∀ id, claimedBodies [event] id = []) (hcompleted : completedIds [event] = []) :
    Records (log ++ [event]) r := by
  have hids := registeredIds_append_of_eq_nil log hgiven
  constructor
  · rw [hids, h.names_eq]
  · exact h.assigns_concat hstep
  · exact fun other => h.claimed_concat (hclaimed other)
  · rw [hids, completedIds_append, hcompleted, List.append_nil]
    exact h.completed
  · intro other d hd
    exact h.pending_concat hd (hclaimed other) (hcompleted ▸ List.not_mem_nil)

/-- Where one definition does not wait any more, the log has to say so of this one only. -/
lemma pending_setState (h : Records log r) {state : Definition.State}
    (hstate : ∀ body, state ≠ .pending body)
    (htouched : claimedBodies (log ++ [event]) id = [] → id ∈ completedIds (log ++ [event]))
    (hothers : ∀ other, other ≠ id →
      claimedBodies [event] other = [] ∧ other ∉ completedIds [event])
    {other : String} {d : Definition} (hd : (r.setState id state).get? other = some d)
    (body : TypeId) :
    d.state = .pending body ↔ (registeredBodies (log ++ [event]) other).head? = some body ∧
      claimedBodies (log ++ [event]) other = [] ∧ other ∉ completedIds (log ++ [event]) := by
  by_cases hother : other = id
  · subst hother
    rw [get?_setState] at hd
    obtain ⟨e, -, rfl⟩ := Option.map_eq_some_iff.1 hd
    simp only [if_true]
    exact iff_of_false (hstate body) fun hwaits => hwaits.2.2 (htouched hwaits.2.1)
  · rw [get?_setState_of_ne r state hother] at hd
    exact h.pending_concat hd (hothers other hother).1 (hothers other hother).2 body

lemma begun (h : Records log r) {body : TypeId} {d : Definition} (hd : r.get? id = some d)
    (hstate : d.state = .pending body) :
    Records (log ++ [.begun id body]) (r.setState id .resolving) := by
  have hids : registeredIds (log ++ [.begun id body]) = registeredIds log :=
    registeredIds_append_of_eq_nil log rfl
  obtain ⟨hhead, hnone, -⟩ := (h.pending_iff hd body).1 hstate
  have hclaims : claimedBodies (log ++ [.begun id body]) id = [body] := by
    rw [claimedBodies_append, hnone]
    simp [claimedBodies]
  have hothers : ∀ other, other ≠ id → claimedBodies [.begun id body] other = [] := by
    intro other hother
    simp [claimedBodies, hother.symm]
  constructor
  · rw [hids, names_setState, h.names_eq]
  · exact h.assigns_concat (.begun hd hstate)
  · intro other
    by_cases hother : other = id
    · subst hother
      refine Or.inr ⟨body, hclaims, ?_⟩
      rw [head?_registeredBodies_append (h.mem_registeredIds hd), hhead]
    · exact h.claimed_concat (hothers other hother)
  · rw [hids, completedIds_append]
    exact List.append_subset.2 ⟨h.completed, List.nil_subset _⟩
  · refine h.pending_setState (fun _ heq => by cases heq) (fun hnil => ?_) fun other hother =>
      ⟨hothers other hother, List.not_mem_nil⟩
    rw [hclaims] at hnil
    cases hnil

lemma stored (h : Records log r) (hid : id ∈ Entries.names r.entries) (schema : Schema) :
    Records (log ++ [.completed id schema]) (r.setState id (.ready schema)) := by
  have hids : registeredIds (log ++ [.completed id schema]) = registeredIds log :=
    registeredIds_append_of_eq_nil log rfl
  have hone : completedIds [.completed id schema] = [id] := rfl
  constructor
  · rw [hids, names_setState, h.names_eq]
  · exact h.assigns_concat (.completed hid schema)
  · exact fun other => h.claimed_concat rfl
  · rw [hids, completedIds_append]
    refine List.append_subset.2 ⟨h.completed, List.cons_subset.2 ⟨?_, List.nil_subset _⟩⟩
    rwa [← h.names_eq]
  · refine h.pending_setState (fun _ heq => by cases heq) (fun _ => ?_) fun other hother =>
      ⟨rfl, ?_⟩
    · rw [completedIds_append, hone]
      exact List.mem_append_right _ (List.mem_singleton_self id)
    · rw [hone]
      exact fun hin => hother (List.mem_singleton.1 hin)

/-- Each call keeps the invariant. -/
lemma step (h : Records log r) (hstep : r.Step event r') : Records (log ++ [event]) r' := by
  cases hstep with
  | known hid => exact h.known hid _
  | added hfree hid => exact h.added hfree hid
  | begun hd hstate => exact h.begun hd hstate
  | refused id => exact h.idle (.refused id) rfl (fun _ => rfl) rfl
  | completed hid schema => exact h.stored hid schema
  | lost id schema => exact h.idle (.lost id schema) rfl (fun _ => rfl) rfl

end Records

lemma records_start : Records [] {} where
  names_eq := rfl
  assigns h := by cases h
  claimed _ := Or.inl rfl
  completed := List.nil_subset _
  pending_iff h := by cases h

lemma records_run (h : Records log r) (calls : List Call) :
    Records (log ++ (r.run calls).1) (r.run calls).2 := by
  induction calls generalizing log r with
  | nil =>
    rw [run, List.append_nil]
    exact h
  | cons call rest ih =>
    have hrest := ih (h.step (step_perform r call))
    rwa [List.append_assoc] at hrest

/-! ## Owners of ids, and what waits -/

lemma Owns.eq {target target' : TypeId} (h : r.Owns target id) (h' : r.Owns target' id) :
    target = target' := by
  obtain ⟨d, hd, rfl⟩ := h
  obtain ⟨d', hd', rfl⟩ := h'
  rw [Option.some.inj (hd.symm.trans hd')]

lemma Records.owns (h : Records log r) {name display : String} {target body : TypeId}
    (hmem : .registered name display target body id ∈ log) : r.Owns target id := by
  obtain ⟨-, -, -, howns, -⟩ := h.assigns hmem
  exact howns

/-- A definition waits just if it was neither claimed nor given a body. -/
lemma Records.waits_iff (h : Records log r) {d : Definition} (hd : r.get? id = some d) :
    (∃ body, d.state = .pending body) ↔ claimedBodies log id = [] ∧ id ∉ completedIds log := by
  constructor
  · rintro ⟨body, hbody⟩
    exact ((h.pending_iff hd body).1 hbody).2
  · intro hwaits
    have hbodies : registeredBodies log id ≠ [] := fun hnil =>
      registeredBodies_eq_nil_iff.1 hnil (h.mem_registeredIds hd)
    exact ⟨_, (h.pending_iff hd _).2 ⟨List.head?_eq_some_head hbodies, hwaits⟩⟩

lemma Records.pending_eq (h : Records log r) :
    r.pending = (registeredIds log).filter fun id =>
      (claimedBodies log id).isEmpty && !(completedIds log).contains id := by
  have hnodup : (Entries.names r.entries).Nodup := h.names_eq ▸ nodup_eraseDups _
  rw [← h.names_eq, Entries.names, List.filter_map, ← List.filterMap_eq_map, List.filterMap_filter,
    pending]
  refine List.filterMap_congr fun e he => ?_
  have hwaits := h.waits_iff (Entries.get?_of_mem hnodup he)
  have htest : ((claimedBodies log e.1).isEmpty && !(completedIds log).contains e.1) = true ↔
      ∃ body, e.2.state = .pending body := by
    rw [hwaits, Bool.and_eq_true, List.isEmpty_iff, Bool.not_eq_true', ← Bool.not_eq_true,
      List.contains_iff_mem]
  simp only [Function.comp_apply]
  split
  · rename_i hbody
    rw [if_pos (htest.2 ⟨_, hbody⟩)]
  · rename_i hnone
    rw [if_neg]
    intro hempty
    obtain ⟨body, hbody⟩ := htest.1 hempty
    exact hnone body hbody

lemma Records.mem_pending_iff (h : Records log r) :
    id ∈ r.pending ↔
      id ∈ registeredIds log ∧ claimedBodies log id = [] ∧ id ∉ completedIds log := by
  simp [h.pending_eq]

lemma Records.not_pending (h : Records log r) (hid : id ∉ r.pending) :
    id ∉ registeredIds log ∨ claimedBodies log id ≠ [] ∨ id ∈ completedIds log := by
  rw [h.mem_pending_iff] at hid
  tauto

/-! ## Claims -/

lemma begin?_of_pending {d : Definition} {body : TypeId} (hd : r.get? id = some d)
    (hstate : d.state = .pending body) : r.begin? id = some (body, r.setState id .resolving) := by
  rw [begin?, hd, Option.map_some, hstate]

/-- What waits in the registry can be claimed. -/
lemma Records.begin?_of_waiting (h : Records log r) (hid : id ∈ r.pending) :
    ∃ body r', r.begin? id = some (body, r') ∧ (registeredBodies log id).head? = some body ∧
      r'.pending = r.pending.filter (· ≠ id) := by
  obtain ⟨hregistered, hwaits⟩ := h.mem_pending_iff.1 hid
  obtain ⟨d, hd⟩ := Option.ne_none_iff_exists'.1 fun hnone => h.get?_eq_none_iff.1 hnone hregistered
  obtain ⟨body, hbody⟩ := (h.waits_iff hd).2 hwaits
  refine ⟨body, _, begin?_of_pending hd hbody, ((h.pending_iff hd body).1 hbody).1, ?_⟩
  -- the log with the claim tells what waits after it
  rw [(h.begun hd hbody).pending_eq, h.pending_eq, List.filter_filter,
    registeredIds_append_of_eq_nil log rfl]
  refine List.filter_congr fun other _ => ?_
  rw [claimedBodies_append, completedIds_append]
  by_cases hother : other = id
  · subst hother
    simp [claimedBodies]
  · simp [claimedBodies, completedIds, hother, Ne.symm hother]

lemma Records.begin?_of_not_waiting (h : Records log r) (hid : id ∉ r.pending) :
    r.begin? id = none := by
  rcases hclaim : r.begin? id with _ | ⟨body, r'⟩
  · rfl
  · obtain ⟨⟨d, hd, hstate⟩, -⟩ := begin?_cases hclaim
    exact absurd (h.mem_pending_iff.2
      ⟨h.mem_registeredIds hd, (h.waits_iff hd).1 ⟨body, hstate⟩⟩) hid

lemma Records.length_claimedBodies_le (h : Records log r) (id : String) :
    (claimedBodies log id).length ≤ 1 := by
  rcases h.claimed id with hnil | ⟨body, hbody, -⟩
  · rw [hnil]
    exact Nat.zero_le 1
  · rw [hbody]
    exact Nat.le_refl 1

lemma Records.head?_of_mem_claimedBodies (h : Records log r) (id : String) (body : TypeId)
    (hin : body ∈ claimedBodies log id) : (registeredBodies log id).head? = some body := by
  rcases h.claimed id with hnil | ⟨first, hfirst, hhead⟩
  · rw [hnil] at hin
    cases hin
  · rw [hfirst] at hin
    rw [List.mem_singleton.1 hin, hhead]

/-! ## Bodies -/

/-- A claim makes no definition ready, nor does it take a body away. -/
lemma ready?_claim {body : TypeId} (h : r.begin? id = some (body, r')) (other : String) :
    r'.ready? other = r.ready? other := by
  obtain ⟨⟨d, hd, hstate⟩, rfl⟩ := begin?_cases h
  by_cases hother : other = id
  · subst hother
    simp [ready?, get?_setState, hd, hstate]
  · exact ready?_setState_of_ne r _ hother

lemma ready?_store (hid : id ∈ Entries.names r.entries) (schema : Schema) (other : String) :
    (r.setState id (.ready schema)).ready? other =
      (storedBodies [.completed id schema] other).getLast?.or (r.ready? other) := by
  by_cases hother : id = other
  · subst hother
    obtain ⟨d, hd⟩ : ∃ d, r.get? id = some d :=
      Option.ne_none_iff_exists'.1 fun hnone => Entries.get?_eq_none_iff.1 hnone hid
    have hone : storedBodies [.completed id schema] id = [schema] := by simp [storedBodies]
    rw [hone, List.getLast?_singleton, Option.some_or]
    exact ready?_eq_some_iff.2 ⟨_, get?_setState_self hd _, rfl⟩
  · have hnone : storedBodies [.completed id schema] other = [] := by simp [storedBodies, hother]
    rw [hnone, List.getLast?_nil, Option.none_or]
    exact ready?_setState_of_ne r _ (Ne.symm hother)

/-- A call leaves the bodies as they are, but for the one that it stores. -/
lemma ready?_perform (r : Registry) (call : Call) (id : String) :
    (r.perform call).2.ready? id =
      (storedBodies [(r.perform call).1] id).getLast?.or (r.ready? id) := by
  cases call with
  | register name display target body => exact ready?_register r name display target body id
  | begin other =>
    rw [perform]
    split
    · rename_i hclaim
      exact ready?_claim hclaim id
    · rfl
  | complete other schema =>
    rw [perform, complete]
    dsimp only
    split
    · exact ready?_store (Entries.contains_eq_true_iff.1 ‹_›) schema id
    · rename_i hnot
      rw [setState_of_notMem fun hin => hnot (Entries.contains_eq_true_iff.2 hin)]
      rfl

lemma ready?_run (r : Registry) (calls : List Call) (id : String) :
    (r.run calls).2.ready? id = (storedBodies (r.run calls).1 id).getLast?.or (r.ready? id) := by
  induction calls generalizing r with
  | nil => rfl
  | cons call rest ih =>
    have hlog : storedBodies (r.run (call :: rest)).1 id =
        storedBodies [(r.perform call).1] id ++ storedBodies ((r.perform call).2.run rest).1 id := by
      rw [storedBodies, storedBodies, storedBodies, ← List.filterMap_append]
      rfl
    rw [hlog, List.getLast?_append, Option.or_assoc, ← ready?_perform]
    exact ih _

/-! ## Claims that were refused -/

/-- Where an event stands in the log of a run, a call was made that came to it. -/
lemma exists_call_of_run {calls : List Call} {front back : List Event}
    (h : (r.run calls).1 = front ++ event :: back) :
    ∃ first call, (r.run first).1 = front ∧ ((r.run first).2.perform call).1 = event := by
  induction front generalizing r calls with
  | nil =>
    cases calls with
    | nil => cases h
    | cons call rest => exact ⟨[], call, rfl, (List.cons.inj h).1⟩
  | cons head front ih =>
    cases calls with
    | nil => cases h
    | cons call rest =>
      obtain ⟨rfl, hrest⟩ := List.cons.inj h
      obtain ⟨first, last, hfirst, hlast⟩ := ih hrest
      exact ⟨call :: first, last, congrArg _ hfirst, hlast⟩

lemma begin?_eq_none_of_perform {call : Call} (h : (r.perform call).1 = .refused id) :
    r.begin? id = none := by
  cases call with
  | register => cases h
  | begin other =>
    rw [perform] at h
    split at h
    · cases h
    · cases h
      assumption
  | complete other schema =>
    rw [perform] at h
    dsimp only at h
    split at h <;> cases h

/-- Where a run has refused a claim, the definition did not wait. -/
lemma not_waiting_of_refused {calls : List Call} {front back : List Event}
    (h : (run {} calls).1 = front ++ .refused id :: back) :
    id ∉ registeredIds front ∨ claimedBodies front id ≠ [] ∨ id ∈ completedIds front := by
  obtain ⟨first, call, rfl, hrefused⟩ := exists_call_of_run h
  have hfirst : Records (run {} first).1 (run {} first).2 := records_run records_start first
  -- the calls before lead to a registry of which the front is the log
  refine hfirst.not_pending fun hwaits => ?_
  obtain ⟨body, r', hbegin, -⟩ := hfirst.begin?_of_waiting hwaits
  rw [begin?_eq_none_of_perform hrefused] at hbegin
  cases hbegin

/-! ## All calls together -/

/-- Whatever is called, the log and the registry go together. -/
theorem accords_run (calls : List Call) :
    Accords (run {} calls).1 (run {} calls).2 := by
  have h : Records (run {} calls).1 (run {} calls).2 := records_run records_start calls
  constructor
  · exact finds_register _
  · exact h.owns
  · exact fun hmem hmem' => (h.assigns hmem).unique (h.assigns hmem')
  · rintro _ _ _ _ _ _ _ _ id id' hmem hmem' hne rfl
    exact hne ((h.owns hmem).eq (h.owns hmem'))
  · exact outline_isPrefix_run _
  · exact h.length_claimedBodies_le
  · exact h.head?_of_mem_claimedBodies
  · exact h.pending_eq
  · exact fun _ => h.begin?_of_waiting
  · exact fun _ => h.begin?_of_not_waiting
  · exact fun _ _ _ => not_waiting_of_refused
  · intro id
    rw [ready?_run]
    exact Option.or_none

/-- Two generic types have instances with the text `Box<string>`, of which the first one is
registered twice, with different bodies.  It is claimed twice, and the other one gets its body
without a claim. -/
def boxCalls : List Call :=
  [.register "Box" "Box<string>" ⟨12⟩ ⟨20⟩, .register "Box" "Box<string>" ⟨13⟩ ⟨21⟩,
    .register "Box" "Box<string>" ⟨12⟩ ⟨22⟩, .register "List" "List<string>" ⟨14⟩ ⟨23⟩,
    .begin "Box<string>", .begin "Box<string>", .complete "Box<string>#2" .any]

/-- The first claim gives the first body, and the second one is refused.  What was claimed is not ready
yet, and what has got a body is.  Then only `List<string>` waits; it can be claimed with its body, and
nothing waits any more. -/
theorem accords_run_boxCalls :
    (run {} boxCalls).1 =
      [.registered "Box" "Box<string>" ⟨12⟩ ⟨20⟩ "Box<string>",
        .registered "Box" "Box<string>" ⟨13⟩ ⟨21⟩ "Box<string>#2",
        .registered "Box" "Box<string>" ⟨12⟩ ⟨22⟩ "Box<string>",
        .registered "List" "List<string>" ⟨14⟩ ⟨23⟩ "List<string>",
        .begun "Box<string>" ⟨20⟩, .refused "Box<string>", .completed "Box<string>#2" .any] ∧
      (run {} boxCalls).2.pending = ["List<string>"] ∧
      (∀ id ≠ "List<string>", (run {} boxCalls).2.begin? id = none) ∧
      (run {} boxCalls).2.ready? "Box<string>" = none ∧
      (run {} boxCalls).2.ready? "Box<string>#2" = some .any ∧
      ∃ r, (run {} boxCalls).2.begin? "List<string>" = some (⟨23⟩, r) ∧ r.pending = [] := by
  have h := accords_run boxCalls
  have hpending : (run {} boxCalls).2.pending = ["List<string>"] := by
    rw [h.pending_eq]
    decide +kernel
  have hbodies : registeredBodies (run {} boxCalls).1 "List<string>" = [⟨23⟩] := by decide +kernel
  refine ⟨rfl, hpending, fun id hid => ?_, ?_, ?_, ?_⟩
  · refine h.begin?_of_not_waiting id ?_
    rw [hpending, List.mem_singleton]
    exact hid
  · rw [h.ready?_eq]
    rfl
  · rw [h.ready?_eq]
    rfl
  · obtain ⟨body, r, hbegin, hhead, hrest⟩ :=
      h.begin?_of_waiting "List<string>" (hpending ▸ List.mem_singleton_self _)
    rw [hbodies] at hhead
    obtain rfl := Option.some.inj hhead
    refine ⟨r, hbegin, ?_⟩
    rw [hrest, hpending]
    decide

end ValueSchema.Registry
