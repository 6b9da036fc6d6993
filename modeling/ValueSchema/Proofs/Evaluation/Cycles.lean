/-
# Recursive types end at themselves

A branch does not go into a type that it is inside of already, and each type that it goes into takes
one from the depth.  The types that have other types inside them, the *compound* ones, are finitely
many; so a branch that starts with more depth than there are compound types never runs out of it,
however the types refer to each other.  What it meets instead is a type inside itself, and that is
the only error in the schema of a type: `Context.convertType_of_compounds_lt`.
-/
import ValueSchema.Proofs.Evaluation.Memory
import ValueSchema.Proofs.Schema.Throughout

namespace ValueSchema

/-! ## Compound types -/

/-- Whether a structure is neither intrinsic nor that of a literal. -/
def TypeForm.isCompound : TypeForm → Bool
  | .intrinsic _ | .literal _ => false
  | _ => true

/-- The types that are neither intrinsic nor literals. -/
def TypeTable.compounds (t : TypeTable) : List TypeId :=
  ((List.range t.size).map TypeId.mk).filter fun id => (t.get? id).any TypeForm.isCompound

lemma TypeTable.mem_compounds {t : TypeTable} {id : TypeId} {form : TypeForm}
    (h : t.get? id = some form) (hform : form.isCompound = true) : id ∈ t.compounds := by
  refine List.mem_filter.2 ⟨List.mem_map.2 ⟨id.index, List.mem_range.2 ?_, rfl⟩, by simp [h, hform]⟩
  obtain ⟨hlt, -⟩ := Array.getElem?_eq_some_iff.1 h
  exact hlt

/-- A branch is inside of compound types only, and of none of them twice. -/
structure Branch.Descends (types : TypeTable) (b : Branch) : Prop where
  nodup : b.types.Nodup
  compound : b.types ⊆ types.compounds

namespace Branch.Descends

variable {types : TypeTable} {b : Branch}

lemma length_le (h : b.Descends types) : b.types.length ≤ types.compounds.length :=
  (List.subperm_of_subset h.nodup h.compound).length_le

lemma withType (h : b.Descends types) {id : TypeId} (hid : id ∈ types.compounds)
    (hnew : b.isHandlingType id = false) : (b.withType id).Descends types where
  nodup := by
    refine List.nodup_cons.2 ⟨fun hmem => ?_, h.nodup⟩
    rw [isHandlingType, List.contains_iff_mem.2 hmem] at hnew
    cases hnew
  compound := List.cons_subset.2 ⟨hid, h.compound⟩

end Branch.Descends

/-! ## Errors of types inside themselves -/

/-- If a schema is an error, then that of a type inside itself. -/
def Schema.Circular : Schema → Prop
  | error reason _ => reason = "Circular type"
  | _ => True

lemma Schema.composable_circular : Composable Circular where
  plain _ := trivial
  literal _ := trivial
  union _ := trivial
  intersection _ := trivial
  template _ := trivial
  object _ _ _ := trivial

namespace Evaluation

variable {host : Host} {options : Options} {α β : Type}

/-- A session with the options that remembers no errors but those of types inside themselves. -/
structure Recalls (options : Options) (s : Session) : Prop where
  options_eq : s.options = options
  remembered : ∀ id schema, s.types.get? id = some schema → schema.Throughout Schema.Circular

/-- A computation has a result, for which the depth suffices, and it is as `Q` says. -/
def Yields (options : Options) (m : Eval α) (Q : α → Prop) : Prop :=
  ∀ s, Recalls options s →
    ∃ a t, m s = (.ok a, t) ∧ Recalls options t ∧ t.degraded = s.degraded ∧ Q a

namespace Yields

variable {m : Eval α} {Q : α → Prop} {R : β → Prop}

lemma pure {a : α} (h : Q a) : Yields options (Pure.pure a) Q := fun s hs => ⟨a, s, rfl, hs, rfl, h⟩

lemma bind {f : α → Eval β} (hm : Yields options m Q) (hf : ∀ a, Q a → Yields options (f a) R) :
    Yields options (m >>= f) R := by
  intro s hs
  obtain ⟨a, t, ha, ht, hst, hQ⟩ := hm s hs
  obtain ⟨b, u, hb, hu, htu, hR⟩ := hf a hQ t ht
  exact ⟨b, u, by rw [Run.bind_of_ok ha, hb], hu, htu.trans hst, hR⟩

lemma map {f : α → β} (hm : Yields options m Q) (hf : ∀ a, Q a → R (f a)) :
    Yields options (m >>= fun a => Pure.pure (f a)) R :=
  hm.bind fun a ha => .pure (hf a ha)

lemma mapM {items : List α} {f : α → Eval β} (h : ∀ a ∈ items, Yields options (f a) R) :
    Yields options (items.mapM f) fun results => ∀ b ∈ results, R b := by
  induction items with
  | nil => exact .pure (List.forall_mem_nil _)
  | cons a rest ih =>
    rw [List.mapM_cons]
    refine (h a (List.mem_cons_self ..)).bind fun b hb => ?_
    exact (ih fun d hd => h d (List.mem_cons_of_mem _ hd)).map fun results hall =>
      List.forall_mem_cons.2 ⟨hb, hall⟩

lemma read {f : Options → Eval α} (h : Yields options (f options) Q) :
    Yields options (Eval.options >>= f) Q := by
  intro s hs
  have hread : (Eval.options >>= f) s = f options s := by
    rw [Eval.options_bind, Run.get_bind, hs.options_eq]
  rw [hread]
  exact h s hs

lemma cap : Yields options Eval.cap fun _ => True := read (.pure trivial)

lemma register (host : Host) (id : TypeId) (name : String) (target body : TypeId) :
    Yields options (registerInstance host id name target body) fun _ => True :=
  fun _ hs => ⟨_, _, rfl, ⟨hs.options_eq, hs.remembered⟩, rfl, trivial⟩

end Yields

/-- A computation whose result has no errors but those of types inside themselves. -/
abbrev Converts (options : Options) (m : Eval Schema) : Prop :=
  Yields options m (Schema.Throughout Schema.Circular)

section

variable {e : Evaluator} {b : Branch} {id : TypeId}

lemma circular_optional {s : Schema} (h : s.Throughout Schema.Circular) (isOptional : Bool) :
    (optional isOptional s).Throughout Schema.Circular := by
  rw [optional]
  split
  · refine Schema.throughout_unionOf Schema.composable_circular ?_
    exact List.forall_mem_cons.2 ⟨h, List.forall_mem_singleton.2
      (Schema.throughout_literal Schema.composable_circular _)⟩
  · exact h

lemma yields_convertElement {x : TupleElement} (h : Converts options (e.type b x.type none)) :
    Yields options (convertElement e b x) fun r => r.1.Throughout Schema.Circular := by
  refine h.bind fun schema hschema => ?_
  split
  · split
    · exact .pure (hschema.of_mem_children (List.mem_singleton_self _))
    · exact .pure hschema
  · exact .pure hschema

lemma converts_convertSignature {s : Signature}
    (h : ∀ part ∈ signatureTypes s, Converts options (e.type b part none)) :
    Converts options (convertSignature e b s) := by
  have hparameters : Yields options (s.parameters.mapM (convertParameter e b)) fun results =>
      ∀ r ∈ results, r.2.Throughout Schema.Circular :=
    .mapM fun p hp => (h p.type (List.mem_append_left _ (List.mem_map_of_mem hp))).map
      fun _ hschema => circular_optional hschema _
  refine hparameters.bind fun parameters hall => ?_
  have hresult := h s.result (List.mem_append_right _ (List.mem_singleton_self _))
  refine hresult.map fun result hresult => ?_
  refine Schema.throughout_of_children trivial (List.forall_mem_append.2 ⟨?_, ?_⟩)
  · exact List.forall_mem_map.2 hall
  · exact List.forall_mem_singleton.2 hresult

lemma converts_convertObject {type : ObjectType} (hliteral : type.literal = none)
    (h : ∀ part ∈ objectParts host options id type, Converts options (e.type b part none)) :
    Converts options (convertObject host e b id type) := by
  refine .read ?_
  rcases hname : type.name.filter options.isWellKnown with _ | name
  · rcases hsignatures : host.types.signatures id with _ | ⟨first, rest⟩
    · simp only [objectParts, hname, hsignatures] at h
      rw [hliteral]
      have hproperties : Yields options
          ((host.types.properties id).mapM (convertProperty host e b false)) fun results =>
            ∀ r ∈ results, r.2.Throughout Schema.Circular :=
        .mapM fun p hp => (h (propertyType host p)
          (List.mem_append_left _ (List.mem_map_of_mem hp))).map
            fun _ hschema => circular_optional hschema _
      have hindex : Yields options
          ((host.types.indexSignatures id).mapM (convertIndex e b)) fun results =>
            ∀ r ∈ results, r.1.Throughout Schema.Circular ∧ r.2.Throughout Schema.Circular := by
        refine .mapM fun i hi => ?_
        have hpart : ∀ part ∈ [i.key, i.value], Converts options (e.type b part none) :=
          fun part hpart => h part (List.mem_append_right _ (List.mem_flatMap.2 ⟨i, hi, hpart⟩))
        exact (hpart i.key (by simp)).bind fun key hkey =>
          (hpart i.value (by simp)).map fun value hvalue => ⟨hkey, hvalue⟩
      refine hproperties.bind fun properties hall => hindex.map fun keys hkeys => ?_
      exact Schema.throughout_object
        (Schema.composable_circular.object _ _ (Entries.nodup_names_ofList _))
        (fun r hr => hall r (Entries.mem_of_mem_ofList hr)) hkeys
    · simp only [objectParts, hname, hsignatures] at h
      refine (Yields.mapM fun s hs => converts_convertSignature fun part hpart => h part ?_).map
        fun functions hall => Schema.throughout_unionOf Schema.composable_circular hall
      exact List.mem_flatMap.2 ⟨s, hs, hpart⟩
  · exact .pure (Schema.throughout_of_children trivial (List.forall_mem_nil _))

lemma converts_convertApplication {name : String} {target : TypeId} {arguments : List TypeId}
    {body : TypeId} (h : ∀ part ∈ arguments, Converts options (e.type b part none)) :
    Converts options (convertApplication host e b id name target arguments body) := by
  rw [Simulation.convertApplication_eq]
  refine (Yields.mapM h).bind fun items hitems => ?_
  let rest : Options → Eval Schema := fun options =>
    if options.isWellKnown name then Pure.pure (.wellKnown name items)
    else do
      let key ← registerInstance host id name target body
      Pure.pure (.reference name items key)
  show Converts options (Eval.options >>= rest)
  refine .read ?_
  show Converts options (if options.isWellKnown name then _ else _)
  split
  · exact .pure (Schema.throughout_of_children trivial hitems)
  · exact (Yields.register host id name target body).map fun key _ =>
      Schema.throughout_of_children trivial hitems

/-- The only errors in the schema of a type are those of its parts. -/
lemma converts_convertForm (hhost : host.LiteralFree) {form : TypeForm}
    (hid : host.types.get? id = some form)
    (h : ∀ part ∈ formParts host options id form, Converts options (e.type b part none)) :
    Converts options (convertForm host e b id none form) := by
  have hp := Schema.composable_circular
  cases form with
  | intrinsic kind =>
    refine .pure ?_
    cases kind with
    | undefined | null => exact Schema.throughout_literal hp _
    | _ => exact Schema.throughout_plain hp _
  | literal value => exact .pure (Schema.throughout_literal hp value)
  | template parts =>
    have hparts : Yields options (parts.mapM (convertPart e b)) fun results =>
        ∀ r ∈ results, r.Throughout Schema.Circular := by
      refine .mapM fun part hpart => ?_
      cases part with
      | text value => exact .pure (Schema.throughout_literal hp _)
      | type type => exact h type (List.mem_filterMap.2 ⟨_, hpart, rfl⟩)
    exact hparts.bind fun results hall => Yields.cap.map fun cap _ =>
      Schema.throughout_templateOf hp hall cap
  | union members => exact (Yields.mapM h).map fun _ hall => Schema.throughout_unionOf hp hall
  | intersection members =>
    exact (Yields.mapM h).map fun _ hall => Schema.throughout_intersectionOf hp hall
  | tuple elements =>
    refine (Yields.mapM fun x hx =>
      yields_convertElement (h x.type (List.mem_map_of_mem hx))).map fun results hall => ?_
    exact Schema.throughout_of_children trivial (List.forall_mem_map.2 hall)
  | array element =>
    exact (h element (List.mem_singleton_self _)).map fun _ hschema =>
      Schema.throughout_of_children trivial (List.forall_mem_singleton.2 hschema)
  | object type => exact converts_convertObject (hhost id type hid) h
  | keyOf subject =>
    exact (h subject (List.mem_singleton_self _)).map fun _ hschema =>
      Schema.throughout_of_children trivial (List.forall_mem_singleton.2 hschema)
  | access target key =>
    refine (h target (by simp [formParts])).bind fun _ htarget =>
      (h key (by simp [formParts])).map fun _ hkey => ?_
    exact Schema.throughout_of_children trivial
      (List.forall_mem_cons.2 ⟨htarget, List.forall_mem_singleton.2 hkey⟩)
  | parameter name constraint =>
    cases constraint with
    | none => exact .pure (Schema.throughout_plain hp _)
    | some constraint => exact h constraint (List.mem_singleton_self _)
  | application name target arguments body => exact converts_convertApplication h

/-- A type inside itself is an error, a known type is as it was, and any other type comes from its
structure. -/
lemma converts_convertCompound {form : TypeForm}
    (h : b.isHandlingType id = false →
      Converts options (convertForm host e (b.withType id) id none form)) :
    Converts options (convertCompound host e b id none form) := by
  intro s hs
  rw [convertCompound_apply]
  split
  · exact ⟨_, s, rfl, hs, rfl, (Schema.throughout_of_children_eq_nil rfl).2 rfl⟩
  · rename_i hnew
    obtain ⟨schema, t, hrun, ht, hst, hschema⟩ := h (by simpa using hnew) s hs
    split
    · rename_i known hknown
      refine ⟨known, s, rfl, hs, rfl, ?_⟩
      split at hknown
      · exact hs.remembered id known hknown
      · cases hknown
    · rw [hrun]
      refine ⟨schema, _, rfl, ⟨by rw [options_remember, ht.options_eq], fun other known hknown => ?_⟩,
        by rw [degraded_remember, hst], hschema⟩
      rw [remember] at hknown
      split at hknown
      · rw [Table.put, Table.get?] at hknown
        split at hknown
        · obtain rfl := Option.some.inj hknown
          exact hschema
        · exact ht.remembered other known hknown
      · exact ht.remembered other known hknown

end

/-- A branch with more depth than there are compound types left to go into does not run out of it.
The induction is on the depth; each level adds a type to the branch. -/
lemma converts_convertType (hhost : host.LiteralFree) (depth : Nat) {b : Branch}
    (hb : b.Descends host.types) (hdepth : host.types.compounds.length < b.types.length + depth)
    (id : TypeId) : Converts options (convertType host depth b id none) := by
  have hp := Schema.composable_circular
  induction depth generalizing b id with
  | zero =>
    have hle := hb.length_le
    omega
  | succ depth ih =>
    rw [convertType_succ, convert]
    split
    · exact .pure (Schema.throughout_plain hp _)
    · rename_i kind hid
      show Converts options (convertForm host (evaluator host depth) b id none (.intrinsic kind))
      exact converts_convertForm hhost hid (by simp [formParts])
    · exact .pure (Schema.throughout_literal hp _)
    · rename_i form hintrinsic hliteral hid
      have hcompound : form.isCompound = true := by
        cases form with
        | intrinsic kind => exact absurd rfl (hintrinsic kind)
        | literal value => exact absurd rfl (hliteral value)
        | _ => rfl
      refine converts_convertCompound fun hnew => converts_convertForm hhost hid fun part _ => ?_
      refine ih (hb.withType (TypeTable.mem_compounds hid hcompound) hnew) ?_ part
      simp only [Branch.withType, List.length_cons]
      omega

end Evaluation

namespace Context

open Evaluation

/-- If there is more depth than there are compound types, then every type of a host without object
literals is converted in a fresh session with a result for which the depth suffices, and all errors
in the result are those of types inside themselves. -/
theorem convertType_of_compounds_lt {host : Host} {options : Options} (hhost : host.LiteralFree)
    (hdepth : host.types.compounds.length < options.maxDepth) (id : TypeId) :
    ∃ schema s, (start options).convertType host id none { options } = (.ok schema, s) ∧
      s.degraded = 0 ∧
      ∀ reason origin, .error reason origin ∈ schema.subterms → reason = "Circular type" := by
  have hstart : ((start options).branch).Descends host.types := ⟨List.nodup_nil, List.nil_subset _⟩
  have hfresh : Recalls options { options } := ⟨rfl, by simp [Table.get?]⟩
  obtain ⟨schema, s, hrun, -, hdegraded, hschema⟩ :=
    converts_convertType hhost options.maxDepth hstart (by simpa [start] using hdepth) id _ hfresh
  exact ⟨schema, s, hrun, hdegraded, fun reason origin hmem => hschema _ hmem⟩

/-- The five compound types of `circles` refer to themselves and to each other, and a depth of six
suffices for each of them, so also for the one that holds itself as `self`.  A depth of one does not
suffice for it. -/
theorem convertType_circles_of_depth_six :
    circles.host.types.compounds.length = 5 ∧
    (∃ s, (start { maxDepth := 6 }).convertType circles.host ⟨15⟩ none
          { options := { maxDepth := 6 } } =
        (.ok (.object [("self", .error "Circular type" none),
          ("owner", .object [("name", .plain .string)] [])] []), s) ∧ s.degraded = 0) ∧
    ((start { maxDepth := 1 }).convertType circles.host ⟨15⟩ none
      { options := { maxDepth := 1 } }).2.degraded ≠ 0 := by
  have hcompounds : circles.host.types.compounds.length = 5 := by decide +kernel
  have hliteral : circles.host.LiteralFree :=
    (Host.plainTypes_of_all (by decide +kernel)).literalFree
  have hdepth : circles.host.types.compounds.length < ({ maxDepth := 6 } : Options).maxDepth := by
    rw [hcompounds]
    decide
  obtain ⟨schema, s, hrun, hdegraded, -⟩ := convertType_of_compounds_lt hliteral hdepth ⟨15⟩
  have hschema : ((start { maxDepth := 6 }).convertType circles.host ⟨15⟩ none
      { options := { maxDepth := 6 } }).1 = .ok (.object [("self", .error "Circular type" none),
        ("owner", .object [("name", .plain .string)] [])] []) := rfl
  rw [hrun] at hschema
  exact ⟨hcompounds, ⟨s, by rw [hrun, ← hschema], hdegraded⟩, by decide +kernel⟩

end Context

end ValueSchema
