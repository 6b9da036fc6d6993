/-
# What a type is converted from

The schema of a type comes from the schemas of other types, its *parts*, unless it comes from an
object literal.  A relation between computations that goes through the ways in which conversions are
put together goes from the parts to the whole, `TypeSimulation.rel_convertForm`.  Here nothing is
assumed of other types than the parts, so that the relation may depend on how they hang together.

A type is *acyclic* if its parts, the parts of these, and so on, come to an end.
-/
import Mathlib.Logic.Relation
import ValueSchema.Proofs.Evaluation.Uniformity

namespace ValueSchema

/-- No object type comes from an object literal. -/
def Host.LiteralFree (host : Host) : Prop :=
  ∀ id type, host.types.get? id = some (.object type) → type.literal = none

namespace Evaluation

/-! ## Parts -/

/-- The type that stands in a part of a template. -/
def templateType? : TemplatePart → Option TypeId
  | .text _ => none
  | .type id => some id

/-- The type that the schema of a property comes from. -/
def propertyType (host : Host) (p : Property) : TypeId :=
  if host.types.isParameter p.declaredType then p.type else p.declaredType

/-- The types in a signature. -/
def signatureTypes (s : Signature) : List TypeId := s.parameters.map Parameter.type ++ [s.result]

/-- The parts of an object type. -/
def objectParts (host : Host) (options : Options) (id : TypeId) (type : ObjectType) :
    List TypeId :=
  match type.name.filter options.isWellKnown with
  | some _ => []
  | none =>
    match host.types.signatures id with
    | [] => (host.types.properties id).map (propertyType host) ++
      (host.types.indexSignatures id).flatMap fun i => [i.key, i.value]
    | signatures => signatures.flatMap signatureTypes

/-- The parts of a type with a given structure. -/
def formParts (host : Host) (options : Options) (id : TypeId) : TypeForm → List TypeId
  | .intrinsic _ | .literal _ | .parameter _ none => []
  | .template parts => parts.filterMap templateType?
  | .union members | .intersection members => members
  | .array element => [element]
  | .tuple elements => elements.map TupleElement.type
  | .object type => objectParts host options id type
  | .keyOf subject => [subject]
  | .access target key => [target, key]
  | .parameter _ (some constraint) => [constraint]
  | .application _ _ arguments _ => arguments

/-- The parts of a type. -/
def partsOf (host : Host) (options : Options) (id : TypeId) : List TypeId :=
  (host.types.get? id).elim [] (formParts host options id)

/-- A type is acyclic if its parts are, and theirs, and so on to an end. -/
def Acyclic (host : Host) (options : Options) : TypeId → Prop :=
  Acc fun part type => part ∈ partsOf host options type

/-- Whether the parts of a type, their parts, and so on come to an end within some levels. -/
def endsWithin (host : Host) (options : Options) : Nat → TypeId → Bool
  | 0, _ => false
  | levels + 1, id => (partsOf host options id).all (endsWithin host options levels)

/-- A type leads to another one through parts. -/
def LeadsTo (host : Host) (options : Options) : TypeId → TypeId → Prop :=
  Relation.TransGen fun type part => part ∈ partsOf host options type

section

variable {host : Host} {options : Options} {id : TypeId}

lemma acyclic_of_endsWithin (levels : Nat) (h : endsWithin host options levels id = true) :
    Acyclic host options id := by
  induction levels generalizing id with
  | zero => cases h
  | succ levels ih =>
    exact Acc.intro id fun part hpart => ih (List.all_eq_true.1 h part hpart)

lemma Acyclic.part {part : TypeId} (h : Acyclic host options id)
    (hpart : part ∈ partsOf host options id) : Acyclic host options part := Acc.inv h hpart

/-- An acyclic type does not lead back to itself. -/
lemma Acyclic.not_leadsTo_self (h : Acyclic host options id) : ¬ LeadsTo host options id id := by
  induction h with
  | intro id _ ih =>
    intro hself
    obtain ⟨part, hpart, hback⟩ := Relation.TransGen.head'_iff.1 hself
    exact ih part hpart (Relation.TransGen.tail' hback hpart)

end

end Evaluation

/-! ## Relations that conversions respect -/

/-- A relation between computations under given options that everything respects which conversions of
types are put together from. -/
structure TypeSimulation (host : Host) (options : Options) where
  /-- The first computation is like the second one. -/
  Rel : {α : Type} → Eval α → Eval α → Prop
  pure : ∀ {α : Type} (a : α), Rel (Pure.pure a) (Pure.pure a)
  bind : ∀ {α β : Type} {m m' : Eval α} {f f' : α → Eval β}, Rel m m' →
    (∀ a, Rel (f a) (f' a)) → Rel (m >>= f) (m' >>= f')
  read : ∀ {α : Type} {f f' : Options → Eval α}, Rel (f options) (f' options) →
    Rel (Eval.options >>= f) (Eval.options >>= f')
  register : ∀ {id name target arguments body},
    host.types.get? id = some (.application name target arguments body) →
    Rel (Evaluation.registerInstance host id name target body)
      (Evaluation.registerInstance host id name target body)

namespace TypeSimulation

open Evaluation

variable {host : Host} {options : Options} {S : TypeSimulation host options} {α β : Type}

lemma map {m m' : Eval α} (h : S.Rel m m') {f : α → β} :
    S.Rel (m >>= fun a => Pure.pure (f a)) (m' >>= fun a => Pure.pure (f a)) :=
  S.bind h fun a => S.pure (f a)

lemma mapM {items : List α} {f f' : α → Eval β} (h : ∀ a ∈ items, S.Rel (f a) (f' a)) :
    S.Rel (items.mapM f) (items.mapM f') := by
  induction items with
  | nil => exact S.pure []
  | cons a rest ih =>
    rw [List.mapM_cons, List.mapM_cons]
    exact S.bind (h a (List.mem_cons_self ..)) fun b =>
      map (ih fun d hd => h d (List.mem_cons_of_mem _ hd))

lemma cap : S.Rel Eval.cap Eval.cap := S.read (S.pure _)

section

variable {e e' : Evaluator} {b b' : Branch} {id : TypeId}

lemma rel_convertElement {x : TupleElement}
    (h : S.Rel (e.type b x.type none) (e'.type b' x.type none)) :
    S.Rel (convertElement e b x) (convertElement e' b' x) := by
  refine S.bind h fun schema => ?_
  split
  · split
    · exact S.pure _
    · exact S.pure _
  · exact S.pure _

lemma rel_convertSignature {s : Signature}
    (h : ∀ part ∈ signatureTypes s, S.Rel (e.type b part none) (e'.type b' part none)) :
    S.Rel (convertSignature e b s) (convertSignature e' b' s) := by
  refine S.bind (mapM fun p hp => map (h p.type ?_)) fun _ => map (h s.result ?_)
  · exact List.mem_append_left _ (List.mem_map_of_mem hp)
  · exact List.mem_append_right _ (List.mem_singleton_self _)

lemma rel_convertObject {type : ObjectType} (hliteral : type.literal = none)
    (h : ∀ part ∈ objectParts host options id type,
      S.Rel (e.type b part none) (e'.type b' part none)) :
    S.Rel (convertObject host e b id type) (convertObject host e' b' id type) := by
  refine S.read ?_
  rcases hname : type.name.filter options.isWellKnown with _ | name
  · rcases hsignatures : host.types.signatures id with _ | ⟨first, rest⟩
    · simp only [objectParts, hname, hsignatures] at h
      rw [hliteral]
      refine S.bind (mapM fun p hp => map (h (propertyType host p) ?_)) fun _ =>
        map (mapM fun i hi => S.bind (h i.key ?_) fun _ => map (h i.value ?_))
      · exact List.mem_append_left _ (List.mem_map_of_mem hp)
      · exact List.mem_append_right _ (List.mem_flatMap.2 ⟨i, hi, by simp⟩)
      · exact List.mem_append_right _ (List.mem_flatMap.2 ⟨i, hi, by simp⟩)
    · simp only [objectParts, hname, hsignatures] at h
      refine map (mapM fun s hs => rel_convertSignature fun part hpart => h part ?_)
      exact List.mem_flatMap.2 ⟨s, hs, hpart⟩
  · exact S.pure _

lemma rel_convertApplication {name : String} {target : TypeId} {arguments : List TypeId}
    {body : TypeId} (hid : host.types.get? id = some (.application name target arguments body))
    (h : ∀ part ∈ arguments, S.Rel (e.type b part none) (e'.type b' part none)) :
    S.Rel (convertApplication host e b id name target arguments body)
      (convertApplication host e' b' id name target arguments body) := by
  rw [Simulation.convertApplication_eq, Simulation.convertApplication_eq]
  refine S.bind (mapM h) fun items => ?_
  let rest : Options → Eval Schema := fun options =>
    if options.isWellKnown name then Pure.pure (.wellKnown name items)
    else do
      let key ← registerInstance host id name target body
      Pure.pure (.reference name items key)
  show S.Rel (Eval.options >>= rest) (Eval.options >>= rest)
  refine S.read ?_
  show S.Rel (if options.isWellKnown name then _ else _) (if options.isWellKnown name then _ else _)
  split
  · exact S.pure _
  · exact map (S.register hid)

/-- Conversions of a type are alike if those of its parts are, unless an array literal is given. -/
lemma rel_convertForm (hhost : host.LiteralFree) {form : TypeForm}
    (hid : host.types.get? id = some form) {node : Option NodeId} (hnode : host.Bare node)
    (h : ∀ part ∈ formParts host options id form,
      S.Rel (e.type b part none) (e'.type b' part none)) :
    S.Rel (convertForm host e b id node form) (convertForm host e' b' id node form) := by
  cases form with
  | intrinsic kind => exact S.pure _
  | literal value => exact S.pure _
  | template parts =>
    refine S.bind (mapM fun part hpart => ?_) fun _ => map cap
    cases part with
    | text value => exact S.pure _
    | type type => exact h type (List.mem_filterMap.2 ⟨_, hpart, rfl⟩)
  | union members => exact map (mapM h)
  | intersection members => exact map (mapM h)
  | tuple elements =>
    exact map (mapM fun x hx => rel_convertElement (h x.type (List.mem_map_of_mem hx)))
  | array element =>
    simp only [convertForm]
    split
    · exact absurd ‹_› (hnode _)
    · exact map (h element (List.mem_singleton_self _))
  | object type => exact rel_convertObject (hhost id type hid) h
  | keyOf subject => exact map (h subject (List.mem_singleton_self _))
  | access target key =>
    exact S.bind (h target (by simp [formParts])) fun _ => map (h key (by simp [formParts]))
  | parameter name constraint =>
    cases constraint with
    | none => exact S.pure _
    | some constraint => exact h constraint (List.mem_singleton_self _)
  | application name target arguments body => exact rel_convertApplication hid h

end

end TypeSimulation

end ValueSchema
