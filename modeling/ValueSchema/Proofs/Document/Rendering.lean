/-
# What is rendered in a document

Not every schema inside another one has a document of its own in the document of the whole.  What
JSON cannot express is written as a text, most types of the library leave out their arguments, and
of several open keys with one pattern the last one takes the place.  `Schema.Renders` says which
schemas are rendered.

Their documents stand inside the document of the whole, `Schema.Renders.inside_describe`.  And every
reference that stands there comes from a schema that is rendered and refers to a definition,
`Schema.refersTo_describe`.
-/
import ValueSchema.Proofs.Document.Basic

namespace ValueSchema

namespace Json

/-! ## The documents inside a document -/

/-- The documents directly under a keyword. -/
def under (keyword : String) (argument : Json) : List Json :=
  match keyword, argument with
  | "properties", obj entries => Entries.values entries
  | "patternProperties", obj entries => Entries.values entries
  | "$defs", obj entries => Entries.values entries
  | "anyOf", arr items => items
  | "allOf", arr items => items
  | "prefixItems", arr items => items
  | "items", j => [j]
  | "additionalProperties", j => [j]
  | "not", j => [j]
  | _, _ => []

/-- Keywords whose arguments hold no documents. -/
def leafKeywords : List String :=
  ["type", "const", "enum", "required", "pattern", "format", "minItems", "maxItems", "uniqueItems",
    "title", "description", "$comment", "$ref"]

lemma under_leaf {keyword : String} (h : keyword ∈ leafKeywords) (argument : Json) :
    under keyword argument = [] := by
  simp only [leafKeywords, List.mem_cons, List.not_mem_nil, or_false] at h
  rcases h with rfl | rfl | rfl | rfl | rfl | rfl | rfl | rfl | rfl | rfl | rfl | rfl | rfl <;> rfl

@[simp] lemma under_properties (entries : List (String × Json)) :
    under "properties" (.obj entries) = Entries.values entries := rfl

@[simp] lemma under_anyOf (items : List Json) : under "anyOf" (.arr items) = items := rfl

@[simp] lemma under_allOf (items : List Json) : under "allOf" (.arr items) = items := rfl

@[simp] lemma under_prefixItems (items : List Json) :
    under "prefixItems" (.arr items) = items := rfl

@[simp] lemma under_items (j : Json) : under "items" j = [j] := rfl

@[simp] lemma under_additionalProperties (j : Json) : under "additionalProperties" j = [j] := rfl

@[simp] lemma under_not (j : Json) : under "not" j = [j] := rfl

/-- A document stands inside another one, or is the same. -/
inductive Inside (d : Json) : Json → Prop
  | self : Inside d d
  | under {entries : List (String × Json)} {e : String × Json} {j : Json} (he : e ∈ entries)
      (hj : j ∈ under e.1 e.2) (h : Inside d j) : Inside d (obj entries)

lemma Inside.trans {a b c : Json} (h : Inside a b) (h' : Inside b c) : Inside a c := by
  induction h' with
  | self => exact h
  | under he hj _ ih => exact .under he hj ih

/-- What stands directly under a keyword of a document stands inside of it. -/
lemma inside_of_under {entries : List (String × Json)} {d : Json} (keyword : String)
    (argument : Json) (he : (keyword, argument) ∈ entries) (hd : d ∈ under keyword argument) :
    Inside d (obj entries) := .under he hd .self

end Json

namespace Schema

/-! ## Rendered schemas -/

/-- Whether a schema is a value of JSON: a union of such schemas is an enumeration. -/
def isValue (s : Schema) : Bool := (s.literal?.bind constant?).isSome

/-- What a property is if it is there. -/
def definedAlternatives (s : Schema) : List Schema := s.alternatives.filter fun t => !t.isUndefined

/-- The argument of a type of the library from which its document is made, if there is one. -/
def libraryArgument? {α : Type} (name : String) (arguments : List α) : Option α :=
  match name with
  | "Array" | "ReadonlyArray" | "Set" | "ReadonlySet" | "Promise" | "PromiseLike" => arguments[0]?
  | "Map" | "ReadonlyMap" => arguments[1]?
  | _ => none

/-- A schema is rendered in another one, where `defined` tells which ids have a definition: it is
the same, or it is rendered in one of the schemas that have a document in that of the other one. -/
inductive Renders (defined : String → Bool) (t : Schema) : Schema → Prop
  | self : Renders defined t t
  | member {items : List Schema} {s : Schema} (hs : s ∈ items)
      (hvalues : ∃ u ∈ items, u.isValue = false) (h : Renders defined t s) :
      Renders defined t (union items)
  | part {items : List Schema} {s : Schema} (hs : s ∈ items) (h : Renders defined t s) :
      Renders defined t (intersection items)
  | element {items : List Schema} {flags : List ElementFlag} {flag : ElementFlag} {s : Schema}
      (hs : (flag, s) ∈ flags.zip items) (hflag : flag ≠ .rest) (h : Renders defined t s) :
      Renders defined t (tuple items flags)
  /-- Of several elements that stand for the rest, the last one is rendered. -/
  | rest {items : List Schema} {flags : List ElementFlag} {s : Schema}
      {earlier later : List (ElementFlag × Schema)}
      (hs : flags.zip items = earlier ++ (.rest, s) :: later) (hlast : ∀ e ∈ later, e.1 ≠ .rest)
      (h : Renders defined t s) : Renders defined t (tuple items flags)
  | item {s : Schema} (hitem : s.isPrimitive .never = false) (h : Renders defined t s) :
      Renders defined t (array s)
  /-- Of a property, its only alternative besides `undefined` is rendered, or else those
  alternatives are rendered like a union. -/
  | property {properties : List (String × Schema)} {indexKeys : List (Schema × Schema)}
      {e : String × Schema} {s : Schema} (he : e ∈ properties) (hs : s ∈ e.2.definedAlternatives)
      (hvalues : e.2.definedAlternatives = [s] ∨ ∃ u ∈ e.2.definedAlternatives, u.isValue = false)
      (h : Renders defined t s) : Renders defined t (object properties indexKeys)
  /-- Of several open keys with one pattern, the value of the last one is rendered. -/
  | openKey {properties : List (String × Schema)} {indexKeys : List (Schema × Schema)}
      {e : Schema × Schema} {earlier later : List (Schema × Schema)}
      (he : indexKeys = earlier ++ e :: later)
      (hlast : ∀ f ∈ later, ∀ p, keyText? e.1 = some p → keyText? f.1 ≠ some p)
      (h : Renders defined t e.2) : Renders defined t (object properties indexKeys)
  | operand {op : BinaryOperator} {left right s : Schema} (hkind : binaryKind op left right = none)
      (hs : s = left ∨ s = right) (h : Renders defined t s) :
      Renders defined t (binary op left right)
  | argument {name : String} {arguments : List Schema} {id : String} {s : Schema}
      (hid : defined id = false) (hs : libraryArgument? name arguments = some s)
      (h : Renders defined t s) : Renders defined t (reference name arguments id)

lemma libraryArgument?_map {α β : Type} (name : String) (f : α → β) (arguments : List α) :
    libraryArgument? name (arguments.map f) = (libraryArgument? name arguments).map f := by
  unfold libraryArgument?
  split <;> simp

lemma mem_of_libraryArgument? {α : Type} {name : String} {arguments : List α} {a : α}
    (h : libraryArgument? name arguments = some a) : a ∈ arguments := by
  unfold libraryArgument? at h
  split at h
  case h_9 => cases h
  all_goals exact List.mem_of_getElem? h

/-! ## Documents inside the documents of the kinds -/

section

variable {j : Json}

lemma mapM_eq_none_iff {α β : Type} {f : α → Option β} {items : List α} :
    items.mapM f = none ↔ ∃ a ∈ items, f a = none := by
  induction items with
  | nil => simp
  | cons a rest ih =>
    rw [List.mapM_cons]
    rcases ha : f a with _ | b
    · simp [ha]
    · rcases hrest : rest.mapM f with _ | l
      · simpa [ha] using ih.1 hrest
      · have hall := (not_congr ih).1 (by rw [hrest]; exact Option.some_ne_none l)
        simpa [ha] using hall

/-- Members that are not all values are written as a choice. -/
lemma unionDocument_eq {members : List (Schema × Json)}
    (h : ∃ m ∈ members, m.1.isValue = false) :
    unionDocument members = .obj [("anyOf", .arr (members.map (·.2)))] := by
  have hnone : (members.mapM fun m => m.1.literal?.bind constant?) = none := by
    obtain ⟨m, hm, hvalue⟩ := h
    exact mapM_eq_none_iff.2 ⟨m, hm, Option.not_isSome_iff_eq_none.1 (Bool.not_eq_true _ ▸ hvalue)⟩
  rw [unionDocument, hnone]

lemma inside_unionDocument {members : List (Schema × Json)} {m : Schema × Json} (hm : m ∈ members)
    (h : ∃ m ∈ members, m.1.isValue = false) : Json.Inside m.2 (unionDocument members) := by
  rw [unionDocument_eq h]
  exact Json.inside_of_under _ _ (List.mem_singleton_self _) (List.mem_map_of_mem hm)

lemma getLast?_filter_eq_some_iff {α : Type} {p : α → Bool} {items : List α} {a : α} :
    (items.filter p).getLast? = some a ↔ p a = true ∧
      ∃ earlier later, items = earlier ++ a :: later ∧ ∀ b ∈ later, p b = false := by
  rw [List.getLast?_eq_head?_reverse, ← List.filter_reverse, List.head?_filter,
    List.find?_eq_some_iff_append]
  refine and_congr_right fun _ => ⟨?_, ?_⟩
  · rintro ⟨later, earlier, hitems, hlater⟩
    refine ⟨earlier.reverse, later.reverse, ?_, ?_⟩
    · rw [← List.reverse_reverse items, hitems]
      simp
    · simpa using hlater
  · rintro ⟨earlier, later, rfl, hlater⟩
    exact ⟨later.reverse, earlier.reverse, by simp, by simpa using hlater⟩

lemma inside_tupleDocument {elements : List (ElementFlag × Json)} {e : ElementFlag × Json}
    (he : e ∈ elements) (hflag : e.1 ≠ .rest) : Json.Inside e.2 (tupleDocument elements) := by
  have hfront : e.2 ∈ (elements.filter fun e => e.1 ≠ .rest).map (·.2) :=
    List.mem_map_of_mem (List.mem_filter.2 ⟨he, decide_eq_true hflag⟩)
  unfold tupleDocument
  split
  all_goals exact Json.inside_of_under "prefixItems" (.arr _) (by simp) hfront

lemma inside_tupleDocument_rest {elements : List (ElementFlag × Json)} {e : ElementFlag × Json}
    (h : (elements.filter fun e => e.1 = .rest).getLast? = some e) :
    Json.Inside e.2 (tupleDocument elements) := by
  unfold tupleDocument
  rw [h]
  exact Json.inside_of_under "items" e.2 (by simp) (List.mem_singleton_self _)

section

variable {properties : List PropertyDocument} {indexKeys : List (Schema × Json)}

lemma inside_objectDocument_property {p : PropertyDocument} (hp : p ∈ properties) :
    Json.Inside p.value (objectDocument properties indexKeys) := by
  have hvalue : p.value ∈ Entries.values (properties.map fun p => (p.name, p.value)) := by
    rw [Entries.values, List.map_map]
    exact List.mem_map_of_mem hp
  rw [objectDocument_eq]
  refine Json.inside_of_under "properties" (.obj _) ?_ hvalue
  have hsome : properties.isEmpty = false := List.isEmpty_eq_false_iff_exists_mem.2 ⟨p, hp⟩
  simp [objectKeywords, hsome]

lemma inside_objectDocument_pattern {e : String × Json} (he : e ∈ patternDocuments indexKeys) :
    Json.Inside e.2 (objectDocument properties indexKeys) := by
  rw [objectDocument_eq]
  refine Json.inside_of_under "patternProperties" (.obj _) ?_ (List.mem_map_of_mem he)
  have hsome : (patternDocuments indexKeys).isEmpty = false :=
    List.isEmpty_eq_false_iff_exists_mem.2 ⟨e, he⟩
  simp [objectKeywords, indexKeywords_eq, patternKeyword, hsome]

lemma inside_objectDocument_other (hj : j ∈ otherDocuments indexKeys) :
    Json.Inside j (objectDocument properties indexKeys) := by
  obtain ⟨k, hk, hinside⟩ : ∃ k, ("additionalProperties", k) ∈
      additionalKeyword (otherDocuments indexKeys) ∧ Json.Inside j k := by
    unfold additionalKeyword
    split
    · simp_all
    · rename_i d heq
      rw [heq, List.mem_singleton] at hj
      exact ⟨d, List.mem_singleton_self _, hj ▸ .self⟩
    · exact ⟨_, List.mem_singleton_self _,
        Json.inside_of_under "anyOf" (.arr _) (List.mem_singleton_self _) hj⟩
  have hkeyword : ("additionalProperties", k) ∈ objectKeywords properties indexKeys := by
    rw [objectKeywords, indexKeywords_eq]
    exact List.mem_append_right _ (List.mem_append_right _ hk)
  rw [objectDocument_eq]
  exact .under hkeyword (List.mem_singleton_self k) hinside

end

lemma inside_libraryDocument {name : String} {arguments : List Json}
    (h : libraryArgument? name arguments = some j) :
    Json.Inside j (libraryDocument name arguments) := by
  have hget : ∀ {i : Nat}, arguments[i]? = some j → arguments[i]?.getD (.obj []) = j := fun hi => by
    rw [hi, Option.getD_some]
  have hitems : ∀ {others}, arguments[0]? = some j → Json.Inside j
      (.obj (("type", .str "array") :: ("items", arguments[0]?.getD (.obj [])) :: others)) :=
    fun hfirst => Json.inside_of_under "items" _ (List.mem_cons_of_mem _ (List.mem_cons_self ..))
      (List.mem_singleton.2 (hget hfirst).symm)
  unfold libraryArgument? at h
  split at h
  · exact hitems h
  · exact hitems h
  · exact hitems h
  · exact hitems h
  · exact (hget h).symm ▸ .self
  · exact (hget h).symm ▸ .self
  · exact Json.inside_of_under "additionalProperties" _ (List.mem_cons_of_mem _
      (List.mem_singleton_self _)) (List.mem_singleton.2 (hget h).symm)
  · exact Json.inside_of_under "additionalProperties" _ (List.mem_cons_of_mem _
      (List.mem_singleton_self _)) (List.mem_singleton.2 (hget h).symm)
  · cases h

end

/-! ## Documents of rendered schemas -/

section

variable {defined : String → Bool} {s t : Schema}

/-- The documents under patterns are those of the last entries with their patterns. -/
lemma mem_patternDocuments_iff {indexKeys : List (Schema × Schema)} {text : String} {d : Json} :
    (text, d) ∈ patternDocuments (describeKeys defined indexKeys) ↔
      ∃ earlier e later, indexKeys = earlier ++ e :: later ∧ keyText? e.1 = some text ∧
        e.2.describe defined = d ∧ ∀ f ∈ later, keyText? f.1 ≠ some text := by
  rw [patternDocuments, describeKeys_eq_map, List.filterMap_map, Entries.mem_ofList_filterMap_iff]
  simp only [Function.comp_apply, ne_eq, Option.map_eq_some_iff, Prod.mk.injEq]
  constructor
  · rintro ⟨earlier, e, later, hsplit, ⟨_, htext, rfl, hd⟩, hlast⟩
    exact ⟨earlier, e, later, hsplit, htext, hd,
      fun f hf hsame => hlast f hf _ ⟨_, hsame, rfl, rfl⟩⟩
  · rintro ⟨earlier, e, later, hsplit, htext, hd, hlast⟩
    refine ⟨earlier, e, later, hsplit, ⟨_, htext, rfl, hd⟩, ?_⟩
    rintro f hf w ⟨_, hsame, rfl, -⟩
    exact hlast f hf hsame

lemma mem_otherDocuments_iff {indexKeys : List (Schema × Schema)} {d : Json} :
    d ∈ otherDocuments (describeKeys defined indexKeys) ↔
      ∃ e ∈ indexKeys, keyText? e.1 = none ∧ e.2.describe defined = d := by
  rw [otherDocuments, describeKeys_eq_map, List.mem_map]
  constructor
  · rintro ⟨_, hmem, rfl⟩
    obtain ⟨hmap, hnone⟩ := List.mem_filter.1 hmem
    obtain ⟨e, he, rfl⟩ := List.mem_map.1 hmap
    exact ⟨e, he, Option.isNone_iff_eq_none.1 hnone, rfl⟩
  · rintro ⟨e, he, hnone, rfl⟩
    exact ⟨_, List.mem_filter.2 ⟨List.mem_map_of_mem he, Option.isNone_iff_eq_none.2 hnone⟩, rfl⟩

/-- The document of a property is made from its alternatives besides `undefined`. -/
lemma value_propertyDocument (name : String) (s : Schema) :
    (propertyDocument defined name s).value = match s.definedAlternatives with
      | [] => nothing
      | [u] => u.describe defined
      | us => unionDocument (us.map fun u => (u, u.describe defined)) := by
  unfold propertyDocument
  split
  · rename_i members
    have hdefined : (members.map fun t => (t, t.describe defined)).filter
        (fun m => !m.1.isUndefined) =
          (union members).definedAlternatives.map fun t => (t, t.describe defined) := by
      rw [List.filter_map]
      rfl
    simp only [zip_describeAll, unionProperty, hdefined]
    rcases (union members).definedAlternatives with _ | ⟨u, _ | ⟨v, us⟩⟩ <;> rfl
  · rfl
  · rename_i hunion hundefined
    have hdefined : s.definedAlternatives = [s] := by
      cases s with
      | union items => exact absurd rfl (hunion items)
      | literal value => cases value <;> first | rfl | exact absurd rfl hundefined
      | _ => rfl
    rw [hdefined]

lemma inside_propertyDocument {name : String} {u : Schema} (hu : u ∈ s.definedAlternatives)
    (hvalues : s.definedAlternatives = [u] ∨ ∃ v ∈ s.definedAlternatives, v.isValue = false) :
    Json.Inside (u.describe defined) (propertyDocument defined name s).value := by
  rw [value_propertyDocument]
  split
  · rename_i heq
    simp [heq] at hu
  · rename_i v heq
    rw [heq, List.mem_singleton] at hu
    exact hu ▸ .self
  · rename_i us _ hne
    rcases hvalues with hone | ⟨v, hv, hvalue⟩
    · exact absurd hone (hne u)
    · exact inside_unionDocument (m := (u, u.describe defined)) (List.mem_map_of_mem hu)
        ⟨_, List.mem_map_of_mem hv, hvalue⟩

/-- The document of a rendered schema stands inside the document of the whole. -/
theorem Renders.inside_describe (h : Renders defined t s) :
    Json.Inside (t.describe defined) (s.describe defined) := by
  -- the induction goes down to the rendered schema, so only one level is looked at in each case
  induction h with
  | self => exact .self
  | @member items s hs hvalues _ ih =>
    obtain ⟨u, hu, hvalue⟩ := hvalues
    rw [describe, zip_describeAll]
    exact ih.trans (inside_unionDocument (m := (s, s.describe defined)) (List.mem_map_of_mem hs)
      ⟨_, List.mem_map_of_mem hu, hvalue⟩)
  | @part items s hs _ ih =>
    refine ih.trans (Json.inside_of_under "allOf" (.arr _) (List.mem_singleton_self _) ?_)
    rw [Json.under_allOf, describeAll_eq_map]
    exact List.mem_map_of_mem hs
  | @element items flags flag s hs hflag _ ih =>
    rw [describe, zip_flags_describeAll]
    exact ih.trans (inside_tupleDocument (e := (flag, s.describe defined))
      (List.mem_map_of_mem (f := fun e => (e.1, e.2.describe defined)) hs) hflag)
  | @rest items flags s earlier later hs hlast _ ih =>
    rw [describe, zip_flags_describeAll]
    refine ih.trans (inside_tupleDocument_rest (e := (.rest, s.describe defined)) ?_)
    refine getLast?_filter_eq_some_iff.2 ⟨rfl, earlier.map fun e => (e.1, e.2.describe defined),
      later.map fun e => (e.1, e.2.describe defined), by rw [hs]; simp, ?_⟩
    exact List.forall_mem_map.2 fun e he => decide_eq_false (hlast e he)
  | @item s hitem _ ih =>
    rw [describe, if_neg (by simp [hitem])]
    exact ih.trans (Json.inside_of_under "items" _ (by simp) (List.mem_singleton_self _))
  | @property properties indexKeys e s he hs hvalues _ ih =>
    rw [describe, describeProperties_eq_map]
    exact ih.trans ((inside_propertyDocument hs hvalues).trans
      (inside_objectDocument_property (List.mem_map_of_mem he)))
  | @openKey properties indexKeys e earlier later he hlast _ ih =>
    rw [describe]
    refine ih.trans ?_
    rcases htext : keyText? e.1 with _ | text
    · refine inside_objectDocument_other (mem_otherDocuments_iff.2 ⟨e, ?_, htext, rfl⟩)
      rw [he]
      exact List.mem_append_right _ (List.mem_cons_self ..)
    · exact inside_objectDocument_pattern (mem_patternDocuments_iff.2
        ⟨earlier, e, later, he, htext, rfl, fun f hf => hlast f hf text htext⟩)
  | @operand op left right s hkind hs _ ih =>
    rw [describe, hkind]
    refine ih.trans (Json.inside_of_under "anyOf" (.arr _) (List.mem_singleton_self _) ?_)
    rcases hs with rfl | rfl
    · exact List.mem_cons_self ..
    · exact List.mem_cons_of_mem _ (List.mem_singleton_self _)
  | @argument name arguments id s hid hs _ ih =>
    rw [describe, if_neg (by simp [hid]), describeAll_eq_map]
    exact ih.trans (inside_libraryDocument (by rw [libraryArgument?_map, hs, Option.map_some]))

end

/-! ## References -/

/-- All references inside a document are pointers to ids of some kind. -/
def RefersTo (kind : String → Prop) (j : Json) : Prop :=
  ∀ d, Json.Inside d j → ∀ k, d.get? "$ref" = some k → ∃ id, kind id ∧ k = .str (pointer id)

section

variable {kind : String → Prop}

/-- What a document without a reference of its own refers to is told by its keywords. -/
lemma refersTo_obj {entries : List (String × Json)} (hnames : "$ref" ∉ Entries.names entries)
    (h : ∀ e ∈ entries, ∀ j ∈ Json.under e.1 e.2, RefersTo kind j) :
    RefersTo kind (.obj entries) := by
  intro d hd k hk
  cases hd with
  | self =>
    have hnone : Entries.get? "$ref" entries = none := Entries.get?_eq_none_iff.2 hnames
    rw [Json.get?, hnone] at hk
    cases hk
  | under he hj hin => exact h _ he _ hj d hin k hk

lemma refersTo_empty : RefersTo kind (.obj []) :=
  refersTo_obj (by decide) (List.forall_mem_nil _)

lemma refersTo_bool (b : Bool) : RefersTo kind (.bool b) := by
  intro d hd k hk
  cases hd
  cases hk

lemma refersTo_nothing : RefersTo kind nothing := by
  refine refersTo_obj (by decide) ?_
  simpa only [List.mem_singleton, forall_eq, Json.under_not] using refersTo_empty

lemma refersTo_primitiveDocument (primitive : Primitive) :
    RefersTo kind (primitiveDocument primitive) := by
  cases primitive with
  | never => exact refersTo_nothing
  | _ => exact refersTo_obj (by decide) (by simp (disch := decide) [Json.under_leaf])

lemma refersTo_literalDocument (value : Literal) : RefersTo kind (literalDocument value) := by
  unfold literalDocument
  split
  case h_4 => exact refersTo_nothing
  all_goals
    exact refersTo_obj (by simp [Entries.names]) (by simp (disch := decide) [Json.under_leaf])

/-- A union refers to what its members refer to, unless it is an enumeration. -/
lemma refersTo_unionDocument {members : List (Schema × Json)}
    (h : (∃ m ∈ members, m.1.isValue = false) → ∀ m ∈ members, RefersTo kind m.2) :
    RefersTo kind (unionDocument members) := by
  by_cases hvalues : ∃ m ∈ members, m.1.isValue = false
  · rw [unionDocument_eq hvalues]
    refine refersTo_obj (by simp [Entries.names]) ?_
    simpa (disch := decide) [Json.under_leaf] using fun j s hm => h hvalues (s, j) hm
  · rw [unionDocument]
    split
    · exact refersTo_obj (by simp [Entries.names]) (by simp (disch := decide) [Json.under_leaf])
    · rename_i hnone
      obtain ⟨m, hm, hvalue⟩ := mapM_eq_none_iff.1 hnone
      exact absurd ⟨m, hm, by rw [isValue, hvalue]; rfl⟩ hvalues

lemma refersTo_tupleDocument {elements : List (ElementFlag × Json)}
    (hfront : ∀ e ∈ elements, e.1 ≠ .rest → RefersTo kind e.2)
    (hrest : ∀ e, (elements.filter fun e => e.1 = .rest).getLast? = some e → RefersTo kind e.2) :
    RefersTo kind (tupleDocument elements) := by
  have hmap : ∀ j ∈ (elements.filter fun e => e.1 ≠ .rest).map (·.2), RefersTo kind j :=
    List.forall_mem_map.2 fun e he =>
      hfront e (List.mem_of_mem_filter he) (of_decide_eq_true (List.mem_filter.1 he).2)
  unfold tupleDocument
  split
  · rename_i rest hlast
    refine refersTo_obj (by simp [Entries.names]) ?_
    simpa (disch := decide) [Json.under_leaf, hrest rest hlast] using hmap
  · refine refersTo_obj (by simp [Entries.names]) ?_
    simpa (disch := decide) [Json.under_leaf, refersTo_bool] using hmap

lemma refersTo_additionalKeyword {documents : List Json} (h : ∀ j ∈ documents, RefersTo kind j) :
    ∀ k ∈ additionalKeyword documents, ∀ j ∈ Json.under k.1 k.2, RefersTo kind j := by
  unfold additionalKeyword
  split
  · exact List.forall_mem_nil _
  · simpa using h
  · have hchoice : RefersTo kind (.obj [("anyOf", .arr documents)]) :=
      refersTo_obj (by simp [Entries.names]) (by simpa using h)
    simpa using hchoice

lemma refersTo_objectDocument {properties : List PropertyDocument}
    {indexKeys : List (Schema × Json)} (hproperties : ∀ p ∈ properties, RefersTo kind p.value)
    (hpatterns : ∀ e ∈ patternDocuments indexKeys, RefersTo kind e.2)
    (hothers : ∀ j ∈ otherDocuments indexKeys, RefersTo kind j) :
    RefersTo kind (objectDocument properties indexKeys) := by
  rw [objectDocument_eq]
  refine refersTo_obj (fun hin => absurd (names_objectKeywords _ _ hin) (by decide)) fun e he => ?_
  simp only [objectKeywords, indexKeywords_eq, List.mem_append] at he
  rcases he with ((htype | hprops) | hrequired) | hpattern | hadditional
  · obtain rfl := List.mem_singleton.1 htype
    exact List.forall_mem_nil _
  · split at hprops
    · cases hprops
    · obtain rfl := List.mem_singleton.1 hprops
      simpa (disch := decide) [Json.under_leaf, Entries.values] using hproperties
  · split at hrequired
    · cases hrequired
    · obtain rfl := List.mem_singleton.1 hrequired
      exact List.forall_mem_nil _
  · rw [patternKeyword] at hpattern
    split at hpattern
    · cases hpattern
    · obtain rfl := List.mem_singleton.1 hpattern
      exact List.forall_mem_map.2 hpatterns
  · exact refersTo_additionalKeyword hothers e hadditional

lemma refersTo_libraryDocument {name : String} {arguments : List Json}
    (h : ∀ j, libraryArgument? name arguments = some j → RefersTo kind j) :
    RefersTo kind (libraryDocument name arguments) := by
  have hargument : ∀ i : Nat, (∀ j, arguments[i]? = some j → RefersTo kind j) →
      RefersTo kind (arguments[i]?.getD (.obj [])) := by
    intro i hi
    rcases hget : arguments[i]? with _ | j
    · exact refersTo_empty
    · exact hi j hget
  unfold libraryDocument
  split
  case h_9 | h_10 => exact hargument 0 h
  case h_1 | h_2 | h_11 =>
    exact refersTo_obj (by simp [Entries.names]) (by simp (disch := decide) [Json.under_leaf])
  case h_3 | h_4 | h_5 | h_6 =>
    refine refersTo_obj (by simp [Entries.names]) ?_
    simpa (disch := decide) [Json.under_leaf] using hargument 0 h
  case h_7 | h_8 =>
    refine refersTo_obj (by simp [Entries.names]) ?_
    simpa (disch := decide) [Json.under_leaf] using hargument 1 h

end

/-- A reference with an id that has a definition is rendered in a schema. -/
def Mentions (defined : String → Bool) (s : Schema) (id : String) : Prop :=
  defined id = true ∧ ∃ name arguments, Renders defined (reference name arguments id) s

variable {defined : String → Bool}

/-- What a part refers to, the whole does, if what is rendered in the part is rendered in the
whole. -/
lemma RefersTo.of_renders {s t : Schema} {j : Json} (h : RefersTo (Mentions defined t) j)
    (hrenders : ∀ {r}, Renders defined r t → Renders defined r s) :
    RefersTo (Mentions defined s) j := by
  intro d hd k hk
  obtain ⟨id, ⟨hid, name, arguments, hr⟩, rfl⟩ := h d hd k hk
  exact ⟨id, ⟨hid, name, arguments, hrenders hr⟩, rfl⟩

lemma refersTo_value_propertyDocument {name : String} {s : Schema} {kind : String → Prop}
    (h : ∀ u ∈ s.definedAlternatives,
      (s.definedAlternatives = [u] ∨ ∃ v ∈ s.definedAlternatives, v.isValue = false) →
        RefersTo kind (u.describe defined)) :
    RefersTo kind (propertyDocument defined name s).value := by
  rw [value_propertyDocument]
  split
  · exact refersTo_nothing
  · rename_i u heq
    exact h u (heq ▸ List.mem_singleton_self u) (Or.inl heq)
  · refine refersTo_unionDocument fun hvalues => List.forall_mem_map.2 fun u hu => ?_
    obtain ⟨m, hm, hvalue⟩ := hvalues
    obtain ⟨v, hv, rfl⟩ := List.mem_map.1 hm
    exact h u hu (Or.inr ⟨v, hv, hvalue⟩)

/-- The document of a schema refers to what is rendered in it and has a definition. -/
def RefersToMentions (defined : String → Bool) (s : Schema) : Prop :=
  RefersTo (Mentions defined s) (s.describe defined)

lemma refersToMentions_union {items : List Schema} (h : ∀ t ∈ items, RefersToMentions defined t) :
    RefersToMentions defined (union items) := by
  rw [RefersToMentions, describe, zip_describeAll]
  refine refersTo_unionDocument fun hvalues => List.forall_mem_map.2 fun t ht => ?_
  obtain ⟨m, hm, hvalue⟩ := hvalues
  obtain ⟨u, hu, rfl⟩ := List.mem_map.1 hm
  exact (h t ht).of_renders (.member ht ⟨u, hu, hvalue⟩)

lemma refersToMentions_intersection {items : List Schema}
    (h : ∀ t ∈ items, RefersToMentions defined t) :
    RefersToMentions defined (intersection items) := by
  refine refersTo_obj (by simp [Entries.names]) ?_
  rw [describeAll_eq_map]
  simpa using fun t (ht : t ∈ items) => (h t ht).of_renders (.part ht)

lemma refersToMentions_tuple {items : List Schema} (flags : List ElementFlag)
    (h : ∀ t ∈ items, RefersToMentions defined t) :
    RefersToMentions defined (tuple items flags) := by
  rw [RefersToMentions, describe, zip_flags_describeAll]
  refine refersTo_tupleDocument (List.forall_mem_map.2 fun e he hflag => ?_) fun _ hlast => ?_
  · exact (h e.2 (List.of_mem_zip he).2).of_renders (.element he hflag)
  · -- of the elements for the rest, the document has the last one only
    rw [List.filter_map, List.getLast?_map] at hlast
    obtain ⟨⟨flag, t⟩, he, rfl⟩ := Option.map_eq_some_iff.1 hlast
    obtain ⟨hflag, earlier, later, hzip, hlater⟩ := getLast?_filter_eq_some_iff.1 he
    obtain rfl : flag = .rest := of_decide_eq_true hflag
    have ht : (ElementFlag.rest, t) ∈ flags.zip items := by simp [hzip]
    exact (h t (List.of_mem_zip ht).2).of_renders
      (.rest hzip fun b hb => of_decide_eq_false (hlater b hb))

lemma refersToMentions_array {item : Schema} (h : RefersToMentions defined item) :
    RefersToMentions defined (array item) := by
  rw [RefersToMentions, describe]
  split
  · exact refersTo_obj (by simp [Entries.names]) (by simp (disch := decide) [Json.under_leaf])
  · rename_i hitem
    have hinner := h.of_renders (.item (Bool.not_eq_true _ ▸ hitem))
    refine refersTo_obj (by simp [Entries.names]) ?_
    simpa (disch := decide) [Json.under_leaf] using hinner

lemma refersToMentions_object {properties : List (String × Schema)}
    {indexKeys : List (Schema × Schema)}
    (hproperties : ∀ e ∈ properties, ∀ t ∈ e.2.alternatives, RefersToMentions defined t)
    (hkeys : ∀ e ∈ indexKeys, RefersToMentions defined e.2) :
    RefersToMentions defined (object properties indexKeys) := by
  rw [RefersToMentions, describe, describeProperties_eq_map]
  refine refersTo_objectDocument (List.forall_mem_map.2 fun e he => ?_) ?_ ?_
  · exact refersTo_value_propertyDocument fun u hu hvalues =>
      (hproperties e he u (List.mem_of_mem_filter hu)).of_renders (.property he hu hvalues)
  · rintro ⟨text, _⟩ hmem
    obtain ⟨earlier, e, later, hsplit, htext, rfl, hlast⟩ := mem_patternDocuments_iff.1 hmem
    refine (hkeys e (by simp [hsplit])).of_renders (.openKey hsplit fun f hf p hp => ?_)
    obtain rfl := Option.some.inj (htext.symm.trans hp)
    exact hlast f hf
  · intro _ hmem
    obtain ⟨e, he, hnone, rfl⟩ := mem_otherDocuments_iff.1 hmem
    obtain ⟨earlier, later, hsplit⟩ := List.append_of_mem he
    -- no later key has the same pattern, as this one has none
    refine (hkeys e he).of_renders (.openKey hsplit fun f _ p hp => ?_)
    rw [hnone] at hp
    cases hp

lemma refersToMentions_binary {op : BinaryOperator} {left right : Schema}
    (hleft : RefersToMentions defined left) (hright : RefersToMentions defined right) :
    RefersToMentions defined (binary op left right) := by
  rw [RefersToMentions, describe]
  split
  · exact refersTo_primitiveDocument _
  · rename_i hkind
    refine refersTo_obj (by simp [Entries.names]) ?_
    simpa using And.intro (hleft.of_renders (.operand hkind (Or.inl rfl)))
      (hright.of_renders (.operand hkind (Or.inr rfl)))

lemma refersToMentions_reference {name id : String} {arguments : List Schema}
    (h : ∀ t ∈ arguments, RefersToMentions defined t) :
    RefersToMentions defined (reference name arguments id) := by
  rw [RefersToMentions, describe]
  split
  · -- the document is the pointer alone, and nothing stands inside of it
    rename_i hid
    intro d hd k hk
    cases hd with
    | self => exact ⟨id, ⟨hid, name, arguments, .self⟩, (Option.some.inj hk).symm⟩
    | under he hj =>
      obtain rfl := List.mem_singleton.1 he
      cases hj
  · rename_i hid
    refine refersTo_libraryDocument fun j hj => ?_
    rw [describeAll_eq_map, libraryArgument?_map] at hj
    obtain ⟨t, ht, rfl⟩ := Option.map_eq_some_iff.1 hj
    exact (h t (mem_of_libraryArgument? ht)).of_renders
      (.argument (Bool.not_eq_true _ ▸ hid) ht)

/-- The documents of a schema and of its alternatives refer to what is rendered in them. -/
lemma refersTo_describe (s : Schema) :
    RefersToMentions defined s ∧ ∀ t ∈ s.alternatives, RefersToMentions defined t := by
  -- the alternatives go along, since a property is described by the members of a union
  induction s using induction with
  | step s ih =>
    have hchild : ∀ t ∈ s.children, RefersToMentions defined t := fun t ht => (ih t ht).1
    have hmain : RefersToMentions defined s := by
      cases s with
      | primitive kind => exact refersTo_primitiveDocument kind
      | literal value => exact refersTo_literalDocument value
      | union items => exact refersToMentions_union hchild
      | intersection items => exact refersToMentions_intersection hchild
      | tuple items flags => exact refersToMentions_tuple flags hchild
      | array item => exact refersToMentions_array (hchild item (List.mem_singleton_self _))
      | object properties indexKeys =>
        refine refersToMentions_object (fun e he => ?_) fun e he => ?_
        · exact (ih e.2 (List.mem_append_left _ (List.mem_map_of_mem he))).2
        · exact hchild e.2 (List.mem_append_right _ (List.mem_flatMap.2 ⟨e, he, by simp⟩))
      | binary op left right =>
        exact refersToMentions_binary (hchild left (by simp [children]))
          (hchild right (by simp [children]))
      | reference name arguments id => exact refersToMentions_reference hchild
      | function | template | keys | access | error =>
        exact refersTo_obj (by simp [Entries.names]) (by simp (disch := decide) [Json.under_leaf])
    refine ⟨hmain, ?_⟩
    cases s with
    | union items => exact hchild
    | _ =>
      intro t ht
      obtain rfl := List.mem_singleton.1 ht
      exact hmain

end Schema

end ValueSchema
