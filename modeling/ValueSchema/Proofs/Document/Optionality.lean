/-
# Which properties a document asks for

A document asks for the properties of an object whose schemas do not name `undefined`, neither alone
nor as a member of a union.  A schema may admit `undefined` without naming it: by a type that
includes it, or by a member of a member.  Such a property may be missing from a value, and the
document asks for it all the same.  For every other property the document asks just if its schema
does not admit `undefined`.
-/
import ValueSchema.Proofs.Document.Validation

namespace ValueSchema

/-- The names that a document asks for. -/
def Json.requiredNames (document : Json) : List String :=
  (((document.get? "required").bind toList?).getD []).filterMap toString?

namespace Schema

/-! ## Schemas that admit `undefined` -/

/-- Whether `undefined` stands among the alternatives of a schema. -/
def namesUndefined (s : Schema) : Bool := s.alternatives.any isUndefined

/-- A schema admits `undefined` if and only if one of its alternatives does. -/
lemma acceptsUndefined_iff {s : Schema} :
    s.acceptsUndefined = true ↔ ∃ t ∈ s.alternatives, t.acceptsUndefined = true := by
  have hany : ∀ items : List Schema, anyAcceptsUndefined items = true ↔
      ∃ t ∈ items, t.acceptsUndefined = true := by
    intro items
    induction items with
    | nil => simp [anyAcceptsUndefined]
    | cons t rest ih => simp [anyAcceptsUndefined, ih]
  cases s with
  | union items => exact hany items
  | _ => simp [alternatives]

lemma acceptsUndefined_of_isUndefined {s : Schema} (h : s.isUndefined = true) :
    s.acceptsUndefined = true := by
  unfold isUndefined at h
  split at h
  · rfl
  · cases h

lemma acceptsUndefined_of_namesUndefined {s : Schema} (h : s.namesUndefined = true) :
    s.acceptsUndefined = true := by
  obtain ⟨t, ht, hundefined⟩ := List.any_eq_true.1 h
  exact acceptsUndefined_iff.2 ⟨t, ht, acceptsUndefined_of_isUndefined hundefined⟩

/-! ## The list of names -/

variable {defined : String → Bool}

lemma namesUndefined_of_not_union {s : Schema} (h : ∀ items, s ≠ union items) :
    s.namesUndefined = s.isUndefined := by
  cases s with
  | union items => exact absurd rfl (h items)
  | _ => simp [namesUndefined, alternatives]

/-- A property is asked for if its schema does not name `undefined`. -/
lemma required_propertyDocument (name : String) (s : Schema) :
    (propertyDocument defined name s).required = !s.namesUndefined := by
  unfold propertyDocument
  split
  · rename_i members
    rw [zip_describeAll, unionProperty]
    simp only [List.filter_map, Function.comp_def, List.length_map]
    rw [Bool.eq_iff_iff, beq_iff_eq, List.length_filter_eq_length_iff]
    simp [namesUndefined, alternatives]
  · rfl
  · rename_i hunion hliteral
    rw [namesUndefined_of_not_union hunion, isUndefined]
    · rfl
    · exact hliteral

/-- An object asks for the properties that are required, -/
lemma requiredNames_objectKeywords (properties : List PropertyDocument)
    (indexKeys : List (Schema × Json)) {others : List (String × Json)}
    (hothers : "required" ∉ Entries.names others) :
    (Json.obj (objectKeywords properties indexKeys ++ others)).requiredNames =
      (properties.filter (·.required)).map (·.name) := by
  have hproperties : Entries.get? "required" (if properties.isEmpty then []
      else [("properties", Json.obj (properties.map fun p => (p.name, p.value)))]) = none := by
    split <;> rfl
  have htail : Entries.get? "required" (indexKeywords indexKeys ++ others) = none := by
    refine Entries.get?_eq_none_iff.2 fun hin => ?_
    rw [Entries.names, List.map_append] at hin
    rcases List.mem_append.1 hin with hindex | hrest
    · exact absurd (names_indexKeywords indexKeys hindex) (by decide)
    · exact hothers hrest
  have htype : Entries.get? "required" [("type", Json.str "object")] = none := rfl
  rw [Json.requiredNames, Json.get?, objectKeywords, List.append_assoc, List.append_assoc,
    List.append_assoc, Entries.get?_append, Entries.get?_append, Entries.get?_append, htail, htype,
    hproperties, Option.none_or, Option.none_or, Option.or_none]
  -- the keyword is left out if there is nothing to ask for
  cases properties.filter (·.required) with
  | nil => rfl
  | cons p rest =>
    change ((p :: rest).map fun p => Json.str p.name).filterMap Json.toString? = _
    rw [List.filterMap_map]
    exact congrFun (List.filterMap_eq_map (f := PropertyDocument.name)) (p :: rest)

end Schema

namespace Bundle

open Schema

/-- which are those whose schemas do not name `undefined`, in their order. -/
lemma requiredNames_document {b : Bundle} {properties : List (String × Schema)}
    {indexKeys : List (Schema × Schema)} (hroot : b.root = .object properties indexKeys) :
    b.document.requiredNames =
      Entries.names (properties.filter fun e => !e.2.namesUndefined) := by
  obtain ⟨entries, hentries, -, hdocument⟩ := b.exists_document_eq
  rw [hroot, describe, objectDocument_eq] at hentries
  obtain rfl := Json.obj.inj hentries
  rw [hdocument, requiredNames_objectKeywords]
  · rw [describeProperties_eq_map, List.filter_map, List.map_map]
    simp only [Function.comp_def, required_propertyDocument, name_propertyDocument]
    rfl
  · split <;> simp [Entries.names]

/-- The document of an object asks for a property if and only if its schema does not name
`undefined`.  This agrees with whether the schema does not admit `undefined`, unless the schema
admits it without naming it. -/
theorem mem_requiredNames_iff {b : Bundle} {properties : List (String × Schema)}
    {indexKeys : List (Schema × Schema)} (hroot : b.root = .object properties indexKeys)
    (hnames : (Entries.names properties).Nodup) {name : String} {s : Schema}
    (hs : (name, s) ∈ properties) :
    (name ∈ b.document.requiredNames ↔ s.namesUndefined = false) ∧
      ((name ∈ b.document.requiredNames ↔ s.acceptsUndefined = false) ↔
        (s.acceptsUndefined = true → s.namesUndefined = true)) := by
  have hmem : name ∈ b.document.requiredNames ↔ s.namesUndefined = false := by
    rw [requiredNames_document hroot, Entries.names, List.mem_map]
    constructor
    · rintro ⟨e, he, rfl⟩
      obtain ⟨hproperty, hrequired⟩ := List.mem_filter.1 he
      have hvalue : s = e.2 := Option.some_inj.1
        ((Entries.get?_of_mem hnames hs).symm.trans (Entries.get?_of_mem hnames hproperty))
      rw [hvalue]
      simpa using hrequired
    · intro h
      exact ⟨(name, s), List.mem_filter.2 ⟨hs, by rw [h]; rfl⟩, rfl⟩
  have hnamed := acceptsUndefined_of_namesUndefined (s := s)
  refine ⟨hmem, ?_⟩
  rw [hmem]
  cases ha : s.acceptsUndefined <;> cases hn : s.namesUndefined <;> simp_all

/-- Anything under `extra`; under `label` a text, or nothing; under `size` a text, a number, or
nothing, where the last two are a union inside the union. -/
def settings : List (String × Schema) :=
  [("extra", .any), ("label", .union [.plain .string, .undefined]),
    ("size", .union [.union [.plain .number, .undefined], .plain .string])]

theorem mem_requiredNames_settings :
    let document := Bundle.document ⟨.object settings [], []⟩
    "extra" ∈ document.requiredNames ∧ "label" ∉ document.requiredNames ∧
      "size" ∈ document.requiredNames ∧ settings.all (·.2.acceptsUndefined) = true := by
  have hnames : (Entries.names settings).Nodup := by decide
  have hiff : ∀ e ∈ settings, e.1 ∈ (Bundle.document ⟨.object settings [], []⟩).requiredNames ↔
      e.2.namesUndefined = false := fun e he => (mem_requiredNames_iff rfl hnames he).1
  refine ⟨(hiff _ (.head _)).2 rfl, fun hlabel => ?_, (hiff _ (.tail _ (.tail _ (.head _)))).2 rfl,
    rfl⟩
  exact absurd ((hiff _ (.tail _ (.head _))).1 hlabel) (by decide)

end Bundle

end ValueSchema
