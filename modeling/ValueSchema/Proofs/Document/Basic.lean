/-
# Documents, part by part

The document of a schema is an object of keywords, whose arguments are put together from the
documents of the schemas inside.  None of the keywords is `$defs`, so that the definitions can be
added to the document of any schema.
-/
import ValueSchema.Proofs.Entries
import ValueSchema.Proofs.Schema.Subterm
import ValueSchema.Schema.Document

namespace ValueSchema

namespace Schema

variable (defined : String → Bool)

lemma describeAll_eq_map (items : List Schema) :
    describeAll defined items = items.map (describe defined) := by
  induction items with
  | nil => rfl
  | cons s rest ih => rw [describeAll, ih, List.map_cons]

lemma zip_describeAll (items : List Schema) :
    items.zip (describeAll defined items) = items.map fun s => (s, s.describe defined) := by
  induction items with
  | nil => rfl
  | cons s rest ih => rw [describeAll, List.zip_cons_cons, ih, List.map_cons]

lemma zip_flags_describeAll (flags : List ElementFlag) (items : List Schema) :
    flags.zip (describeAll defined items) =
      (flags.zip items).map fun e => (e.1, e.2.describe defined) := by
  rw [describeAll_eq_map, List.zip_map_right]
  rfl

lemma describeKeys_eq_map (items : List (Schema × Schema)) :
    describeKeys defined items = items.map fun e => (e.1, e.2.describe defined) := by
  induction items with
  | nil => rfl
  | cons e rest ih => rw [describeKeys, ih, List.map_cons]

/-- A property as a document sees it. -/
def propertyDocument (name : String) : Schema → PropertyDocument
  | union members => unionProperty name (members.zip (describeAll defined members))
  | literal .undefined => ⟨name, false, nothing⟩
  | other => ⟨name, true, other.describe defined⟩

lemma name_propertyDocument (name : String) (s : Schema) :
    (propertyDocument defined name s).name = name := by
  unfold propertyDocument
  split <;> rfl

lemma describeProperties_eq_map (items : List (String × Schema)) :
    describeProperties defined items = items.map fun e => propertyDocument defined e.1 e.2 := by
  induction items with
  | nil => rfl
  | cons e rest ih =>
    obtain ⟨name, s⟩ := e
    rw [List.map_cons, ← ih]
    cases s with
    | literal value => cases value <;> rfl
    | _ => rfl

/-! ## Open keys -/

/-- The expression of the pattern of a key. -/
def keyText? : Schema → Option String
  | primitive .number _ => some Pattern.number.anchored
  | template items => some (Pattern.sequence (patterns items)).anchored
  | _ => none

section

variable (indexKeys : List (Schema × Json))

/-- The documents of the values whose keys have patterns. -/
def patternDocuments : Entries Json :=
  Entries.ofList (indexKeys.filterMap fun e => (keyText? e.1).map fun p => (p, e.2))

/-- The documents of the other values. -/
def otherDocuments : List Json := (indexKeys.filter fun e => (keyText? e.1).isNone).map (·.2)

/-- The keyword for documents under patterns. -/
def patternKeyword (patterns : Entries Json) : List (String × Json) :=
  if patterns.isEmpty then [] else [("patternProperties", .obj patterns)]

/-- The keyword for alternative documents under all other names. -/
def additionalKeyword : List Json → List (String × Json)
  | [] => []
  | [d] => [("additionalProperties", d)]
  | ds => [("additionalProperties", .obj [("anyOf", .arr ds)])]

lemma indexKeywords_eq : indexKeywords indexKeys =
    patternKeyword (patternDocuments indexKeys) ++ additionalKeyword (otherDocuments indexKeys) :=
  rfl

end

/-! ## Keywords -/

/-- A document that is an object, without definitions of its own. -/
def IsOpen (j : Json) : Prop := ∃ entries, j = .obj entries ∧ "$defs" ∉ Entries.names entries

lemma isOpen_obj {entries : List (String × Json)} (h : "$defs" ∉ Entries.names entries) :
    IsOpen (.obj entries) := ⟨entries, rfl, h⟩

lemma isOpen_primitiveDocument (kind : Primitive) : IsOpen (primitiveDocument kind) := by
  cases kind <;> exact isOpen_obj (by decide)

lemma isOpen_literalDocument (value : Literal) : IsOpen (literalDocument value) := by
  unfold literalDocument
  split <;> exact isOpen_obj (by simp [Entries.names])

lemma isOpen_unionDocument (members : List (Schema × Json)) : IsOpen (unionDocument members) := by
  rw [unionDocument]
  split <;> exact isOpen_obj (by simp [Entries.names])

lemma isOpen_tupleDocument (elements : List (ElementFlag × Json)) :
    IsOpen (tupleDocument elements) := by
  unfold tupleDocument
  split <;> exact isOpen_obj (by simp [Entries.names])

lemma names_indexKeywords (entries : List (Schema × Json)) :
    Entries.names (indexKeywords entries) ⊆ ["patternProperties", "additionalProperties"] := by
  rw [indexKeywords]
  dsimp only
  rw [Entries.names, List.map_append]
  refine List.append_subset.2 ⟨?_, ?_⟩ <;> split <;> simp

/-- The keywords of the document of an object. -/
def objectKeywords (properties : List PropertyDocument) (indexKeys : List (Schema × Json)) :
    List (String × Json) :=
  [("type", .str "object")] ++
    (if properties.isEmpty then []
      else [("properties", .obj (properties.map fun p => (p.name, p.value)))]) ++
    (if ((properties.filter (·.required)).map fun p => Json.str p.name).isEmpty then []
      else [("required", .arr ((properties.filter (·.required)).map fun p => .str p.name))]) ++
    indexKeywords indexKeys

lemma objectDocument_eq (properties : List PropertyDocument) (indexKeys : List (Schema × Json)) :
    objectDocument properties indexKeys = .obj (objectKeywords properties indexKeys) := rfl

lemma names_objectKeywords (properties : List PropertyDocument)
    (indexKeys : List (Schema × Json)) :
    Entries.names (objectKeywords properties indexKeys) ⊆
      ["type", "properties", "required", "patternProperties", "additionalProperties"] := by
  simp only [objectKeywords, Entries.names, List.map_append, List.append_subset]
  refine ⟨⟨⟨by simp, ?_⟩, ?_⟩, fun key hkey => ?_⟩
  · split <;> simp
  · split <;> simp
  · exact List.mem_cons_of_mem _ (List.mem_cons_of_mem _ (List.mem_cons_of_mem _
      (names_indexKeywords indexKeys hkey)))

lemma isOpen_objectDocument (properties : List PropertyDocument)
    (indexKeys : List (Schema × Json)) : IsOpen (objectDocument properties indexKeys) :=
  isOpen_obj fun hin => absurd (names_objectKeywords properties indexKeys hin) (by decide)

lemma isOpen_libraryDocument (name : String) {arguments : List Json}
    (h : ∀ j ∈ arguments, IsOpen j) : IsOpen (libraryDocument name arguments) := by
  have hfirst : IsOpen (arguments[0]?.getD (.obj [])) := by
    rcases hget : arguments[0]? with _ | j
    · exact isOpen_obj (by decide)
    · exact h j (List.mem_of_getElem? hget)
  unfold libraryDocument
  split
  case h_9 | h_10 => exact hfirst
  all_goals exact isOpen_obj (by simp [Entries.names])

/-- The document of every schema can take definitions. -/
lemma isOpen_describe (s : Schema) : IsOpen (s.describe defined) := by
  induction s using induction with
  | step s ih =>
    cases s with
    | primitive kind => exact isOpen_primitiveDocument kind
    | literal value => exact isOpen_literalDocument value
    | union => exact isOpen_unionDocument _
    | tuple => exact isOpen_tupleDocument _
    | object => exact isOpen_objectDocument _ _
    | array item =>
      rw [describe]
      split <;> exact isOpen_obj (by simp [Entries.names])
    | binary op left right =>
      rw [describe]
      split
      · exact isOpen_primitiveDocument _
      · exact isOpen_obj (by simp [Entries.names])
    | reference name arguments id =>
      rw [describe]
      split
      · exact isOpen_obj (by simp [Entries.names])
      · refine isOpen_libraryDocument name ?_
        rw [describeAll_eq_map]
        exact List.forall_mem_map.2 ih
    | intersection | function | template | keys | access | error =>
      exact isOpen_obj (by simp [Entries.names])

end Schema

namespace Bundle

/-- Whether an id has a definition. -/
def defines (b : Bundle) (id : String) : Bool := Entries.contains id b.definitions

/-- The documents of the definitions. -/
def definitionDocuments (b : Bundle) : Entries Json :=
  Entries.mapValues (Schema.describe b.defines) b.definitions

/-- The definitions come after the keywords of the schema, if there are any. -/
lemma exists_document_eq (b : Bundle) :
    ∃ entries, b.root.describe b.defines = .obj entries ∧ "$defs" ∉ Entries.names entries ∧
      b.document = .obj (entries ++
        if b.definitions.isEmpty then [] else [("$defs", .obj b.definitionDocuments)]) := by
  obtain ⟨entries, hroot, hnot⟩ := Schema.isOpen_describe b.defines b.root
  refine ⟨entries, hroot, hnot, ?_⟩
  calc b.document = if b.definitions.isEmpty then b.root.describe b.defines
        else (b.root.describe b.defines).withEntry "$defs" (.obj b.definitionDocuments) := rfl
    _ = _ := by
      rw [hroot]
      split
      · rw [List.append_nil]
      · rw [Json.withEntry, Entries.insert_of_notMem hnot]

end Bundle

end ValueSchema
