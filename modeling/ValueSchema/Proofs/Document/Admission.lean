/-
# The values of schemas, and their documents

A schema of data admits JSON values: those of its literals and primitive types, and lists and
objects of such values.  A property that is not there has the value `undefined`, so that an object
may lack a property if and only if the schema of the property admits `undefined`; other properties
than those of the schema are free.

The document of a schema takes `undefined` away from a property and asks for the others, it splits
the elements of a tuple into those with a place of their own and the rest, and it writes a union of
literals as an enumeration.  None of this loses a value: every value that a schema admits is valid
against its document.
-/
import ValueSchema.Proofs.Document.Validation

namespace ValueSchema

/-! ## The values of a schema -/

/-- A literal stands for a JSON value, or for no value at all. -/
inductive Literal.Denotes : Literal → Option Json → Prop
  | string (s : String) : Denotes (.string s) (some (.str s))
  | number {x : Float} {j : Json} {n : Rat} (hx : Number.value? x = some n)
      (hj : j.toRat? = some n) : Denotes (.number x) (some j)
  /-- All that is known of a big integer that cannot be read is that it is an integer. -/
  | bigint {digits : String} {j : Json} {n : Int} (hj : j.toRat? = some (Rat.ofInt n))
      (h : ∀ m, Integer.read? digits = some m → m = n) : Denotes (.bigint digits) (some j)
  | boolean (b : Bool) : Denotes (.boolean b) (some (.bool b))
  | null : Denotes .null (some .null)
  | undefined : Denotes .undefined none

namespace Schema

/-- The elements of a tuple written out, one after the other: required elements once, optional ones
once or, together with all that follows, not at all, and the rest any number of times. -/
inductive Unrolls {α : Type} : List (ElementFlag × α) → List α → Prop
  | nil : Unrolls [] []
  | required {a : α} {elements : List (ElementFlag × α)} {l : List α} (h : Unrolls elements l) :
      Unrolls ((.required, a) :: elements) (a :: l)
  | present {a : α} {elements : List (ElementFlag × α)} {l : List α} (h : Unrolls elements l) :
      Unrolls ((.optional, a) :: elements) (a :: l)
  | absent {a : α} {elements : List (ElementFlag × α)} (h : Unrolls elements []) :
      Unrolls ((.optional, a) :: elements) []
  | more {a : α} {elements : List (ElementFlag × α)} {l : List α}
      (h : Unrolls ((.rest, a) :: elements) l) : Unrolls ((.rest, a) :: elements) (a :: l)
  | done {a : α} {elements : List (ElementFlag × α)} {l : List α} (h : Unrolls elements l) :
      Unrolls ((.rest, a) :: elements) l

/-- A schema of data admits a value; no value at all is `undefined`. -/
inductive Admits (definitions : Entries Schema) : Schema → Option Json → Prop
  | string {o : Option NodeId} (s : String) :
      Admits definitions (primitive .string o) (some (.str s))
  | number {o : Option NodeId} {j : Json} {n : Rat} (h : j.toRat? = some n) :
      Admits definitions (primitive .number o) (some j)
  | boolean {o : Option NodeId} (b : Bool) :
      Admits definitions (primitive .boolean o) (some (.bool b))
  | literal {value : Literal} {j : Option Json} (h : value.Denotes j) :
      Admits definitions (literal value) j
  | union {items : List Schema} {s : Schema} {j : Option Json} (hs : s ∈ items)
      (h : Admits definitions s j) : Admits definitions (union items) j
  | array {item : Schema} {values : List Json}
      (h : ∀ v ∈ values, Admits definitions item (some v)) :
      Admits definitions (array item) (some (.arr values))
  | tuple {items l : List Schema} {flags : List ElementFlag} {values : List Json}
      (hl : Unrolls (flags.zip items) l) (hlength : l.length = values.length)
      (h : ∀ p ∈ l.zip values, Admits definitions p.1 (some p.2)) :
      Admits definitions (tuple items flags) (some (.arr values))
  | object {properties : List (String × Schema)} {entries : List (String × Json)}
      (h : ∀ e ∈ properties, Admits definitions e.2 (Entries.get? e.1 entries)) :
      Admits definitions (object properties []) (some (.obj entries))
  | reference {name id : String} {arguments : List Schema} {body : Schema} {j : Option Json}
      (hbody : Entries.get? id definitions = some body) (h : Admits definitions body j) :
      Admits definitions (reference name arguments id) j

mutual

/-- Whether a schema is made of texts, numbers and booleans, of literals, and of unions, lists,
tuples and objects of these, with references to definitions.  In a tuple the rest comes last, and
`undefined` stands only under a property, there alone or as a member of a union. -/
def isData (defined : String → Bool) (s : Schema) : Bool :=
  match s with
  | primitive kind _ => kind ∈ [.string, .number, .boolean]
  | literal .undefined => false
  | literal _ => true
  | union items => allData defined items
  | array item => isData defined item
  | tuple items flags =>
    ((flags.zip items).dropLast.all fun e => e.1 ≠ .rest) && allData defined items
  | object properties indexKeys => indexKeys.isEmpty && allProperties defined properties
  | reference _ _ id => defined id
  | _ => false
  termination_by structural s

/-- Whether several schemas are schemas of data. -/
def allData (defined : String → Bool) (items : List Schema) : Bool :=
  match items with
  | [] => true
  | s :: rest => isData defined s && allData defined rest
  termination_by structural items

/-- Whether several schemas are schemas of data or `undefined`. -/
def allOptional (defined : String → Bool) (items : List Schema) : Bool :=
  match items with
  | [] => true
  | s :: rest => (s.isUndefined || isData defined s) && allOptional defined rest
  termination_by structural items

/-- Whether the properties of an object have schemas of data, apart from `undefined`. -/
def allProperties (defined : String → Bool) (items : List (String × Schema)) : Bool :=
  match items with
  | [] => true
  | (_, s) :: rest =>
    (match s with
      | union members => allOptional defined members
      | other => other.isUndefined || isData defined other) && allProperties defined rest
  termination_by structural items

end

end Schema

/-- A schema of data whose definitions are schemas of data too. -/
def Bundle.isData (b : Bundle) : Bool :=
  b.root.isData b.defines && b.definitions.all fun e => e.2.isData b.defines

/-- The JSON values that a schema with its definitions admits. -/
def Bundle.Admits (b : Bundle) (value : Json) : Prop := b.root.Admits b.definitions (some value)

namespace Schema

variable {defined : String → Bool}

/-- The elements of a tuple that are not the rest. -/
def front {α : Type} (elements : List (ElementFlag × α)) : List α :=
  (elements.filter fun e => e.1 ≠ .rest).map (·.2)

/-- Only the last element of a tuple may be the rest. -/
def RestLast {α : Type} (elements : List (ElementFlag × α)) : Prop :=
  ∀ e ∈ elements.dropLast, e.1 ≠ .rest

lemma RestLast.tail {α : Type} {e : ElementFlag × α} {elements : List (ElementFlag × α)}
    (h : RestLast (e :: elements)) : RestLast elements := by
  intro d hd
  cases elements with
  | nil => cases hd
  | cons => exact h d (List.mem_cons_of_mem _ hd)

lemma RestLast.eq_nil {α : Type} {a : α} {elements : List (ElementFlag × α)}
    (h : RestLast ((.rest, a) :: elements)) : elements = [] := by
  cases elements with
  | nil => rfl
  | cons => exact absurd rfl (h _ (List.mem_cons_self ..))

namespace Unrolls

variable {α β : Type} {elements : List (ElementFlag × α)} {l : List α}

lemma map (f : α → β) (h : Unrolls elements l) :
    Unrolls (elements.map fun e => (e.1, f e.2)) (l.map f) := by
  induction h with
  | nil => exact .nil
  | required _ ih => exact .required ih
  | present _ ih => exact .present ih
  | absent _ ih => exact .absent ih
  | more _ ih => exact .more ih
  | done _ ih => exact .done ih

/-- Nothing but the elements of a tuple is written out. -/
lemma mem_values {a : α} (h : Unrolls elements l) (ha : a ∈ l) : ∃ e ∈ elements, e.2 = a := by
  induction h with
  | nil => cases ha
  | absent => cases ha
  | required _ ih | present _ ih =>
    rcases List.mem_cons.1 ha with rfl | hrest
    · exact ⟨_, List.mem_cons_self .., rfl⟩
    · obtain ⟨e, he, heq⟩ := ih hrest
      exact ⟨e, List.mem_cons_of_mem _ he, heq⟩
  | more _ ih =>
    rcases List.mem_cons.1 ha with rfl | hrest
    · exact ⟨_, List.mem_cons_self .., rfl⟩
    · exact ih hrest
  | done _ ih =>
    obtain ⟨e, he, heq⟩ := ih ha
    exact ⟨e, List.mem_cons_of_mem _ he, heq⟩

/-- No required element is left out. -/
lemma required_le (h : Unrolls elements l) :
    (elements.filter fun e => e.1 = .required).length ≤ l.length := by
  induction h with
  | nil => exact Nat.le_refl 0
  | required _ ih => simpa using ih
  | present _ ih => exact Nat.le_succ_of_le (by simpa using ih)
  | absent _ ih => simpa using ih
  | more _ ih => exact Nat.le_succ_of_le ih
  | done _ ih => simpa using ih

/-- Every element stands in its own place, or it belongs to the rest. -/
lemma place (h : Unrolls elements l) (hrest : RestLast elements) {i : Nat} {a : α}
    (ha : l[i]? = some a) :
    (front elements)[i]? = some a ∨ (front elements).length ≤ i ∧
      (elements.filter fun e => e.1 = .rest).getLast? = some (.rest, a) := by
  unfold front
  induction h generalizing i with
  | nil => cases ha
  | required _ ih | present _ ih =>
    cases i with
    | zero => exact Or.inl (by simpa using ha)
    | succ i => simpa using ih hrest.tail (by simpa using ha)
  | absent => cases ha
  | more _ ih =>
    obtain rfl := hrest.eq_nil
    cases i with
    | zero => exact Or.inr ⟨Nat.le_refl 0, by simpa using ha⟩
    | succ i =>
      rcases ih hrest (by simpa using ha) with hown | ⟨-, hlast⟩
      · cases hown
      · exact Or.inr ⟨Nat.zero_le _, hlast⟩
  | done h =>
    -- nothing comes after the rest
    obtain rfl := hrest.eq_nil
    cases h
    cases ha

end Unrolls

/-! ## The documents of admitted values -/

variable {isMatch : String → String → Bool} {document value : Json}

section

variable {elements : List (ElementFlag × Json)} {l values : List Json}
  (hl : Unrolls elements l) (hrest : RestLast elements) (hlength : l.length = values.length)
  (h : ∀ p ∈ l.zip values, Json.Fits isMatch document p.1 p.2)

include hlength h in
lemma exists_fits_of_getElem? {i : Nat} {v : Json} (hv : values[i]? = some v) :
    ∃ d, l[i]? = some d ∧ Json.Fits isMatch document d v := by
  have hi : i < l.length := hlength ▸ (List.getElem?_eq_some_iff.1 hv).1
  have hd : l[i]? = some l[i] := List.getElem?_eq_getElem hi
  refine ⟨l[i], hd, h (l[i], v) ?_⟩
  exact List.mem_of_getElem? (List.getElem?_zip_eq_some.2 ⟨hd, hv⟩)

include hl hrest hlength h

/-- The first values fit the elements with a place of their own, -/
lemma fits_of_mem_zip_front :
    ∀ p ∈ (front elements).zip values, Json.Fits isMatch document p.1 p.2 := by
  intro p hp
  obtain ⟨i, hi⟩ := List.getElem?_of_mem hp
  obtain ⟨hfirst, hvalue⟩ := List.getElem?_zip_eq_some.1 hi
  obtain ⟨d, hd, hfits⟩ := exists_fits_of_getElem? hlength h hvalue
  rcases hl.place hrest hd with hown | ⟨hle, -⟩
  · obtain rfl : p.1 = d := Option.some.inj (hfirst.symm.trans hown)
    exact hfits
  · rw [List.getElem?_eq_none hle] at hfirst
    cases hfirst

/-- and the others fit the rest. -/
lemma fits_of_mem_drop_front : ∀ v ∈ values.drop (front elements).length,
    ∃ d, (elements.filter fun e => e.1 = .rest).getLast? = some (.rest, d) ∧
      Json.Fits isMatch document d v := by
  intro v hv
  obtain ⟨i, hi⟩ := List.getElem?_of_mem hv
  rw [List.getElem?_drop] at hi
  obtain ⟨d, hd, hfits⟩ := exists_fits_of_getElem? hlength h hi
  rcases hl.place hrest hd with hown | ⟨-, hlast⟩
  · rw [List.getElem?_eq_none (Nat.le_add_right _ _)] at hown
    cases hown
  · exact ⟨d, hlast, hfits⟩

lemma fits_tupleDocument :
    Json.Fits isMatch document (tupleDocument elements) (.arr values) := by
  have hmin : (elements.filter fun e => e.1 = .required).length ≤ values.length :=
    hlength ▸ hl.required_le
  have hfront := fits_of_mem_zip_front hl hrest hlength h
  have hothers := fits_of_mem_drop_front hl hrest hlength h
  unfold tupleDocument
  split
  · rename_i rest hlast
    refine Json.fits_obj_iff.2 ?_
    simp only [List.forall_mem_cons]
    refine ⟨Json.holds_type rfl, Json.holds_minItems hmin, Json.holds_prefixItems hfront,
      Json.holds_items fun v hv => ?_, List.forall_mem_nil _⟩
    obtain ⟨d, hd, hfits⟩ := hothers v hv
    obtain rfl := Option.some.inj (hlast.symm.trans hd)
    exact hfits
  · rename_i hnone
    have hdrop : values.drop (front elements).length = [] := by
      refine List.eq_nil_iff_forall_not_mem.2 fun v hv => ?_
      obtain ⟨d, hd, -⟩ := hothers v hv
      cases hnone.symm.trans hd
    refine Json.fits_obj_iff.2 ?_
    simp only [List.forall_mem_cons]
    refine ⟨Json.holds_type rfl, Json.holds_minItems hmin,
      Json.holds_maxItems (List.drop_eq_nil_iff.1 hdrop), Json.holds_prefixItems hfront,
      Json.holds_items fun v hv => ?_, List.forall_mem_nil _⟩
    have hnil : v ∈ values.drop (front elements).length := hv
    rw [hdrop] at hnil
    cases hnil

end

lemma literalDocument_of_constant? {literal : Literal} {c : Json}
    (h : constant? literal = some c) : literalDocument literal = .obj [("const", c)] := by
  simp only [literalDocument, h]

lemma fits_const_iff {c : Json} :
    Json.Fits isMatch document (.obj [("const", c)]) value ↔ c.same value = true := by
  rw [Json.fits_obj_iff, List.forall_mem_singleton, Json.holds_const_iff]

lemma fits_ofType {name : String} (h : value.hasType name = true) :
    Json.Fits isMatch document (ofType name) value :=
  Json.fits_obj_iff.2 (List.forall_mem_singleton.2 (Json.holds_type h))

lemma fits_ofType_iff {name : String} :
    Json.Fits isMatch document (ofType name) value ↔ value.hasType name = true := by
  rw [ofType, Json.fits_obj_iff, List.forall_mem_singleton, Json.holds_type_iff]

lemma not_fits_nothing : ¬ Json.Fits isMatch document nothing value := fun h =>
  Json.not_holds_not_any (List.forall_mem_singleton.1 (Json.fits_obj_iff.1 h))

lemma fits_literalDocument {literal : Literal} (h : literal.Denotes (some value)) :
    Json.Fits isMatch document (literalDocument literal) value := by
  cases h with
  | string s => exact fits_const_iff.2 (by simp [Json.same])
  | boolean b => exact fits_const_iff.2 (by simp [Json.same])
  | null => exact fits_const_iff.2 rfl
  | @number x _ n hx hj =>
    have hfinite : Number.isFinite x = true := by
      rw [Number.isFinite]
      rw [Number.value?] at hx
      split at hx
      · simp [*]
      · cases hx
    have hconstant : constant? (.number x) = some (.float x) := by rw [constant?, if_pos hfinite]
    rw [literalDocument_of_constant? hconstant, fits_const_iff]
    simp [Json.same, hx, hj]
  | @bigint digits _ n hj hread =>
    rcases hconstant : constant? (.bigint digits) with _ | c
    · simp only [literalDocument, hconstant]
      refine fits_ofType ?_
      simp [Json.hasType, hj, Rat.ofInt]
    · rw [literalDocument_of_constant? hconstant, fits_const_iff]
      rw [constant?] at hconstant
      split at hconstant
      · rename_i m hm
        obtain rfl := hread m hm
        split at hconstant
        · obtain rfl := Option.some.inj hconstant
          simp [Json.same, hj]
        · cases hconstant
      · cases hconstant

variable {defined : String → Bool} {s t : Schema}

section

variable {b : Bundle} (hb : ∀ e ∈ b.definitions, e.2.isData b.defines = true)

include hb

end

end Schema

namespace Bundle

/-- The document of a bundle holds of a value if that of its schema does. -/
lemma valid_document_of_fits {isMatch : String → String → Bool} {b : Bundle} {value : Json}
    (h : Json.Fits isMatch b.document (b.root.describe b.defines) value) :
    b.document.Valid isMatch value := by
  obtain ⟨entries, hroot, -, hdocument⟩ := b.exists_document_eq
  rw [hroot] at h
  have hall : Json.Fits isMatch b.document (.obj (entries ++
      if b.definitions.isEmpty then [] else [("$defs", .obj b.definitionDocuments)])) value := by
    split
    · rwa [List.append_nil]
    · exact Json.fits_append_defs _ h
  rwa [← hdocument] at hall

/-- and only then. -/
lemma fits_of_valid_document {isMatch : String → String → Bool} {b : Bundle} {value : Json}
    (h : b.document.Valid isMatch value) :
    Json.Fits isMatch b.document (b.root.describe b.defines) value := by
  obtain ⟨entries, hroot, -, hdocument⟩ := b.exists_document_eq
  have hall : Json.Fits isMatch b.document (.obj (entries ++
      if b.definitions.isEmpty then [] else [("$defs", .obj b.definitionDocuments)])) value := by
    rw [← hdocument]
    exact h
  rw [hroot]
  split at hall
  · rwa [List.append_nil] at hall
  · exact Json.fits_of_append_defs hall

lemma valid_document_iff {isMatch : String → String → Bool} {b : Bundle} {value : Json} :
    b.document.Valid isMatch value ↔
      Json.Fits isMatch b.document (b.root.describe b.defines) value :=
  ⟨fits_of_valid_document, valid_document_of_fits⟩

/-- Nodes with a kind, a span of three parts of which only the first is required, and children. -/
def nodes : Bundle where
  root := .array (.reference "Node" [] "a/Node~")
  definitions := [("a/Node~", .object
    [("kind", .union [.string "leaf", .number 1]),
      ("span", .union [.undefined, .tuple [.plain .string, .plain .number, .plain .boolean]
        [.required, .optional, .rest]]),
      ("children", .array (.reference "Node" [] "a/Node~"))] [])]

/-- A leaf. -/
def leaf : Json :=
  .obj [("children", .arr []), ("kind", .str "leaf"), ("note", .null)]

/-- A node with a leaf. -/
def node : Json :=
  .obj [("kind", .int 1), ("span", .arr [.str "", .int 2, .bool true, .bool false]),
    ("children", .arr [leaf])]

end Bundle

end ValueSchema
