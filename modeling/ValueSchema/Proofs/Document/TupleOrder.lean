/-
# Tuples with a rest among their elements

The document of a tuple gives every element but the rest a place of its own, counted from the front,
and checks all values behind these places against the rest.  If required elements follow the rest,
then the values of the rest push theirs back: a value may come to the place of any element that
follows its own, or behind all of them.  The document of a tuple of literals holds of all values of
the tuple if and only if the literals agree there, from the rest on.
-/
import ValueSchema.Proofs.Document.Admission

namespace ValueSchema

/-- Every value that a literal stands for is valid against the document of another literal. -/
def Literal.CoveredBy (isMatch : String → String → Bool) (s t : Literal) : Prop :=
  ∀ v, s.Denotes (some v) → (Schema.literalDocument t).Valid isMatch v

namespace Schema

/-! ## A list with a repeated element -/

section

variable {α : Type} {a : α} {before after : List α}

/-- A list with an element inside it that is there any number of times. -/
def stretch (before : List α) (a : α) (after : List α) (count : Nat) : List α :=
  before ++ (List.replicate count a ++ after)

section

variable {R : α → α → Prop} (hrefl : ∀ a, R a a)

include hrefl

/-- If a repeated element in front of a list pushes the others back, then every element that comes
later can get to the place of an earlier one. -/
lemma pairwise_of_forall_replicate
    (h : ∀ (count j : Nat) (s : α), (List.replicate count a ++ after)[j]? = some s →
      R s (after[j]?.getD a)) :
    (a :: (after ++ [a])).Pairwise R := by
  have hrepeated : ∀ t ∈ after, R a t := by
    intro t ht
    obtain ⟨j, hj⟩ := List.getElem?_of_mem ht
    have hplace := h (j + 1) j a (by simp [List.getElem?_append])
    rwa [hj] at hplace
  have hpushed : ∀ (count j : Nat) (s : α), after[j]? = some s →
      R s (after[count + j]?.getD a) := by
    intro count j s hs
    refine h count (count + j) s ?_
    simpa [List.getElem?_append_right] using hs
  rw [List.pairwise_cons, List.pairwise_append]
  refine ⟨?_, ?_, List.pairwise_singleton R a, ?_⟩
  · simpa [or_imp, forall_and, hrefl] using hrepeated
  · rw [List.pairwise_iff_getElem]
    intro i j hi hj hlt
    have hplace := hpushed (j - i) i after[i] (List.getElem?_eq_getElem hi)
    rwa [Nat.sub_add_cancel (Nat.le_of_lt hlt), List.getElem?_eq_getElem hj] at hplace
  · rintro s hs _ ht
    obtain rfl := List.mem_singleton.1 ht
    obtain ⟨i, hi⟩ := List.getElem?_of_mem hs
    have hplace := hpushed after.length i s hi
    rwa [List.getElem?_eq_none (Nat.le_add_right _ _)] at hplace

/-- The other way round, no element gets anywhere else. -/
lemma forall_replicate_of_pairwise (h : (a :: (after ++ [a])).Pairwise R) {count j : Nat} {s : α}
    (hs : (List.replicate count a ++ after)[j]? = some s) : R s (after[j]?.getD a) := by
  rw [List.pairwise_cons, List.pairwise_append] at h
  obtain ⟨hrepeated, hpairwise, -, hlast⟩ := h
  rcases Nat.lt_or_ge j count with hlt | hge
  · rw [List.getElem?_append_left (by simpa using hlt), List.getElem?_replicate, if_pos hlt] at hs
    obtain rfl := Option.some.inj hs
    cases hj : after[j]? with
    | none => exact hrefl a
    | some t => exact hrepeated t (List.mem_append_left _ (List.mem_of_getElem? hj))
  · obtain ⟨k, rfl⟩ := Nat.exists_eq_add_of_le hge
    have hk : after[k]? = some s := by simpa [List.getElem?_append_right] using hs
    obtain ⟨hklt, rfl⟩ := List.getElem?_eq_some_iff.1 hk
    cases hj : after[count + k]? with
    | none => exact hlast _ (List.getElem_mem hklt) a (List.mem_singleton_self a)
    | some t =>
      obtain ⟨hjlt, rfl⟩ := List.getElem?_eq_some_iff.1 hj
      rcases Nat.eq_zero_or_pos count with rfl | hpos
      · simpa using hrefl _
      · exact List.pairwise_iff_getElem.1 hpairwise k (count + k) hklt hjlt (by omega)

variable (before) in
/-- In a stretched list each element is related to the one in its place in the list without the
repeated element, if that is taken to stand in all places behind the list. -/
lemma forall_stretch_iff :
    (∀ (count i : Nat) (s : α), (stretch before a after count)[i]? = some s →
        R s ((before ++ after)[i]?.getD a)) ↔
      (a :: (after ++ [a])).Pairwise R := by
  have hplace : ∀ count j,
      (stretch before a after count)[before.length + j]? = (List.replicate count a ++ after)[j]? ∧
        (before ++ after)[before.length + j]? = after[j]? := by
    intro count j
    simp [stretch, List.getElem?_append_right]
  constructor
  · refine fun h => pairwise_of_forall_replicate hrefl fun count j s hs => ?_
    obtain ⟨hstretch, hown⟩ := hplace count j
    rw [← hown]
    exact h count (before.length + j) s (hstretch.trans hs)
  · intro h count i s hs
    rcases Nat.lt_or_ge i before.length with hlt | hge
    · -- before the repeated element nothing moves
      rw [stretch, List.getElem?_append_left hlt] at hs
      rw [List.getElem?_append_left hlt, hs]
      exact hrefl s
    · obtain ⟨j, rfl⟩ := Nat.exists_eq_add_of_le hge
      obtain ⟨hstretch, hown⟩ := hplace count j
      rw [hown]
      exact forall_replicate_of_pairwise hrefl h (hstretch.symm.trans hs)

end

/-- A condition on the members of a list in the places of another list, and another one on those
that come after these places. -/
lemma forall_zip_and_forall_drop_iff {β : Type} {R : α → β → Prop} {l : List α} {items : List β} :
    ((∀ p ∈ l.zip items, R p.1 p.2) ∧ ∀ b ∈ items.drop l.length, R a b) ↔
      ∀ (i : Nat) (b : β), items[i]? = some b → R (l[i]?.getD a) b := by
  constructor
  · rintro ⟨hzip, hdrop⟩ i b hb
    cases hi : l[i]? with
    | some c =>
      exact hzip (c, b) (List.mem_of_getElem? (List.getElem?_zip_eq_some.2 ⟨hi, hb⟩))
    | none =>
      obtain ⟨j, rfl⟩ := Nat.exists_eq_add_of_le (List.getElem?_eq_none_iff.1 hi)
      rw [← List.getElem?_drop] at hb
      exact hdrop b (List.mem_of_getElem? hb)
  · intro h
    refine ⟨fun p hp => ?_, fun b hb => ?_⟩
    · obtain ⟨i, hi⟩ := List.getElem?_of_mem hp
      obtain ⟨hfirst, hsecond⟩ := List.getElem?_zip_eq_some.1 hi
      have hplace := h i p.2 hsecond
      rwa [hfirst] at hplace
    · obtain ⟨i, hi⟩ := List.getElem?_of_mem hb
      rw [List.getElem?_drop] at hi
      have hplace := h _ b hi
      rwa [List.getElem?_eq_none (Nat.le_add_right _ _)] at hplace

/-! ## Tuples with one rest -/

lemma map_fst_zip_sublist {β : Type} (l : List α) (items : List β) :
    ((l.zip items).map (·.1)).Sublist l := by
  induction l generalizing items with
  | nil => exact .slnil
  | cons c rest ih =>
    cases items with
    | nil => exact List.nil_sublist _
    | cons b items => exact (ih items).cons_cons c

/-- Required elements are written out as they are. -/
lemma unrolls_required_append_iff {elements : List (ElementFlag × α)} {l : List α} :
    Unrolls ((before.map fun a => (ElementFlag.required, a)) ++ elements) l ↔
      ∃ tail, l = before ++ tail ∧ Unrolls elements tail := by
  induction before generalizing l with
  | nil => simp
  | cons b rest ih =>
    rw [List.map_cons, List.cons_append]
    constructor
    · rintro (_ | h)
      obtain ⟨tail, rfl, htail⟩ := ih.1 h
      exact ⟨tail, rfl, htail⟩
    · rintro ⟨tail, rfl, htail⟩
      exact .required (ih.2 ⟨tail, rfl, htail⟩)

/-- The flags of a tuple whose elements are all required but one, the rest. -/
def oneRest (before : List α) (a : α) (after : List α) : List (ElementFlag × α) :=
  (before.map fun a => (ElementFlag.required, a)) ++
    (ElementFlag.rest, a) :: after.map fun a => (ElementFlag.required, a)

lemma mem_oneRest {b : α} :
    (∃ e ∈ oneRest before a after, e.2 = b) ↔ b ∈ a :: (before ++ after) := by
  simp only [oneRest, List.mem_append, List.mem_cons, List.mem_map]
  grind

lemma unrolls_oneRest_iff {l : List α} :
    Unrolls (oneRest before a after) l ↔ ∃ count, l = stretch before a after count := by
  have hback : ∀ tail, Unrolls (after.map fun a => (ElementFlag.required, a)) tail ↔
      tail = after := by
    intro tail
    rw [← List.append_nil (after.map _), unrolls_required_append_iff]
    constructor
    · rintro ⟨_, rfl, _ | _⟩
      exact List.append_nil after
    · rintro rfl
      exact ⟨[], (List.append_nil _).symm, .nil⟩
  rw [oneRest, unrolls_required_append_iff]
  constructor
  · rintro ⟨tail, rfl, htail⟩
    -- by how often the rest is there
    suffices hcount : ∃ count, tail = List.replicate count a ++ after by
      obtain ⟨count, rfl⟩ := hcount
      exact ⟨count, rfl⟩
    generalize hrest : (ElementFlag.rest, a) :: after.map _ = elements at htail
    induction htail with
    | more _ ih =>
      obtain ⟨count, rfl⟩ := ih hrest
      obtain ⟨⟨-, rfl⟩, -⟩ := by simpa using hrest
      exact ⟨count + 1, rfl⟩
    | done h =>
      obtain ⟨-, rfl⟩ := by simpa using hrest
      exact ⟨0, (hback _).1 h⟩
    | _ => simp at hrest
  · rintro ⟨count, rfl⟩
    refine ⟨_, rfl, ?_⟩
    induction count with
    | zero => exact .done ((hback after).2 rfl)
    | succ count ih => exact .more ih

/-- A tuple of required elements and at most one rest. -/
lemma forall_required_or_exists_oneRest {elements : List (ElementFlag × α)}
    (hoptional : ∀ e ∈ elements, e.1 ≠ .optional)
    (hcount : (elements.map (·.1)).count .rest ≤ 1) :
    (∀ e ∈ elements, e.1 = .required) ∨ ∃ before a after, elements = oneRest before a after := by
  induction elements with
  | nil => exact Or.inl (List.forall_mem_nil _)
  | cons e rest ih =>
    obtain ⟨flag, b⟩ := e
    obtain ⟨hflag, htail⟩ := List.forall_mem_cons.1 hoptional
    cases flag with
    | required =>
      rcases ih htail (by simpa using hcount) with hall | ⟨before, a, after, rfl⟩
      · exact Or.inl (List.forall_mem_cons.2 ⟨rfl, hall⟩)
      · exact Or.inr ⟨b :: before, a, after, rfl⟩
    | optional => exact absurd rfl hflag
    | rest =>
      have hall : ∀ e ∈ rest, e.1 = .required := by
        rintro ⟨flag, c⟩ he
        cases flag with
        | required => rfl
        | optional => exact absurd rfl (htail _ he)
        | rest =>
          have hpos : 0 < (rest.map (·.1)).count .rest :=
            List.count_pos_iff.2 (List.mem_map.2 ⟨_, he, rfl⟩)
          rw [List.map_cons, List.count_cons_self] at hcount
          omega
      refine Or.inr ⟨[], b, rest.map (·.2), ?_⟩
      rw [oneRest, List.map_nil, List.nil_append, List.map_map, List.cons.injEq]
      refine ⟨rfl, (List.map_id' rest).symm.trans (List.map_congr_left fun e he => ?_)⟩
      rw [Function.comp_apply, ← hall e he]

lemma map_oneRest {β : Type} (f : α → β) : (oneRest before a after).map (Prod.map id f) =
    oneRest (before.map f) (f a) (after.map f) := by
  simp [oneRest, Function.comp_def]

lemma map_stretch {β : Type} (f : α → β) (count : Nat) : (stretch before a after count).map f =
    stretch (before.map f) (f a) (after.map f) count := by
  simp [stretch]

end

/-! ## Arrays of values of literals -/

variable {isMatch : String → String → Bool} {document value : Json}

/-- The document of a literal does not refer to the whole document. -/
lemma fits_literalDocument_iff {literal : Literal} :
    Json.Fits isMatch document (literalDocument literal) value ↔
      (literalDocument literal).Valid isMatch value := by
  rw [Json.Valid]
  unfold literalDocument
  split
  · exact fits_const_iff.trans fits_const_iff.symm
  · exact fits_ofType_iff.trans fits_ofType_iff.symm
  · exact fits_ofType_iff.trans fits_ofType_iff.symm
  · exact iff_of_false not_fits_nothing not_fits_nothing

lemma coveredBy_refl (literal : Literal) : literal.CoveredBy isMatch literal :=
  fun _ h => fits_literalDocument h

lemma coveredBy_string_iff {s t : String} :
    (Literal.string s).CoveredBy isMatch (.string t) ↔ s = t := by
  constructor
  · intro h
    have hsame : (t == s) = true := fits_const_iff.1 (h (.str s) (.string s))
    exact (eq_of_beq hsame).symm
  · rintro rfl
    exact coveredBy_refl _

lemma fits_tupleDocument_oneRest {before after values : List Json} {d : Json} :
    Json.Fits isMatch document (tupleDocument (oneRest before d after)) (.arr values) ↔
      (before ++ after).length ≤ values.length ∧
        ∀ (i : Nat) (v : Json), values[i]? = some v →
          Json.Fits isMatch document ((before ++ after)[i]?.getD d) v := by
  have hdocument : tupleDocument (oneRest before d after) =
      .obj [("type", .str "array"), ("minItems", .int (before ++ after).length),
        ("prefixItems", .arr (before ++ after)), ("items", d)] := by
    simp [tupleDocument, oneRest, List.filter_map, Function.comp_def]
  rw [hdocument, Json.fits_obj_iff]
  simp only [List.forall_mem_cons, Json.holds_minItems_iff, Json.holds_prefixItems_iff,
    Json.holds_items_iff]
  rw [← forall_zip_and_forall_drop_iff]
  constructor
  · rintro ⟨-, hlength, hzip, hdrop, -⟩
    exact ⟨hlength, hzip, hdrop⟩
  · rintro ⟨hlength, hzip, hdrop⟩
    exact ⟨Json.holds_type rfl, hlength, hzip, hdrop, List.forall_mem_nil _⟩

/-- Values are values of the literals of a list, one of each. -/
abbrev AreValuesOf (values : List Json) (l : List Literal) : Prop :=
  List.Forall₂ (fun t v => t.Denotes (some v)) l values

lemma exists_areValuesOf {l : List Literal} (h : ∀ t ∈ l, ∃ v, t.Denotes (some v)) :
    ∃ values, AreValuesOf values l := by
  induction l with
  | nil => exact ⟨[], .nil⟩
  | cons t rest ih =>
    obtain ⟨⟨v, hv⟩, hrest⟩ := List.forall_mem_cons.1 h
    obtain ⟨values, hvalues⟩ := ih hrest
    exact ⟨v :: values, .cons hv hvalues⟩

namespace AreValuesOf

variable {l : List Literal} {values : List Json} {i : Nat}

/-- Any value of a literal can take the place of the one that is there. -/
lemma set {t : Literal} (h : AreValuesOf values l) (ht : l[i]? = some t)
    (hvalue : t.Denotes (some value)) :
    AreValuesOf (values.set i value) l := by
  induction h generalizing i with
  | nil => cases ht
  | cons hhead hrest ih =>
    cases i with
    | zero =>
      obtain rfl := Option.some.inj ht
      exact .cons hvalue hrest
    | succ i => exact .cons hhead (ih ht)

lemma exists_denotes (h : AreValuesOf values l) (hi : values[i]? = some value) :
    ∃ t, l[i]? = some t ∧ t.Denotes (some value) := by
  induction h generalizing i with
  | nil => cases hi
  | cons hhead _ ih =>
    cases i with
    | zero =>
      obtain rfl := Option.some.inj hi
      exact ⟨_, rfl, hhead⟩
    | succ i => exact ih hi

lemma exists_value {t : Literal} (h : AreValuesOf values l) (ht : t ∈ l) :
    ∃ v, t.Denotes (some v) := by
  obtain ⟨i, hi⟩ := List.getElem?_of_mem ht
  have hlt : i < values.length := h.length_eq ▸ (List.getElem?_eq_some_iff.1 hi).1
  obtain ⟨s, hs, hdenotes⟩ := h.exists_denotes (List.getElem?_eq_getElem hlt)
  obtain rfl := Option.some.inj (hi.symm.trans hs)
  exact ⟨_, hdenotes⟩

end AreValuesOf

/-! ## The arrays of a tuple of literals -/

lemma admits_literal_iff {definitions : Entries Schema} {t : Literal} {j : Option Json} :
    (literal t).Admits definitions j ↔ t.Denotes j := by
  constructor
  · intro h
    cases h with
    | literal h => exact h
  · exact .literal

section

variable {b : Bundle} {literals : List Literal} {flags : List ElementFlag} {values : List Json}
  (hroot : b.root = .tuple (literals.map literal) flags)

include hroot

/-- A tuple of literals admits the values of a list of literals, if it can be written out as that
list. -/
lemma admits_tuple_iff : b.Admits (.arr values) ↔
    ∃ l, Unrolls (flags.zip (literals.map literal)) l ∧ l.length = values.length ∧
      ∀ p ∈ l.zip values, p.1.Admits b.definitions (some p.2) := by
  rw [Bundle.Admits, hroot]
  constructor
  · intro h
    cases h with
    | tuple hl hlength h => exact ⟨_, hl, hlength, h⟩
  · rintro ⟨l, hl, hlength, h⟩
    exact .tuple hl hlength h

/-- A tuple of required literals renders to a document that holds of all its values. -/
lemma valid_of_required (hrequired : ∀ e ∈ flags.zip literals, e.1 = .required)
    (h : b.Admits (.arr values)) : b.document.Valid isMatch (.arr values) := by
  obtain ⟨l, hl, hlength, hvalues⟩ := (admits_tuple_iff hroot).1 h
  rw [Bundle.valid_document_iff, hroot, describe, zip_flags_describeAll]
  refine fits_tupleDocument (hl.map (describe b.defines)) ?_ (by rw [List.length_map, hlength]) ?_
  · intro d hd
    have hmem := List.dropLast_subset _ hd
    rw [List.zip_map_right, List.map_map] at hmem
    obtain ⟨e, he, rfl⟩ := List.mem_map.1 hmem
    exact ne_of_eq_of_ne (hrequired e he) (by decide)
  · rw [List.zip_map_left]
    refine List.forall_mem_map.2 fun p hp => ?_
    obtain ⟨e, he, heq⟩ := hl.mem_values (List.of_mem_zip hp).1
    obtain ⟨t, -, ht⟩ := List.mem_map.1 (List.of_mem_zip he).2
    have hadmits := hvalues p hp
    rw [← heq, ← ht, admits_literal_iff] at hadmits
    rw [Prod.map_fst, ← heq, ← ht]
    exact fits_literalDocument hadmits

variable {before after : List Literal} {a : Literal}
  (hzip : flags.zip literals = oneRest before a after)

include hzip

/-- The values of a tuple of literals with one rest, -/
lemma admits_oneRest_iff :
    b.Admits (.arr values) ↔ ∃ count, AreValuesOf values (stretch before a after count) := by
  have helements : flags.zip (literals.map literal) =
      oneRest (before.map literal) (.literal a) (after.map literal) := by
    rw [← map_oneRest, ← hzip, List.zip_map_right]
  have hvalues : ∀ l : List Literal, ((l.map literal).length = values.length ∧
      ∀ p ∈ (l.map literal).zip values, p.1.Admits b.definitions (some p.2)) ↔
        AreValuesOf values l := by
    intro l
    rw [AreValuesOf, List.forall₂_iff_zip, List.length_map, List.zip_map_left, List.forall_mem_map]
    simp only [Prod.map_fst, Prod.map_snd, id_eq, admits_literal_iff, Prod.forall]
  simp only [admits_tuple_iff hroot, helements, unrolls_oneRest_iff, ← map_stretch]
  constructor
  · rintro ⟨_, ⟨count, rfl⟩, h⟩
    exact ⟨count, (hvalues _).1 h⟩
  · rintro ⟨count, h⟩
    exact ⟨_, ⟨count, rfl⟩, (hvalues _).2 h⟩

/-- and the values that its document holds of. -/
lemma valid_oneRest_iff : b.document.Valid isMatch (.arr values) ↔
    (before ++ after).length ≤ values.length ∧ ∀ (i : Nat) (v : Json), values[i]? = some v →
      (literalDocument ((before ++ after)[i]?.getD a)).Valid isMatch v := by
  have hdocument : b.root.describe b.defines = tupleDocument (oneRest
      (before.map literalDocument) (literalDocument a) (after.map literalDocument)) := by
    rw [hroot, describe, describeAll_eq_map, List.map_map, ← map_oneRest, ← hzip,
      List.zip_map_right]
    rfl
  rw [Bundle.valid_document_iff, hdocument, fits_tupleDocument_oneRest, ← List.map_append,
    List.length_map]
  simp only [List.getElem?_map, Option.getD_map, fits_literalDocument_iff]

lemma valid_of_coveredBy {count : Nat} (h : AreValuesOf values (stretch before a after count))
    (hcovered : ∀ (i : Nat) (s : Literal), (stretch before a after count)[i]? = some s →
      s.CoveredBy isMatch ((before ++ after)[i]?.getD a)) :
    b.document.Valid isMatch (.arr values) := by
  refine (valid_oneRest_iff hroot hzip).2 ⟨?_, fun i v hv => ?_⟩
  · rw [← h.length_eq]
    simp only [stretch, List.length_append]
    omega
  · obtain ⟨s, hs, hdenotes⟩ := h.exists_denotes hv
    exact hcovered i s hs v hdenotes

/-- If all elements stand for values, then all values of the tuple are valid just if they are in
each place where they can come. -/
lemma forall_valid_oneRest_iff (hall : ∀ t ∈ a :: (before ++ after), ∃ v, t.Denotes (some v)) :
    (∀ values, b.Admits (.arr values) → b.document.Valid isMatch (.arr values)) ↔
      (a :: (after ++ [a])).Pairwise (Literal.CoveredBy isMatch) := by
  rw [← forall_stretch_iff before coveredBy_refl]
  constructor
  · intro hsound count i s hs v hv
    have hmem : ∀ t ∈ stretch before a after count, ∃ v, t.Denotes (some v) := by
      intro t ht
      refine hall t ?_
      simp only [stretch, List.mem_append, List.mem_replicate] at ht
      grind
    obtain ⟨values, hvalues⟩ := exists_areValuesOf hmem
    have hplaced := hvalues.set hs hv
    have hvalid := hsound _ ((admits_oneRest_iff hroot hzip).2 ⟨count, hplaced⟩)
    refine ((valid_oneRest_iff hroot hzip).1 hvalid).2 i v ?_
    have hi : i < values.length := hvalues.length_eq ▸ (List.getElem?_eq_some_iff.1 hs).1
    exact List.getElem?_set_self hi
  · intro hcovered values hadmits
    obtain ⟨count, hvalues⟩ := (admits_oneRest_iff hroot hzip).1 hadmits
    exact valid_of_coveredBy hroot hzip hvalues (hcovered count)

/-- If an element stands for no value, then all values of the tuple are valid: the tuple has none,
or the rest is never there. -/
lemma valid_of_not_denotes {t : Literal} (ht : t ∈ a :: (before ++ after))
    (hnone : ¬ ∃ v, t.Denotes (some v)) (h : b.Admits (.arr values)) :
    b.document.Valid isMatch (.arr values) := by
  obtain ⟨count, hvalues⟩ := (admits_oneRest_iff hroot hzip).1 h
  have hnot : t ∉ stretch before a after count := fun hmem => hnone (hvalues.exists_value hmem)
  cases count with
  | zero =>
    refine valid_of_coveredBy hroot hzip hvalues fun i s hs => ?_
    have hown : (before ++ after)[i]? = some s := hs
    rw [hown]
    exact coveredBy_refl s
  | succ count =>
    refine absurd ?_ hnot
    simp only [stretch, List.mem_append, List.replicate_succ, List.mem_cons] at ht ⊢
    tauto

end

end Schema

namespace Bundle

/-- The document of a tuple of literals, required ones and at most one rest, holds of all values of
the tuple if and only if the rest and the elements behind it agree: what one of them stands for is
valid for all that follow it, and for the rest.  Nothing is asked if the rest comes last, or if some
element stands for no value. -/
theorem forall_valid_tuple_iff {isMatch : String → String → Bool} {b : Bundle}
    {literals : List Literal} {flags : List ElementFlag}
    (hroot : b.root = .tuple (literals.map .literal) flags)
    (hoptional : ElementFlag.optional ∉ flags) (hrest : flags.count .rest ≤ 1) :
    (∀ values, b.Admits (.arr values) → b.document.Valid isMatch (.arr values)) ↔
      ((∀ e ∈ flags.zip literals, ∃ v, e.2.Denotes (some v)) →
        ∀ before a after, flags.zip literals = Schema.oneRest before a after →
          (a :: (after ++ [a])).Pairwise (Literal.CoveredBy isMatch)) := by
  have hcount : ((flags.zip literals).map (·.1)).count .rest ≤ 1 :=
    Nat.le_trans ((Schema.map_fst_zip_sublist flags literals).count_le _) hrest
  have hflags : ∀ e ∈ flags.zip literals, e.1 ≠ .optional := fun e he hflag =>
    hoptional (hflag ▸ (List.of_mem_zip he).1)
  rcases Schema.forall_required_or_exists_oneRest hflags hcount with
    hall | ⟨before, a, after, hzip⟩
  · refine iff_of_true (fun values => Schema.valid_of_required hroot hall) ?_
    intro _ before a after hzip
    have hmem : (ElementFlag.rest, a) ∈ flags.zip literals := by
      rw [hzip]
      exact List.mem_append_right _ (List.mem_cons_self ..)
    cases hall _ hmem
  · by_cases hvalues : ∀ e ∈ flags.zip literals, ∃ v, e.2.Denotes (some v)
    · have hiff : ∀ before a after, flags.zip literals = Schema.oneRest before a after →
          ((∀ values, b.Admits (.arr values) → b.document.Valid isMatch (.arr values)) ↔
            (a :: (after ++ [a])).Pairwise (Literal.CoveredBy isMatch)) := by
        intro before a after hzip
        refine Schema.forall_valid_oneRest_iff hroot hzip fun t ht => ?_
        obtain ⟨e, he, rfl⟩ := Schema.mem_oneRest.2 ht
        exact hvalues e (hzip ▸ he)
      constructor
      · exact fun hsound _ before a after hzip => (hiff before a after hzip).1 hsound
      · exact fun hcovered => (hiff before a after hzip).2 (hcovered hvalues before a after hzip)
    · simp only [not_forall] at hvalues
      obtain ⟨e, he, hnone⟩ := hvalues
      refine iff_of_true (fun values => ?_) fun hvalues => absurd (hvalues e he) hnone
      exact Schema.valid_of_not_denotes hroot hzip (Schema.mem_oneRest.1 ⟨e, hzip ▸ he, rfl⟩) hnone

/-- Any number of `"a"`, and then a `"z"`. -/
def closedByZ : Bundle := ⟨.tuple [.string "a", .string "z"] [.rest, .required], []⟩

theorem exists_not_valid_closedByZ : ∃ values, closedByZ.Admits (.arr values) ∧
    ¬ closedByZ.document.Valid (fun _ _ => false) (.arr values) := by
  by_contra hnone
  have hsound : ∀ values, closedByZ.Admits (.arr values) →
      closedByZ.document.Valid (fun _ _ => false) (.arr values) := by
    intro values hadmits
    by_contra hvalid
    exact hnone ⟨values, hadmits, hvalid⟩
  have hroot : closedByZ.root =
      .tuple ([Literal.string "a", .string "z"].map .literal) [.rest, .required] := rfl
  have hvalues : ∀ e ∈ [ElementFlag.rest, .required].zip [Literal.string "a", .string "z"],
      ∃ v, e.2.Denotes (some v) := by
    simp only [List.zip_cons_cons, List.forall_mem_cons]
    exact ⟨⟨_, .string _⟩, ⟨_, .string _⟩, List.forall_mem_nil _⟩
  have hpairwise := (forall_valid_tuple_iff hroot (by decide) (by decide)).1 hsound hvalues []
    (.string "a") [.string "z"] rfl
  have hcovered := List.rel_of_pairwise_cons hpairwise (List.mem_cons_self ..)
  exact absurd (Schema.coveredBy_string_iff.1 hcovered) (by decide)

end Bundle

end ValueSchema
