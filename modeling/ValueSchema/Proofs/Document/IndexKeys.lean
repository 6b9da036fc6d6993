/-
# The open keys of an object in its document

An object with open keys is written with a document for every pattern of its keys, and one for all
names that no pattern matches.  Keys of one pattern share a place there, and the last of them takes
it: the values of the others are lost.  The documents of several patterns that match a name count
all together, while those of the other keys are alternatives.  So a value under a name that a key
stands for, and which fits the document of that key, is valid if and only if it fits all the last
entries whose patterns match the name.
-/
import ValueSchema.Proofs.Document.Admission
import ValueSchema.Proofs.Pattern.Admission

namespace ValueSchema

namespace Schema

/-! ## Patterns of keys -/

/-- The pattern of a key that has one of its own. -/
def keyPattern? : Schema → Option Pattern
  | primitive .number o => some (pattern (primitive .number o))
  | template items => some (pattern (template items))
  | _ => none

/-- Among the open keys of an object this is the last entry with its pattern, and the pattern matches
a name. -/
def Governs (indexKeys : List (Schema × Schema)) (name : String) (e : Schema × Schema) : Prop :=
  ∃ earlier later p, indexKeys = earlier ++ e :: later ∧ keyPattern? e.1 = some p ∧
    (∀ f ∈ later, ∀ q, keyPattern? f.1 = some q → q.anchored ≠ p.anchored) ∧
    Regex.Matches p.anchored name

lemma eq_pattern_of_keyPattern? {s : Schema} {p : Pattern} (h : keyPattern? s = some p) :
    p = s.pattern := by
  unfold keyPattern? at h
  split at h <;> cases h <;> rfl

lemma keyText?_eq (s : Schema) : keyText? s = (keyPattern? s).map Pattern.anchored := by
  unfold keyText?
  split
  · rfl
  · rfl
  · rename_i hnumber htemplate
    rw [keyPattern?, Option.map_none]
    · exact hnumber
    · exact htemplate

lemma objectKeywords_nil (indexKeys : List (Schema × Json)) :
    objectKeywords [] indexKeys = ("type", .str "object") ::
      (patternKeyword (patternDocuments indexKeys) ++
        additionalKeyword (otherDocuments indexKeys)) := rfl

/-! ## The document of an object with one property -/

section

variable {isMatch : String → String → Bool} {document v : Json} {name : String}
  {keywords : List (String × Json)}

lemma holds_patternKeyword_iff {patterns : Entries Json} :
    (∀ k ∈ patternKeyword patterns, Json.Holds isMatch document keywords (.obj [(name, v)]) k) ↔
      ∀ p ∈ patterns, isMatch p.1 name = true → Json.Fits isMatch document p.2 v := by
  cases patterns with
  | nil => exact iff_of_true (List.forall_mem_nil _) (List.forall_mem_nil _)
  | cons p rest =>
    refine List.forall_mem_singleton.trans (Json.holds_patternProperties_iff.trans ?_)
    simp only [List.forall_mem_singleton]

lemma holds_additionalKeyword_iff {ds : List Json} :
    (∀ k ∈ additionalKeyword ds, Json.Holds isMatch document keywords (.obj [(name, v)]) k) ↔
      (Json.isAdditional isMatch keywords name = true → ds ≠ [] →
        ∃ d ∈ ds, Json.Fits isMatch document d v) := by
  match ds with
  | [] => exact iff_of_true (List.forall_mem_nil _) fun _ h => absurd rfl h
  | [d] =>
    refine List.forall_mem_singleton.trans (Json.holds_additionalProperties_iff.trans ?_)
    simp
  | d :: d' :: ds =>
    refine List.forall_mem_singleton.trans (Json.holds_additionalProperties_iff.trans ?_)
    simp only [List.forall_mem_singleton, Json.fits_obj_iff, Json.holds_anyOf_iff]
    simp

lemma isAdditional_objectKeywords {indexKeys : List (Schema × Json)} :
    Json.isAdditional isMatch (objectKeywords [] indexKeys) name = true ↔
      ∀ p ∈ patternDocuments indexKeys, isMatch p.1 name = false := by
  have hadditional : ∀ key ds, key ≠ "additionalProperties" →
      Entries.get? key (additionalKeyword ds) = none := by
    intro key ds hkey
    match ds with
    | [] => rfl
    | [_] | _ :: _ :: _ => exact if_neg (Ne.symm hkey)
  have hproperties : Entries.get? "properties" (objectKeywords [] indexKeys) = none := by
    rw [objectKeywords_nil, Entries.get?, if_neg (by decide), Entries.get?_append,
      hadditional _ _ (by decide), Option.or_none]
    cases patternDocuments indexKeys <;> rfl
  have hpatterns : ((Entries.get? "patternProperties" (objectKeywords [] indexKeys)).bind
      Json.toEntries?).getD [] = patternDocuments indexKeys := by
    rw [objectKeywords_nil, Entries.get?, if_neg (by decide), Entries.get?_append,
      hadditional _ _ (by decide), Option.or_none]
    cases patternDocuments indexKeys <;> rfl
  simp only [Json.isAdditional, hproperties, hpatterns]
  simp [Entries.contains, Entries.get?]

lemma fits_objectDocument_singleton_iff {indexKeys : List (Schema × Json)} :
    Json.Fits isMatch document (objectDocument [] indexKeys) (.obj [(name, v)]) ↔
      (∀ p ∈ patternDocuments indexKeys, isMatch p.1 name = true →
        Json.Fits isMatch document p.2 v) ∧
      ((∀ p ∈ patternDocuments indexKeys, isMatch p.1 name = false) →
        otherDocuments indexKeys ≠ [] →
          ∃ d ∈ otherDocuments indexKeys, Json.Fits isMatch document d v) := by
  rw [objectDocument_eq, Json.fits_obj_iff, ← isAdditional_objectKeywords,
    ← holds_patternKeyword_iff, ← holds_additionalKeyword_iff, ← List.forall_mem_append]
  exact List.forall_mem_cons.trans (and_iff_right (Json.holds_type rfl))

end

/-! ## Which entries count -/

section

variable {defined : String → Bool} {indexKeys : List (Schema × Schema)}

/-- The documents under patterns are those of the last entries with their patterns. -/
lemma mem_patternDocuments_iff_keyPattern? {text : String} {d : Json} :
    (text, d) ∈ patternDocuments (describeKeys defined indexKeys) ↔
      ∃ earlier e later p, indexKeys = earlier ++ e :: later ∧ keyPattern? e.1 = some p ∧
        p.anchored = text ∧ e.2.describe defined = d ∧
        ∀ f ∈ later, ∀ q, keyPattern? f.1 = some q → q.anchored ≠ text := by
  rw [mem_patternDocuments_iff]
  simp only [keyText?_eq, ne_eq, Option.map_eq_some_iff, not_exists, not_and]
  constructor
  · rintro ⟨earlier, e, later, hsplit, ⟨p, hp, htext⟩, hd, hlast⟩
    exact ⟨earlier, e, later, p, hsplit, hp, htext, hd, hlast⟩
  · rintro ⟨earlier, e, later, p, hsplit, hp, htext, hd, hlast⟩
    exact ⟨earlier, e, later, hsplit, ⟨p, hp, htext⟩, hd, hlast⟩

/-- The documents under patterns that match a name are those of the entries that govern it. -/
lemma forall_patternDocuments_iff {isMatch : String → String → Bool}
    (hmatch : Regex.IsDecidedBy isMatch) {name : String} (P : Json → Prop) :
    (∀ p ∈ patternDocuments (describeKeys defined indexKeys), isMatch p.1 name = true → P p.2) ↔
      ∀ e, Governs indexKeys name e → P (e.2.describe defined) := by
  have hdecided : ∀ p : Pattern, isMatch p.anchored name = true ↔
      Regex.Matches p.anchored name := fun p =>
    hmatch _ name (by rw [Pattern.read?_anchored]; rfl)
  constructor
  · rintro h e ⟨earlier, later, p, hsplit, hp, hlast, hmatches⟩
    exact h _ (mem_patternDocuments_iff_keyPattern?.2
      ⟨earlier, e, later, p, hsplit, hp, rfl, rfl, hlast⟩) ((hdecided p).2 hmatches)
  · rintro h ⟨text, d⟩ hmem hmatches
    obtain ⟨earlier, e, later, p, hsplit, hp, rfl, rfl, hlast⟩ :=
      mem_patternDocuments_iff_keyPattern?.1 hmem
    exact h e ⟨earlier, later, p, hsplit, hp, hlast, (hdecided p).1 hmatches⟩

lemma mem_otherDocuments_iff_keyPattern? {d : Json} :
    d ∈ otherDocuments (describeKeys defined indexKeys) ↔
      ∃ e ∈ indexKeys, keyPattern? e.1 = none ∧ e.2.describe defined = d := by
  simp only [mem_otherDocuments_iff, keyText?_eq, Option.map_eq_none_iff]

/-- Some entry governs a name that the pattern of a key matches. -/
lemma exists_governs {key value : Schema} (hentry : (key, value) ∈ indexKeys) {p : Pattern}
    (hp : keyPattern? key = some p) {name : String} (hmatches : Regex.Matches p.anchored name) :
    ∃ e, Governs indexKeys name e := by
  have hin : p.anchored ∈
      Entries.names (patternDocuments (describeKeys (fun _ => false) indexKeys)) := by
    rw [patternDocuments, Entries.mem_names_ofList, describeKeys_eq_map, List.filterMap_map]
    refine Entries.mem_names_of_mem (e := (p.anchored, value.describe fun _ => false)) ?_
    exact List.mem_filterMap.2 ⟨_, hentry, by simp [keyText?_eq, hp]⟩
  obtain ⟨⟨_, d⟩, hd, rfl⟩ := List.mem_map.1 hin
  obtain ⟨earlier, e, later, q, hsplit, hq, htext, -, hlast⟩ :=
    mem_patternDocuments_iff_keyPattern?.1 hd
  refine ⟨e, earlier, later, q, hsplit, hq, ?_, ?_⟩
  · rwa [htext]
  · rwa [htext]

end

end Schema

namespace Bundle

open Schema

variable {isMatch : String → String → Bool} {b : Bundle} {indexKeys : List (Schema × Schema)}
  {name : String} {v : Json}

/-- The value of the only property of an object has to fit all entries that govern its name.  If
there are none, then it has to fit one of the entries whose keys have no pattern, if there are such
entries. -/
lemma valid_singleton_iff (hmatch : Regex.IsDecidedBy isMatch)
    (hroot : b.root = .object [] indexKeys) :
    b.document.Valid isMatch (.obj [(name, v)]) ↔
      (∀ e, Governs indexKeys name e →
        Json.Fits isMatch b.document (e.2.describe b.defines) v) ∧
      ((∀ e, ¬ Governs indexKeys name e) → (∃ e ∈ indexKeys, keyPattern? e.1 = none) →
        ∃ e ∈ indexKeys, keyPattern? e.1 = none ∧
          Json.Fits isMatch b.document (e.2.describe b.defines) v) := by
  have hungoverned : (∀ p ∈ patternDocuments (describeKeys b.defines indexKeys),
      isMatch p.1 name = false) ↔ ∀ e, ¬ Governs indexKeys name e := by
    simp only [← Bool.not_eq_true]
    exact forall_patternDocuments_iff hmatch fun _ => False
  have hothers : otherDocuments (describeKeys b.defines indexKeys) ≠ [] ↔
      ∃ e ∈ indexKeys, keyPattern? e.1 = none := by
    constructor
    · intro hne
      obtain ⟨d, hd⟩ := List.exists_mem_of_ne_nil _ hne
      obtain ⟨e, he, hnone, -⟩ := mem_otherDocuments_iff_keyPattern?.1 hd
      exact ⟨e, he, hnone⟩
    · rintro ⟨e, he, hnone⟩
      exact List.ne_nil_of_mem (mem_otherDocuments_iff_keyPattern?.2 ⟨e, he, hnone, rfl⟩)
  have hfits : (∃ d ∈ otherDocuments (describeKeys b.defines indexKeys),
      Json.Fits isMatch b.document d v) ↔ ∃ e ∈ indexKeys, keyPattern? e.1 = none ∧
        Json.Fits isMatch b.document (e.2.describe b.defines) v := by
    simp only [mem_otherDocuments_iff_keyPattern?]
    grind
  rw [valid_document_iff, hroot, describe]
  change Json.Fits isMatch b.document (objectDocument [] _) _ ↔ _
  rw [fits_objectDocument_singleton_iff, hungoverned, hothers, hfits,
    forall_patternDocuments_iff hmatch fun d => Json.Fits isMatch b.document d v]

/-- Under a name that an open key stands for, a value that fits the document of that entry is valid
if and only if it fits all the entries that govern the name: a later entry with the same pattern
takes the place of this one, and those with other patterns count as well.  A name of more than one
line may have no pattern that matches it.  Then it counts as a name of no key, and its value is
valid if all keys have patterns, or else if it fits one of the entries whose keys have none. -/
theorem valid_open_key_iff (hmatch : Regex.IsDecidedBy isMatch)
    (hroot : b.root = .object [] indexKeys) {key value : Schema}
    (hentry : (key, value) ∈ indexKeys) (hname : key.AdmitsText name)
    (hv : Json.Fits isMatch b.document (value.describe b.defines) v) :
    b.document.Valid isMatch (.obj [(name, v)]) ↔
      (∀ e, Governs indexKeys name e →
        Json.Fits isMatch b.document (e.2.describe b.defines) v) ∧
      (Text.IsOneLine name ∨ (∃ e, Governs indexKeys name e) ∨
        (∀ e ∈ indexKeys, keyPattern? e.1 ≠ none) ∨
        ∃ e ∈ indexKeys, keyPattern? e.1 = none ∧
          Json.Fits isMatch b.document (e.2.describe b.defines) v) := by
  rw [valid_singleton_iff hmatch hroot]
  refine and_congr_right fun _ => ⟨fun hothers => ?_, ?_⟩
  · by_cases hgoverned : ∃ e, Governs indexKeys name e
    · exact Or.inr (Or.inl hgoverned)
    · by_cases hall : ∀ e ∈ indexKeys, keyPattern? e.1 ≠ none
      · exact Or.inr (Or.inr (Or.inl hall))
      · simp only [not_forall, not_not] at hall
        obtain ⟨e, he, hnone⟩ := hall
        exact Or.inr (Or.inr (Or.inr (hothers (not_exists.1 hgoverned) ⟨e, he, hnone⟩)))
  · rintro (hline | ⟨e, he⟩ | hall | hfits) hno ⟨f, hf, hfnone⟩
    · cases hp : keyPattern? key with
      | none => exact ⟨_, hentry, hp, hv⟩
      | some p =>
        -- the key itself has a pattern, which matches the name
        obtain rfl := eq_pattern_of_keyPattern? hp
        obtain ⟨e, he⟩ := exists_governs hentry hp (hname.matches hline)
        exact absurd he (hno e)
    · exact absurd he (hno e)
    · exact absurd hfnone (hall f hf)
    · exact hfits

/-- Texts under all numbers, and then truth values under all numbers. -/
def renumbered : List (Schema × Schema) :=
  [(.plain .number, .plain .string), (.plain .number, .plain .boolean)]

/-- The text under a number is lost. -/
theorem not_valid_renumbered : (Schema.plain .number).AdmitsText "0" ∧
    Json.Fits Regex.search (Bundle.document ⟨.object [] renumbered, []⟩)
      ((Schema.plain .string).describe fun _ => false) (.str "x") ∧
    ¬ (Bundle.document ⟨.object [] renumbered, []⟩).Valid Regex.search
      (.obj [("0", .str "x")]) := by
  have hname : (Schema.plain .number).AdmitsText "0" := by
    have hzero : Number.toText 0 = "0" := by decide +kernel
    rw [← hzero]
    exact .number (by decide +kernel)
  have hv : Json.Fits Regex.search (Bundle.document ⟨.object [] renumbered, []⟩)
      ((Schema.plain .string).describe fun _ => false) (.str "x") := fits_ofType rfl
  refine ⟨hname, hv, fun hvalid => ?_⟩
  have hgoverns : Governs renumbered "0" (.plain .number, .plain .boolean) :=
    ⟨[(.plain .number, .plain .string)], [], .number, rfl, rfl, List.forall_mem_nil _,
      hname.matches (by decide)⟩
  have hfits := ((valid_open_key_iff Regex.isDecidedBy_search rfl (List.mem_cons_self ..) hname
    hv).1 hvalid).1 _ hgoverns
  exact absurd (fits_ofType_iff.1 hfits) (by decide)

end Bundle

end ValueSchema
