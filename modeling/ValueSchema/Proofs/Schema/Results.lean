/-
# Unions of results

An operator other than the logical ones gives a literal or a symbolic operation for each choice of
alternatives.  In a union of such results nothing happens but three things: of like results one
stays, the two truth values become the type of both, and next to that type a single truth value
goes.  `joined_unionOf` says so, in terms of the members before and after.  So the alternatives are
determined by the results, in whatever order and in however many steps these are joined:
`StandsFor.sameAlternatives`.
-/
import ValueSchema.Proofs.Schema.Normal

namespace ValueSchema.Schema

/-- A result of an operator: a literal, a symbolic operation, or the type of both truth values. -/
inductive IsResult : Schema → Prop
  | literal (value : Literal) : IsResult (.literal value)
  | binary (op : BinaryOperator) (left right : Schema) : IsResult (.binary op left right)
  | boolean : IsResult (.plain .boolean)

variable {s t : Schema} {items members : List Schema} {kind : Primitive}

namespace IsResult

lemma alternatives_eq (h : s.IsResult) : s.alternatives = [s] := by cases h <;> rfl

lemma isPrimitive_never (h : s.IsResult) : s.isPrimitive .never = false := by cases h <;> rfl

lemma isPlain_eq_false (h : s.IsResult) {kind : Primitive} (hkind : kind ≠ .boolean) :
    s.isPlain kind = false := by
  cases h with
  | boolean => simpa [plain, isPlain] using Ne.symm hkind
  | _ => rfl

end IsResult

lemma isTruthValue_iff : s.isTruthValue = true ↔ ∃ b, s = boolean b := by
  constructor
  · intro h
    cases s with
    | literal value =>
      cases value with
      | boolean b => exact ⟨b, rfl⟩
      | _ => cases h
    | _ => cases h
  · rintro ⟨b, rfl⟩
    rfl

lemma eq_boolean_of_equal {b : Bool} (h : equal s (boolean b) = true) : s = boolean b := by
  obtain ⟨c, rfl⟩ := isTruthValue_iff.1 (isTruthValue_of_equal h)
  obtain rfl : c = b := by simpa [boolean, equal, Literal.same] using h
  rfl

lemma isTruthValue_congr (h : equal s t = true) : s.isTruthValue = t.isTruthValue := by
  cases s with
  | literal value =>
    cases t with
    | literal other => cases value <;> cases other <;> first | rfl | cases h
    | _ => cases h
  | _ =>
    cases t with
    | literal other => cases h
    | _ => rfl

/-! ## Truth values -/

lemma any_equal_boolean_iff {b : Bool} :
    items.any (equal · (boolean b)) = true ↔ boolean b ∈ items := by
  rw [List.any_eq_true]
  constructor
  · rintro ⟨s, hs, hequal⟩
    exact eq_boolean_of_equal hequal ▸ hs
  · exact fun h => ⟨_, h, by cases b <;> rfl⟩

lemma truthApart_iff :
    TruthApart items ↔ ¬(boolean true ∈ items ∧ boolean false ∈ items) := by
  rw [TruthApart, ← Bool.not_eq_true, Bool.and_eq_true, any_equal_boolean_iff,
    any_equal_boolean_iff]

/-- With both truth values there, what stays is everything else, and their type comes in, unless
something is taken for it. -/
lemma mem_joinTruthValues_iff : s ∈ joinTruthValues items ↔
    (s ∈ items ∧ ¬((boolean true ∈ items ∧ boolean false ∈ items) ∧ s.isTruthValue = true)) ∨
      (s = plain .boolean ∧ (boolean true ∈ items ∧ boolean false ∈ items) ∧
        ∀ o, primitive .boolean o ∉ items) := by
  by_cases hboth : boolean true ∈ items ∧ boolean false ∈ items
  · have hany : (items.any (equal · (boolean true)) && items.any (equal · (boolean false))) =
        true := by
      rw [Bool.and_eq_true, any_equal_boolean_iff, any_equal_boolean_iff]
      exact hboth
    have htype : (items.filter fun s => !s.isTruthValue).any (equal · (plain .boolean)) = true ↔
        ∃ o, primitive .boolean o ∈ items := by
      rw [List.any_eq_true]
      constructor
      · rintro ⟨t, ht, hequal⟩
        cases t with
        | primitive k o =>
          obtain rfl : k = .boolean := by simpa [plain, equal] using hequal
          exact ⟨o, List.mem_of_mem_filter ht⟩
        | _ => cases hequal
      · rintro ⟨o, ho⟩
        exact ⟨_, List.mem_filter.2 ⟨ho, rfl⟩, rfl⟩
    rw [joinTruthValues, if_pos hany]
    dsimp only
    split
    · rename_i hfound
      obtain ⟨o, ho⟩ := htype.1 hfound
      have hnone : ¬∀ o, primitive .boolean o ∉ items := fun h => h o ho
      simp [hboth, hnone]
    · rename_i hfound
      have hnone : ∀ o, primitive .boolean o ∉ items := fun o ho => hfound (htype.2 ⟨o, ho⟩)
      rw [List.perm_middle.mem_iff, List.take_append_drop, List.mem_cons, List.mem_filter]
      simp [hboth, hnone, or_comm]
  · rw [joinTruthValues_of_truthApart (truthApart_iff.2 hboth)]
    simp [hboth]

/-- The type of both truth values comes in only where both are. -/
lemma joinTruthValues_sound (h : s ∈ joinTruthValues items) :
    s ∈ items ∨ (s = plain .boolean ∧ boolean true ∈ items ∧ boolean false ∈ items) := by
  rcases mem_joinTruthValues_iff.1 h with ⟨hmem, -⟩ | ⟨heq, hboth, -⟩
  · exact Or.inl hmem
  · exact Or.inr ⟨heq, hboth⟩

/-- Every result stays, except that a truth value may become the type of both. -/
lemma joinTruthValues_complete (hitems : ∀ t ∈ items, t.IsResult) (h : s ∈ items) :
    s ∈ joinTruthValues items ∨
      (s.isTruthValue = true ∧ plain .boolean ∈ joinTruthValues items) := by
  by_cases hgone : (boolean true ∈ items ∧ boolean false ∈ items) ∧ s.isTruthValue = true
  · refine Or.inr ⟨hgone.2, mem_joinTruthValues_iff.2 ?_⟩
    by_cases hboolean : plain .boolean ∈ items
    · exact Or.inl ⟨hboolean, fun hjoined => by cases hjoined.2⟩
    · refine Or.inr ⟨rfl, hgone.1, fun o ho => ?_⟩
      cases hitems _ ho with
      | boolean => exact hboolean ho
  · exact Or.inl (mem_joinTruthValues_iff.2 (Or.inl ⟨h, hgone⟩))

/-! ## Covered literals -/

lemma mem_filterMap_plain? : kind ∈ items.filterMap plain? ↔ plain kind ∈ items := by
  rw [List.mem_filterMap]
  constructor
  · rintro ⟨s, hs, hkind⟩
    cases s with
    | primitive k o =>
      cases o with
      | none =>
        obtain rfl : k = kind := Option.some.inj hkind
        exact hs
      | some n => cases hkind
    | _ => cases hkind
  · exact fun h => ⟨_, h, rfl⟩

/-- A literal stays if its type is not there, and everything else stays anyway. -/
lemma mem_dropCovered_iff : s ∈ dropCovered items ↔
    s ∈ items ∧ ∀ kind, s.literal?.bind Literal.primitive? = some kind → plain kind ∉ items := by
  rw [dropCovered, List.mem_filter, Bool.not_eq_true', ← Bool.not_eq_true, Option.any_eq_true]
  refine and_congr_right fun _ => ?_
  simp only [List.contains_iff_mem, mem_filterMap_plain?, not_exists, not_and]

/-- Of results, only truth values are covered, and only by the type of both. -/
lemma mem_dropCovered (hitems : ∀ t ∈ items, t.IsResult) :
    s ∈ dropCovered items ↔
      s ∈ items ∧ (plain .boolean ∈ items → s.isTruthValue = false) := by
  have htruth : s.literal?.bind Literal.primitive? = some .boolean ↔ s.isTruthValue = true := by
    cases s with
    | literal value => cases value <;> simp [literal?, Literal.primitive?, isTruthValue]
    | _ => simp [literal?, isTruthValue]
  rw [mem_dropCovered_iff, ← Bool.not_eq_true, ← htruth]
  refine and_congr_right fun _ => ⟨fun hopen hmem hboolean => hopen _ hboolean hmem, ?_⟩
  intro hboolean kind hkind hmem
  have hresult := hitems _ hmem
  generalize hplain : plain kind = t at hresult hmem
  cases hresult with
  | boolean =>
    obtain rfl : kind = .boolean := by simpa [plain] using hplain
    exact hboolean hmem hkind
  | _ => cases hplain

/-! ## The members of a union -/

/-- Structural equality, as a relation. -/
abbrev Equals (s t : Schema) : Prop := equal s t = true

/-- Members stand for results: each is a result or stands for both truth values, and each result has
a member of its like or is a truth value for which the type of both stands. -/
structure Joined (like : Schema → Schema → Prop) (results members : List Schema) : Prop where
  sound : ∀ s ∈ members, s ∈ results ∨
    (s = plain .boolean ∧ boolean true ∈ results ∧ boolean false ∈ results)
  complete : ∀ s ∈ results, ∃ t ∈ members, like t s ∨
    (s.isTruthValue = true ∧ t = plain .boolean)

/-- Among members, a truth value stands neither next to the other one nor next to their type. -/
structure Tidy (members : List Schema) : Prop where
  apart : TruthApart members
  covered : plain .boolean ∈ members → ∀ s ∈ members, s.isTruthValue = false

lemma Joined.congr {like : Schema → Schema → Prop} {results others : List Schema}
    (h : Joined like results members) (hmem : ∀ s, s ∈ results ↔ s ∈ others) :
    Joined like others members := by
  refine ⟨fun s hs => ?_, fun s hs => h.complete s ((hmem s).2 hs)⟩
  rw [← hmem, ← hmem, ← hmem]
  exact h.sound s hs

lemma tidy_singleton (s : Schema) : Tidy [s] := by
  refine ⟨truthApart_singleton s, fun hmem => ?_⟩
  rw [← List.mem_singleton.1 hmem]
  exact List.forall_mem_singleton.2 rfl

/-- Two schemas are identical, or the same member of a union. -/
def Alike (s t : Schema) : Prop := s = t ∨ sameMember s t = true

lemma Alike.isTruthValue_eq (h : Alike s t) : s.isTruthValue = t.isTruthValue := by
  rcases h with rfl | h
  · rfl
  · rw [sameMember, Bool.and_eq_true] at h
    exact isTruthValue_congr h.1

lemma alternatives_ofMembers (hne : members ≠ []) (h : ∀ s ∈ members, s.IsResult) :
    (ofMembers members).alternatives = members := by
  match members with
  | [] => exact absurd rfl hne
  | [s] => exact (h s (List.mem_singleton_self s)).alternatives_eq
  | _ :: _ :: _ => rfl

/-- Results that are joined: first the truth values, and then the literals that are covered. -/
lemma joined_members (h : ∀ s ∈ items, s.IsResult) :
    Joined Eq items (dropCovered (joinTruthValues items)) := by
  have hjoin : ∀ s ∈ joinTruthValues items, s.IsResult := by
    intro s hs
    rcases mem_of_mem_joinTruthValues hs with hin | rfl
    · exact h s hin
    · exact .boolean
  have hboolean : plain .boolean ∈ joinTruthValues items →
      plain .boolean ∈ dropCovered (joinTruthValues items) := fun hmem =>
    (mem_dropCovered hjoin).2 ⟨hmem, fun _ => rfl⟩
  refine ⟨fun s hs => joinTruthValues_sound ((mem_dropCovered hjoin).1 hs).1, fun s hs => ?_⟩
  rcases joinTruthValues_complete h hs with hin | ⟨htruth, hin⟩
  · by_cases hkept : s ∈ dropCovered (joinTruthValues items)
    · exact ⟨s, hkept, Or.inl rfl⟩
    · rw [mem_dropCovered hjoin, not_and, Classical.not_imp, Bool.not_eq_false] at hkept
      obtain ⟨hmem, htruth⟩ := hkept hin
      exact ⟨_, hboolean hmem, Or.inr ⟨htruth, rfl⟩⟩
  · exact ⟨_, hboolean hin, Or.inr ⟨htruth, rfl⟩⟩

section

variable (hne : items.flatMap alternatives ≠ []) (h : ∀ s ∈ items.flatMap alternatives, s.IsResult)

include h

lemma flatMembers_of_isResult : flatMembers items = dedupe (items.flatMap alternatives) :=
  List.filter_eq_self.2 fun s hs => by rw [(h s (mem_of_mem_dedupe hs)).isPrimitive_never]; rfl

lemma isPlain_of_mem_flatMembers (hs : s ∈ flatMembers items) :
    s.isPlain .any = false ∧ s.isPlain .unknown = false := by
  rw [flatMembers_of_isResult h] at hs
  have hresult := h s (mem_of_mem_dedupe hs)
  exact ⟨hresult.isPlain_eq_false (by decide), hresult.isPlain_eq_false (by decide)⟩

/-- A union of results is made up of the results that are left. -/
lemma unionOf_of_isResult : unionOf items =
    ofMembers (dropCovered (joinTruthValues (dedupe (items.flatMap alternatives)))) := by
  rcases unionOf_cases items with ⟨s, hs, hswallows, -⟩ | ⟨-, heq⟩
  · obtain ⟨hany, hunknown⟩ := isPlain_of_mem_flatMembers h hs
    rw [hany, hunknown] at hswallows
    simp at hswallows
  · rw [heq, flatMembers_of_isResult h]

include hne

lemma alternatives_unionOf : (unionOf items).alternatives =
      dropCovered (joinTruthValues (dedupe (items.flatMap alternatives))) ∧
    UnionNormal (unionOf items).alternatives := by
  have hresult : ∀ s ∈ dedupe (items.flatMap alternatives), s.IsResult := fun s hs =>
    h s (mem_of_mem_dedupe hs)
  have hjoined := joined_members hresult
  have hmembers : (unionOf items).alternatives =
      dropCovered (joinTruthValues (dedupe (items.flatMap alternatives))) := by
    rw [unionOf_of_isResult h]
    refine alternatives_ofMembers ?_ fun s hs => ?_
    · obtain ⟨s, hs⟩ := List.exists_mem_of_ne_nil _ hne
      obtain ⟨t, ht, -⟩ := exists_mem_dedupe hs
      obtain ⟨u, hu, -⟩ := hjoined.complete t ht
      exact List.ne_nil_of_mem hu
    · rcases hjoined.sound s hs with hin | ⟨rfl, -⟩
      · exact hresult s hin
      · exact .boolean
  refine ⟨hmembers, ?_⟩
  rw [hmembers, ← flatMembers_of_isResult h]
  exact unionNormal_members fun s hs => isPlain_of_mem_flatMembers h hs

/-- The members of a union stand for the results that are joined in it. -/
theorem joined_unionOf : Joined Alike (items.flatMap alternatives) (unionOf items).alternatives := by
  rw [(alternatives_unionOf hne h).1]
  have hjoined := joined_members fun s hs => h s (mem_of_mem_dedupe hs)
  refine ⟨fun s hs => ?_, fun s hs => ?_⟩
  · exact (hjoined.sound s hs).imp mem_of_mem_dedupe
      (And.imp_right (And.imp mem_of_mem_dedupe mem_of_mem_dedupe))
  · obtain ⟨t, ht, hlike⟩ := exists_mem_dedupe hs
    obtain ⟨u, hu, hut⟩ := hjoined.complete t ht
    rcases hut with rfl | ⟨htruth, rfl⟩
    · exact ⟨u, hu, Or.inl hlike⟩
    · exact ⟨_, hu, Or.inr ⟨(Alike.isTruthValue_eq hlike).symm.trans htruth, rfl⟩⟩

/-- The members of a union of results are tidy. -/
theorem tidy_unionOf : Tidy (unionOf items).alternatives := by
  obtain ⟨hmembers, hnormal⟩ := alternatives_unionOf hne h
  have hresult : ∀ s ∈ (unionOf items).alternatives, s.IsResult := by
    intro s hs
    rcases (joined_unionOf hne h).sound s hs with hin | ⟨rfl, -⟩
    · exact h s hin
    · exact .boolean
  refine ⟨hnormal.truth, fun hmem s hs => ?_⟩
  rw [← hnormal.covered] at hs
  exact ((mem_dropCovered hresult).1 hs).2 hmem

end

/-! ## Members that stand for the same results -/

/-- A member that is like a primitive, also in what it stands for, is the primitive. -/
lemma eq_primitive_of_sameMember {o : Option NodeId}
    (h : sameMember s (primitive kind o) = true) : s = primitive kind o := by
  rw [sameMember, Bool.and_eq_true, beq_iff_eq] at h
  obtain ⟨hequal, hplaceholders⟩ := h
  cases s with
  | primitive k p =>
    obtain rfl : k = kind := by simpa [equal] using hequal
    cases o <;> cases p <;> simp_all [placeholders, subterms, placeholder?, isError, origin?]
  | _ => cases hequal

/-- Members that stand for members stand for what these stand for. -/
lemma Joined.trans {results middle : List Schema} (h : Joined Equals results middle)
    (h' : Joined Alike middle members) : Joined Equals results members := by
  have htruth : ∀ b, boolean b ∈ middle → boolean b ∈ results := by
    intro b hb
    rcases h.sound _ hb with hin | ⟨heq, -⟩
    · exact hin
    · cases heq
  refine ⟨fun s hs => ?_, fun s hs => ?_⟩
  · rcases h'.sound s hs with hin | ⟨rfl, htrue, hfalse⟩
    · exact h.sound s hin
    · exact Or.inr ⟨rfl, htruth _ htrue, htruth _ hfalse⟩
  · obtain ⟨t, ht, hts⟩ := h.complete s hs
    obtain ⟨u, hu, hut⟩ := h'.complete t ht
    refine ⟨u, hu, ?_⟩
    rcases hts with hequal | ⟨hs, rfl⟩
    · rcases hut with (rfl | hlike) | ⟨ht, hu⟩
      · exact Or.inl hequal
      · rw [sameMember, Bool.and_eq_true] at hlike
        exact Or.inl (equal_trans hlike.1 hequal)
      · exact Or.inr ⟨isTruthValue_congr hequal ▸ ht, hu⟩
    · rcases hut with (rfl | hlike) | ⟨ht, -⟩
      · exact Or.inr ⟨hs, rfl⟩
      · exact Or.inr ⟨hs, eq_primitive_of_sameMember hlike⟩
      · cases ht

/-- The alternatives of a schema stand for results, and are tidy. -/
structure StandsFor (s : Schema) (results : List Schema) : Prop where
  joined : Joined Equals results s.alternatives
  tidy : Tidy s.alternatives

variable {results : List Schema}

lemma standsFor_literal (value : Literal) : (literal value).StandsFor [literal value] :=
  ⟨⟨fun _ ht => Or.inl ht,
    List.forall_mem_singleton.2 ⟨_, List.mem_singleton_self _, Or.inl value.same_self⟩⟩,
    tidy_singleton _⟩

lemma standsFor_unionOf (hne : items.flatMap alternatives ≠ [])
    (hitems : ∀ s ∈ items.flatMap alternatives, s.IsResult)
    (h : Joined Equals results (items.flatMap alternatives)) : (unionOf items).StandsFor results :=
  ⟨h.trans (joined_unionOf hne hitems), tidy_unionOf hne hitems⟩

namespace StandsFor

lemma congr {others : List Schema} (h : s.StandsFor results)
    (hmem : ∀ x, x ∈ results ↔ x ∈ others) : s.StandsFor others :=
  ⟨h.joined.congr hmem, h.tidy⟩

/-- Where both truth values are results, the type of both is an alternative. -/
lemma boolean_mem (h : s.StandsFor results) (htrue : boolean true ∈ results)
    (hfalse : boolean false ∈ results) : plain .boolean ∈ s.alternatives := by
  obtain ⟨t, ht, hequal | ⟨-, rfl⟩⟩ := h.joined.complete _ htrue
  · obtain ⟨u, hu, hequal' | ⟨-, rfl⟩⟩ := h.joined.complete _ hfalse
    · have hapart := h.tidy.apart
      rw [TruthApart, Bool.and_eq_false_iff, List.any_eq_false, List.any_eq_false] at hapart
      rcases hapart with hnone | hnone
      · exact absurd hequal (hnone t ht)
      · exact absurd hequal' (hnone u hu)
    · exact hu
  · exact ht

lemma exists_equal {x : Schema} (hboolean : plain .boolean ∉ results) (hs : s.StandsFor results)
    (ht : t.StandsFor results) (hx : x ∈ s.alternatives) :
    ∃ y ∈ t.alternatives, equal y x = true := by
  rcases hs.joined.sound x hx with hin | ⟨rfl, htrue, hfalse⟩
  · obtain ⟨y, hy, hequal | ⟨htruth, rfl⟩⟩ := ht.joined.complete x hin
    · exact ⟨y, hy, hequal⟩
    · rcases ht.joined.sound _ hy with hin | ⟨-, htrue, hfalse⟩
      · exact absurd hin hboolean
      · -- a single truth value does not stand next to the type of both
        have hnone := hs.tidy.covered (hs.boolean_mem htrue hfalse) x hx
        rw [htruth] at hnone
        cases hnone
  · exact ⟨_, ht.boolean_mem htrue hfalse, by decide⟩

end StandsFor

/-- Each alternative of one schema has an equal one among those of the other. -/
def SameAlternatives (s t : Schema) : Prop :=
  (∀ x ∈ s.alternatives, ∃ y ∈ t.alternatives, equal y x = true) ∧
    ∀ y ∈ t.alternatives, ∃ x ∈ s.alternatives, equal x y = true

/-- Schemas that stand for the same results have the same alternatives: a truth value is one of them
just if the other one is not among the results. -/
theorem StandsFor.sameAlternatives (hboolean : plain .boolean ∉ results)
    (hs : s.StandsFor results) (ht : t.StandsFor results) : SameAlternatives s t :=
  ⟨fun _ hx => hs.exists_equal hboolean ht hx, fun _ hy => ht.exists_equal hboolean hs hy⟩

end ValueSchema.Schema
