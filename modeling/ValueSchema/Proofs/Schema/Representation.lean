/-
# What becomes of the members of a union

In normal form a union has fewer members than its arguments have.  Like members are joined, `any` and
`unknown` stand for all others, the type of both truth values comes in for the two of them, and a
literal goes if its type is there.  Whatever goes, something stands for it that does not depend on an
input.

There is one exception (`Swallows`).  If both truth values are there, and their type only as an input,
then the truth values go, but their type does not come in: the search for it finds the input.  An input
is not the type, its value may be only one of the two.  Apart from that every member is represented
(`represents_unionOf_iff`), where a union that comes down to a single member, itself a union, is seen
through its alternatives and no longer as that member (`Collapses`).
-/
import ValueSchema.Proofs.Schema.Matching
import ValueSchema.Proofs.Schema.Results

namespace ValueSchema.Schema

/-- Whether an alternative stands for a member: it is the same, or it is `any` or `unknown`, or the
member is a literal and the alternative its type. -/
def standsIn (a m : Schema) : Bool :=
  sameMember a m || a.isPlain .any || a.isPlain .unknown ||
    (m.literal?.bind Literal.primitive?).any fun kind => a.isPlain kind

/-- Whether one of the alternatives of a schema stands for a member. -/
def represents (s m : Schema) : Bool := s.alternatives.any fun a => a.standsIn m

/-- Both truth values are among the members, and their type is there as an input only. -/
structure Swallows (members : List Schema) : Prop where
  true_mem : boolean true ∈ members
  false_mem : boolean false ∈ members
  input : ∃ n, primitive .boolean (some n) ∈ members
  not_mem : plain .boolean ∉ members

/-- A member is a truth value that goes, and nothing stands for it. -/
structure IsLost (members : List Schema) (m : Schema) : Prop extends Swallows members where
  truth : m.isTruthValue = true
  any : plain .any ∉ members
  unknown : plain .unknown ∉ members

/-- A schema is the same as a member, and this is a union, whose members do not take in everything. -/
structure Collapses (s m : Schema) : Prop where
  same : sameMember s m = true
  inner : s.alternatives ≠ [s]
  open_any : ∀ a ∈ s.alternatives, a.isPlain .any = false ∧ a.isPlain .unknown = false

variable {v : Vocabulary} {s t a m : Schema} {items members : List Schema} {kind : Primitive}

lemma isPlain_iff : s.isPlain kind = true ↔ s = plain kind :=
  ⟨eq_of_isPlain, fun h => by rw [h]; exact beq_self_eq_true kind⟩

lemma standsIn_iff : a.standsIn m = true ↔
    sameMember a m = true ∨ (a.isPlain .any = true ∨ a.isPlain .unknown = true) ∨
      ∃ kind, m.literal?.bind Literal.primitive? = some kind ∧ a = plain kind := by
  simp only [standsIn, Bool.or_eq_true, Option.any_eq_true, isPlain_iff, or_assoc]

lemma represents_iff : s.represents m = true ↔ ∃ a ∈ s.alternatives, a.standsIn m = true :=
  List.any_eq_true

/-! ## Like members -/

lemma eq_boolean_of_like {b : Bool} (h : sameMember s (boolean b) = true) : s = boolean b := by
  rw [sameMember, Bool.and_eq_true] at h
  exact eq_boolean_of_equal h.1

/-- Equal literals are of one type. -/
lemma literal_kind_congr (h : equal s t = true) :
    s.literal?.bind Literal.primitive? = t.literal?.bind Literal.primitive? := by
  cases s with
  | literal value =>
    cases t with
    | literal other => cases value <;> cases other <;> first | rfl | cases h
    | _ => cases h
  | _ =>
    cases t with
    | literal other => cases h
    | _ => rfl

lemma isPrimitive_congr (h : equal s t = true) (kind : Primitive) :
    s.isPrimitive kind = t.isPrimitive kind := by
  cases s with
  | primitive k o =>
    cases t with
    | primitive l p =>
      obtain rfl : k = l := by simpa [equal] using h
      rfl
    | _ => cases h
  | _ =>
    cases t with
    | primitive => cases h
    | _ => rfl

lemma forall₂_of_equalAll {others : List Schema} (h : equalAll items others = true) :
    List.Forall₂ Equals items others := by
  obtain ⟨hlength, hequal⟩ := equalAll_iff.1 h
  exact List.forall₂_iff_zip.2 ⟨hlength, fun hmem => hequal _ hmem⟩

lemma exists_left_of_forall₂ {α : Type} {r : α → α → Prop} {xs ys : List α}
    (h : List.Forall₂ r xs ys) {y : α} (hy : y ∈ ys) : ∃ x ∈ xs, r x y := by
  induction h with
  | nil => cases hy
  | cons hxy _ ih =>
    rcases List.mem_cons.1 hy with rfl | hrest
    · exact ⟨_, List.mem_cons_self .., hxy⟩
    · obtain ⟨x, hx, hxr⟩ := ih hrest
      exact ⟨x, List.mem_cons_of_mem _ hx, hxr⟩

/-- No member of a union equals what the union equals: it would have a member that equals one of its
own members, and so on. -/
lemma not_equal_of_mem (hs : s ∈ items) (h : equal (union items) t = true) :
    equal s t = false := by
  by_contra hst
  rw [Bool.not_eq_false] at hst
  induction s using induction generalizing items t with
  | step s ih =>
    cases t with
    | union others =>
      cases s with
      | union inner =>
        have hitems := forall₂_of_equalAll h
        obtain ⟨u, hu, hsu⟩ := exists_left_of_forall₂ hitems.flip hs
        obtain ⟨c, hc, hcu⟩ := exists_left_of_forall₂ (forall₂_of_equalAll hst) hu
        exact ih c hc hc hsu hcu
      | _ => cases hst
    | _ => cases h

/-! ## Truth values -/

/-- A member that is not joined with the other truth value stays, and else the type of both comes in,
unless an input is taken for it. -/
lemma mem_joinTruthValues (h : s ∈ items) :
    s ∈ joinTruthValues items ∨
      (s.isTruthValue = true ∧ (plain .boolean ∈ joinTruthValues items ∨ Swallows items)) := by
  by_cases hgone : (boolean true ∈ items ∧ boolean false ∈ items) ∧ s.isTruthValue = true
  · obtain ⟨⟨htrue, hfalse⟩, htruth⟩ := hgone
    refine Or.inr ⟨htruth, ?_⟩
    by_cases hplain : plain .boolean ∈ items
    · exact Or.inl (mem_joinTruthValues_iff.2 (Or.inl ⟨hplain, fun hjoined => by cases hjoined.2⟩))
    · by_cases hinput : ∃ n, primitive .boolean (some n) ∈ items
      · exact Or.inr ⟨htrue, hfalse, hinput, hplain⟩
      · refine Or.inl (mem_joinTruthValues_iff.2 (Or.inr ⟨rfl, ⟨htrue, hfalse⟩, fun o ho => ?_⟩))
        cases o with
        | none => exact hplain ho
        | some n => exact hinput ⟨n, ho⟩
  · exact Or.inl (mem_joinTruthValues_iff.2 (Or.inl ⟨h, hgone⟩))

/-- The truth values go, and nothing comes in for them. -/
lemma Swallows.joinTruthValues_eq (h : Swallows items) :
    joinTruthValues items = items.filter fun s => !s.isTruthValue := by
  obtain ⟨n, hn⟩ := h.input
  have hboth : (items.any (equal · (boolean true)) && items.any (equal · (boolean false))) = true := by
    rw [Bool.and_eq_true, any_equal_boolean_iff, any_equal_boolean_iff]
    exact ⟨h.true_mem, h.false_mem⟩
  have hinput : (items.filter fun s => !s.isTruthValue).any (equal · (plain .boolean)) = true :=
    List.any_eq_true.2 ⟨_, List.mem_filter.2 ⟨hn, rfl⟩, rfl⟩
  rw [joinTruthValues, if_pos hboth]
  exact if_pos hinput

/-! ## Covered literals -/

lemma plain_mem_dropCovered : plain kind ∈ dropCovered items ↔ plain kind ∈ items := by
  rw [← mem_filterMap_plain?, ← mem_filterMap_plain?, filterMap_plain?_dropCovered]

/-- A member stays, or it is a literal and its type stays. -/
lemma mem_dropCovered_or (h : s ∈ items) :
    s ∈ dropCovered items ∨
      ∃ kind, s.literal?.bind Literal.primitive? = some kind ∧ plain kind ∈ dropCovered items := by
  by_cases hcovered : ∃ kind, s.literal?.bind Literal.primitive? = some kind ∧ plain kind ∈ items
  · obtain ⟨kind, hkind, hplain⟩ := hcovered
    exact Or.inr ⟨kind, hkind, plain_mem_dropCovered.2 hplain⟩
  · refine Or.inl (mem_dropCovered_iff.2 ⟨h, fun kind hkind hplain => ?_⟩)
    exact hcovered ⟨kind, hkind, hplain⟩

/-! ## The members that stay -/

/-- What stays of the members of a union. -/
def keptMembers (items : List Schema) : List Schema :=
  dropCovered (joinTruthValues (flatMembers items))

/-- Something that stays stands for a member, unless the member is swallowed. -/
lemma exists_standsIn (ht : t ∈ flatMembers items) (hlike : sameMember t m = true) :
    (∃ a ∈ keptMembers items, a.standsIn m = true) ∨
      (m.isTruthValue = true ∧ Swallows (flatMembers items)) := by
  have hequal : equal t m = true := (Bool.and_eq_true_iff.1 hlike).1
  have htruth := isTruthValue_congr hequal
  rcases mem_joinTruthValues ht with hjoin | ⟨htrue, hboolean | hswallows⟩
  · refine Or.inl ?_
    rcases mem_dropCovered_or hjoin with hkept | ⟨kind, hkind, hplain⟩
    · exact ⟨t, hkept, standsIn_iff.2 (Or.inl hlike)⟩
    · rw [literal_kind_congr hequal] at hkind
      exact ⟨plain kind, hplain, standsIn_iff.2 (Or.inr (Or.inr ⟨kind, hkind, rfl⟩))⟩
  · obtain ⟨b, rfl⟩ := isTruthValue_iff.1 (htruth ▸ htrue)
    refine Or.inl ⟨plain .boolean, plain_mem_dropCovered.2 hboolean, ?_⟩
    exact standsIn_iff.2 (Or.inr (Or.inr ⟨.boolean, rfl, rfl⟩))
  · exact Or.inr ⟨htruth ▸ htrue, hswallows⟩

section

variable (hplain : ∀ s ∈ flatMembers items, s.isPlain .any = false ∧ s.isPlain .unknown = false)

include hplain

lemma isPlain_of_mem_keptMembers (ha : a ∈ keptMembers items) :
    a.isPlain .any = false ∧ a.isPlain .unknown = false := by
  have hnormal := unionNormal_members hplain
  exact ⟨hnormal.any a ha, hnormal.unknown a ha⟩

/-- Nothing stands for a truth value that is swallowed. -/
lemma standsIn_eq_false_of_swallows (h : Swallows (flatMembers items))
    (hm : m.isTruthValue = true) (ha : a ∈ keptMembers items) : a.standsIn m = false := by
  have hjoin : a ∈ (flatMembers items).filter fun s => !s.isTruthValue := by
    rw [← h.joinTruthValues_eq]
    exact (dropCovered_sublist _).subset ha
  obtain ⟨hflat, hother⟩ := List.mem_filter.1 hjoin
  obtain ⟨b, rfl⟩ := isTruthValue_iff.1 hm
  rw [← Bool.not_eq_true, standsIn_iff]
  rintro (hlike | (hany | hunknown) | ⟨kind, hkind, rfl⟩)
  · rw [eq_boolean_of_like hlike] at hother
    cases hother
  · rw [(isPlain_of_mem_keptMembers hplain ha).1] at hany
    cases hany
  · rw [(isPlain_of_mem_keptMembers hplain ha).2] at hunknown
    cases hunknown
  · obtain rfl : Primitive.boolean = kind := Option.some.inj hkind
    exact h.not_mem hflat

end

/-! ## The union -/

/-- A member of a union stands for what the whole union is the same as only if it stands for
everything. -/
lemma standsIn_of_mem_union (ha : a ∈ members) (h : sameMember (union members) m = true) :
    a.standsIn m = true ↔ a.isPlain .any = true ∨ a.isPlain .unknown = true := by
  have hequal : equal (union members) m = true := (Bool.and_eq_true_iff.1 h).1
  rw [standsIn_iff]
  constructor
  · rintro (hlike | hplain | ⟨kind, hkind, -⟩)
    · have hsame := (Bool.and_eq_true_iff.1 hlike).1
      rw [not_equal_of_mem ha hequal] at hsame
      cases hsame
    · exact hplain
    · rw [← literal_kind_congr hequal] at hkind
      cases hkind
  · exact fun hplain => Or.inr (Or.inl hplain)

/-- What the members make up represents what one of them stands for, unless it is that member and a
union. -/
lemma represents_ofMembers_iff
    (hplain : ∀ a ∈ members, a.isPlain .any = false ∧ a.isPlain .unknown = false)
    (h : ∃ a ∈ members, a.standsIn m = true) :
    (ofMembers members).represents m = true ↔ ¬Collapses (ofMembers members) m := by
  obtain ⟨a, ha, hstands⟩ := h
  have hnot : ¬(a.isPlain .any = true ∨ a.isPlain .unknown = true) := by
    rw [(hplain a ha).1, (hplain a ha).2]
    simp
  match members with
  | [] => cases ha
  | [s] =>
    obtain rfl := List.mem_singleton.1 ha
    change a.represents m = true ↔ ¬Collapses a m
    by_cases hone : a.alternatives = [a]
    · refine ⟨fun _ hcollapses => hcollapses.inner hone, fun _ => represents_iff.2 ⟨a, ?_, hstands⟩⟩
      rw [hone]
      exact List.mem_singleton_self a
    · cases a with
      | union inner =>
        have hlike : sameMember (union inner) m = true := by
          rcases standsIn_iff.1 hstands with hlike | hopen | ⟨kind, -, heq⟩
          · exact hlike
          · exact absurd hopen hnot
          · cases heq
        rw [represents_iff]
        constructor
        · rintro ⟨b, hb, hstandsb⟩ hcollapses
          obtain ⟨hany, hunknown⟩ := hcollapses.open_any b hb
          rw [standsIn_of_mem_union hb hlike, hany, hunknown] at hstandsb
          simp at hstandsb
        · intro hcollapses
          by_contra hnone
          refine hcollapses ⟨hlike, hone, fun b hb => ?_⟩
          rw [← Bool.not_eq_true, ← Bool.not_eq_true, ← not_or, ← standsIn_of_mem_union hb hlike]
          exact fun hstandsb => hnone ⟨b, hb, hstandsb⟩
      | _ => exact absurd rfl hone
  | first :: second :: rest =>
    refine ⟨fun _ hcollapses => ?_, fun _ => represents_iff.2 ⟨a, ha, hstands⟩⟩
    exact hnot ((standsIn_of_mem_union ha hcollapses.same).1 hstands)

/-- A schema that nothing but itself is like is among the members whenever it is among those of the
arguments. -/
lemma mem_flatMembers_iff (hnever : s.isPrimitive .never = false)
    (hrigid : ∀ t, sameMember t s = true → t = s) :
    s ∈ flatMembers items ↔ s ∈ items.flatMap alternatives := by
  constructor
  · exact fun h => mem_of_mem_dedupe (List.mem_of_mem_filter h)
  · intro h
    obtain ⟨t, ht, hlike⟩ := exists_mem_dedupe h
    obtain rfl : t = s := hlike.elim id (hrigid t)
    exact List.mem_filter.2 ⟨ht, by rw [hnever]; rfl⟩

lemma swallows_flatMembers_iff :
    Swallows (flatMembers items) ↔ Swallows (items.flatMap alternatives) := by
  have htruth : ∀ b, boolean b ∈ flatMembers items ↔ boolean b ∈ items.flatMap alternatives :=
    fun b => mem_flatMembers_iff rfl fun t => eq_boolean_of_like
  have hprimitive : ∀ o, primitive .boolean o ∈ flatMembers items ↔
      primitive .boolean o ∈ items.flatMap alternatives :=
    fun o => mem_flatMembers_iff rfl fun t => eq_primitive_of_sameMember
  constructor
  · rintro ⟨htrue, hfalse, ⟨n, hn⟩, hplain⟩
    exact ⟨(htruth _).1 htrue, (htruth _).1 hfalse, ⟨n, (hprimitive _).1 hn⟩,
      fun h => hplain ((hprimitive _).2 h)⟩
  · rintro ⟨htrue, hfalse, ⟨n, hn⟩, hplain⟩
    exact ⟨(htruth _).2 htrue, (htruth _).2 hfalse, ⟨n, (hprimitive _).2 hn⟩,
      fun h => hplain ((hprimitive _).1 h)⟩

/-- Members of which one is no union are the alternatives of what they make up. -/
lemma alternatives_ofMembers_of_mem (hs : s ∈ members) (hone : s.alternatives = [s]) :
    (ofMembers members).alternatives = members := by
  match members with
  | [] => cases hs
  | [t] =>
    obtain rfl := List.mem_singleton.1 hs
    exact hone
  | _ :: _ :: _ => rfl

/-- A union has nothing that stands for a truth value that is swallowed. -/
lemma represents_eq_false_of_swallows
    (hplain : ∀ s ∈ flatMembers items, s.isPlain .any = false ∧ s.isPlain .unknown = false)
    (h : Swallows (flatMembers items)) (hm : m.isTruthValue = true) :
    (ofMembers (keptMembers items)).represents m = false := by
  obtain ⟨n, hn⟩ := h.input
  have hinput : primitive .boolean (some n) ∈ keptMembers items := by
    have hjoin : primitive .boolean (some n) ∈ joinTruthValues (flatMembers items) := by
      rw [h.joinTruthValues_eq]
      exact List.mem_filter.2 ⟨hn, rfl⟩
    rcases mem_dropCovered_or hjoin with hkept | ⟨kind, hkind, -⟩
    · exact hkept
    · cases hkind
  rw [← Bool.not_eq_true, represents_iff, alternatives_ofMembers_of_mem hinput rfl]
  rintro ⟨a, ha, hstands⟩
  rw [standsIn_eq_false_of_swallows hplain h hm ha] at hstands
  cases hstands

/-- The like of a member of the arguments is among the members. -/
lemma exists_mem_flatMembers (h : ∀ s ∈ items, s.Within v) (hm : m ∈ items.flatMap alternatives)
    (hnever : m.isPrimitive .never = false) :
    ∃ t ∈ flatMembers items, sameMember t m = true := by
  obtain ⟨t, ht, hlike⟩ := exists_mem_dedupe hm
  have hsame : sameMember t m = true := by
    rcases hlike with rfl | hlike
    · obtain ⟨s, hs, hts⟩ := List.mem_flatMap.1 hm
      exact sameMember_self (mem_alternatives_within (h s hs) hts)
    · exact hlike
  have hkept : t.isPrimitive .never = false := by
    rw [isPrimitive_congr (Bool.and_eq_true_iff.1 hsame).1, hnever]
  exact ⟨t, List.mem_filter.2 ⟨ht, by rw [hkept]; rfl⟩, hsame⟩

/-- A member is lost if it is a truth value, its like are swallowed, and nothing takes in
everything. -/
lemma isLost_iff
    (hplain : ∀ s ∈ flatMembers items, s.isPlain .any = false ∧ s.isPlain .unknown = false) :
    IsLost (items.flatMap alternatives) m ↔
      m.isTruthValue = true ∧ Swallows (flatMembers items) := by
  have hmem : ∀ {kind}, kind ≠ .never →
      (plain kind ∈ flatMembers items ↔ plain kind ∈ items.flatMap alternatives) := fun hkind =>
    mem_flatMembers_iff (beq_false_of_ne hkind) fun t => eq_primitive_of_sameMember
  rw [swallows_flatMembers_iff]
  constructor
  · exact fun h => ⟨h.truth, h.toSwallows⟩
  · rintro ⟨htruth, hswallows⟩
    refine ⟨hswallows, htruth, fun hany => ?_, fun hunknown => ?_⟩
    · cases (hplain _ ((hmem (by decide)).2 hany)).1
    · cases (hplain _ ((hmem (by decide)).2 hunknown)).2

/-- Every member of the arguments of a union is represented in it, but for a truth value that goes for
an input, and for a union that is all that is left. -/
theorem represents_unionOf_iff (h : ∀ s ∈ items, s.Within v)
    (hm : m ∈ items.flatMap alternatives) (hnever : m.isPrimitive .never = false) :
    (unionOf items).represents m = true ↔
      ¬IsLost (items.flatMap alternatives) m ∧ ¬Collapses (unionOf items) m := by
  rcases unionOf_cases items with ⟨s, hs, hall, heq⟩ | ⟨hplain, heq⟩
  · -- `any` or `unknown` stands for everything
    have hmem : s ∈ items.flatMap alternatives := mem_of_mem_dedupe (List.mem_of_mem_filter hs)
    have hone : s.alternatives = [s] ∧ ¬IsLost (items.flatMap alternatives) m := by
      rcases hall with hany | hunknown
      · obtain rfl := eq_of_isPlain hany
        exact ⟨rfl, fun hlost => hlost.any hmem⟩
      · obtain rfl := eq_of_isPlain hunknown
        exact ⟨rfl, fun hlost => hlost.unknown hmem⟩
    rw [heq, represents_iff, hone.1]
    refine ⟨fun _ => ⟨hone.2, fun hcollapses => hcollapses.inner hone.1⟩, fun _ => ?_⟩
    exact ⟨s, List.mem_singleton_self s, standsIn_iff.2 (Or.inr (Or.inl hall))⟩
  · rw [heq, isLost_iff hplain, ← keptMembers]
    by_cases hlost : m.isTruthValue = true ∧ Swallows (flatMembers items)
    · rw [represents_eq_false_of_swallows hplain hlost.2 hlost.1]
      exact ⟨nofun, fun hkept => absurd hlost hkept.1⟩
    · obtain ⟨t, ht, hlike⟩ := exists_mem_flatMembers h hm hnever
      have hstands := (exists_standsIn ht hlike).resolve_right hlost
      rw [represents_ofMembers_iff (fun a ha => isPlain_of_mem_keptMembers hplain ha) hstands]
      exact ⟨fun hcollapses => ⟨hlost, hcollapses⟩, And.right⟩

/-- The two truth values, and an input that is one of them. -/
def truthValuesAndInput : List Schema :=
  [boolean true, boolean false, primitive .boolean (some ⟨1⟩)]

/-- Only the input is left. -/
example : unionOf truthValuesAndInput = primitive .boolean (some ⟨1⟩) := by rfl

lemma isLost_truthValuesAndInput :
    IsLost (truthValuesAndInput.flatMap alternatives) (boolean true) where
  true_mem := .head _
  false_mem := .tail _ (.head _)
  input := ⟨⟨1⟩, .tail _ (.tail _ (.head _))⟩
  not_mem := by simp [truthValuesAndInput, alternatives, plain, boolean]
  truth := rfl
  any := by simp [truthValuesAndInput, alternatives, plain, boolean]
  unknown := by simp [truthValuesAndInput, alternatives, plain, boolean]

theorem not_represents_truthValuesAndInput :
    boolean true ∈ truthValuesAndInput.flatMap alternatives ∧
      (boolean true).isPrimitive .never = false ∧
      ¬(unionOf truthValuesAndInput).represents (boolean true) = true := by
  have hwithin : ∀ s ∈ truthValuesAndInput, s.Within (.ofReferences fun _ _ => True) := by
    simp [truthValuesAndInput, Vocabulary.ofReferences]
  refine ⟨.head _, rfl, fun hrepresents => ?_⟩
  exact ((represents_unionOf_iff hwithin (.head _) rfl).1 hrepresents).1
    isLost_truthValuesAndInput

end ValueSchema.Schema
