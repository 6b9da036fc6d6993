/-
# Choices

The choices of one item from each of several lists are numbered by positions: a list of places, one in
each list.  All of these occur, in lexicographic order and each of them once, even if an item stands in
a list more than once.  So there are as many choices as the product of the lengths.  If no list is
empty, then the bound on the number of choices after each list is a bound on all of them.
-/
import Mathlib.Algebra.BigOperators.Group.List.Basic
import Mathlib.Algebra.Order.BigOperators.GroupWithZero.List
import Mathlib.Algebra.Order.Ring.Nat
import Mathlib.Data.List.Forall2
import ValueSchema.Schema.Product

namespace ValueSchema

variable {α : Type} {lists : List (List α)} {cap : Nat}

/-- A combination has one item from each list, at given positions. -/
inductive Picks : List (List α) → List Nat → List α → Prop
  | nil : Picks [] [] []
  | cons {items : List α} {i : Nat} {a : α} {rest : List (List α)} {positions : List Nat}
      {combination : List α} (ha : items[i]? = some a) (h : Picks rest positions combination) :
      Picks (items :: rest) (i :: positions) (a :: combination)

/-! ## What the choices are -/

lemma mem_choices_iff {combination : List α} :
    combination ∈ choices lists ↔ List.Forall₂ (· ∈ ·) combination lists := by
  induction lists generalizing combination with
  | nil => rw [choices, List.mem_singleton, List.forall₂_nil_right_iff]
  | cons items rest ih =>
    simp only [choices, List.mem_flatMap, List.mem_map, List.forall₂_cons_right_iff, ih]
    constructor
    · rintro ⟨a, ha, c, hc, rfl⟩
      exact ⟨a, c, ha, hc, rfl⟩
    · rintro ⟨a, c, ha, hc, rfl⟩
      exact ⟨a, ha, c, hc, rfl⟩

lemma length_choices (lists : List (List α)) :
    (choices lists).length = (lists.map List.length).prod := by
  induction lists with
  | nil => rfl
  | cons items rest ih =>
    simp [choices, List.length_flatMap, ih]

/-! ## The order of the choices -/

/-- The choices of increasing items are in lexicographic order. -/
lemma pairwise_choices {lists : List (List Nat)} (h : ∀ l ∈ lists, l.Pairwise (· < ·)) :
    (choices lists).Pairwise (List.Lex (· < ·)) := by
  induction lists with
  | nil => exact List.pairwise_singleton _ _
  | cons items rest ih =>
    obtain ⟨hitems, hrest⟩ := List.forall_mem_cons.1 h
    rw [choices, List.pairwise_flatMap]
    constructor
    · intro i _
      exact List.pairwise_map.2 ((ih hrest).imp .cons)
    · refine hitems.imp fun {i j} hlt => ?_
      intro c hc d hd
      obtain ⟨c, -, rfl⟩ := List.mem_map.1 hc
      obtain ⟨d, -, rfl⟩ := List.mem_map.1 hd
      exact .rel hlt

/-- The positions in several lists, in the order of the choices. -/
def positions (lists : List (List α)) : List (List Nat) :=
  choices (lists.map fun items => List.range items.length)

lemma mem_positions_iff {p : List Nat} :
    p ∈ positions lists ↔ List.Forall₂ (fun i (items : List α) => i < items.length) p lists := by
  rw [positions, mem_choices_iff, List.forall₂_map_right_iff]
  simp only [List.mem_range]

lemma pairwise_positions (lists : List (List α)) : (positions lists).Pairwise (List.Lex (· < ·)) :=
  pairwise_choices (List.forall_mem_map.2 fun _ _ => List.pairwise_lt_range)

/-- The items of a list stand at its positions. -/
lemma forall₂_range (items : List α) :
    List.Forall₂ (fun i a => items[i]? = some a) (List.range items.length) items := by
  refine List.forall₂_iff_get.2 ⟨List.length_range, fun i hi hi' => ?_⟩
  rw [List.get_eq_getElem, List.get_eq_getElem, List.getElem_range, List.getElem?_eq_getElem hi']

/-- Each choice has its items at the positions of the same number. -/
lemma forall₂_picks (lists : List (List α)) :
    List.Forall₂ (Picks lists) (positions lists) (choices lists) := by
  induction lists with
  | nil => exact .cons .nil .nil
  | cons items rest ih =>
    rw [positions, List.map_cons, choices, choices]
    refine List.rel_flatMap (forall₂_range items) fun i a ha => ?_
    exact List.rel_map (fun _ _ h => .cons ha h) ih

/-! ## Choices within the cap -/

lemma prod_length_pos (h : ∀ l ∈ lists, l ≠ []) : 0 < (lists.map List.length).prod := by
  refine List.prod_pos fun n hn => ?_
  obtain ⟨l, hl, rfl⟩ := List.mem_map.1 hn
  exact List.length_pos_iff.2 (h l hl)

lemma choices_ne_nil (h : ∀ l ∈ lists, l ≠ []) : choices lists ≠ [] :=
  List.ne_nil_of_length_pos ((prod_length_pos h).trans_eq (length_choices lists).symm)

/-- There are at most as many choices on the way as at the end, so that only these count. -/
lemma withinCap_iff (h : ∀ l ∈ lists, l ≠ []) (total : Nat) :
    withinCap cap total lists = true ↔
      lists = [] ∨ total * (lists.map List.length).prod ≤ cap := by
  induction lists generalizing total with
  | nil => simp [withinCap]
  | cons l rest ih =>
    have hrest : ∀ k ∈ rest, k ≠ [] := fun k hk => h k (List.mem_cons_of_mem _ hk)
    -- no list is empty, so the number never gets smaller again
    have hpos := prod_length_pos hrest
    rw [withinCap, Bool.and_eq_true, decide_eq_true_eq, ih hrest, List.map_cons, List.prod_cons,
      ← Nat.mul_assoc]
    have hle : total * l.length ≤ total * l.length * (rest.map List.length).prod :=
      Nat.le_mul_of_pos_right _ hpos
    constructor
    · rintro ⟨hcap, rfl | hprod⟩
      · exact Or.inr (by simpa using hcap)
      · exact Or.inr hprod
    · rintro (hnil | hprod)
      · cases hnil
      · exact ⟨Nat.le_trans hle hprod, Or.inr hprod⟩

/-- There is an answer if and only if the product of the lengths is within the cap.  Then it lists one
combination for each position in every list, in lexicographic order, and each combination has the items
at these positions, one from each list in order. -/
theorem cartesian?_enumerates (hne : lists ≠ []) (h : ∀ l ∈ lists, l ≠ []) (cap : Nat) :
    ((cartesian? lists cap).isSome = true ↔ (lists.map List.length).prod ≤ cap) ∧
      ∀ combinations, cartesian? lists cap = some combinations →
        combinations.length = (lists.map List.length).prod ∧
        ∃ places : List (List Nat), places.Pairwise (List.Lex (· < ·)) ∧
          (∀ p, p ∈ places ↔ List.Forall₂ (fun i (items : List α) => i < items.length) p lists) ∧
          List.Forall₂ (Picks lists) places combinations := by
  have hcap : withinCap cap 1 lists = true ↔ (lists.map List.length).prod ≤ cap := by
    rw [withinCap_iff h, or_iff_right hne, Nat.one_mul]
  rw [← hcap, cartesian?]
  constructor
  · cases withinCap cap 1 lists <;> simp
  · intro combinations hcombinations
    obtain ⟨-, hsome⟩ := Option.ite_none_right_eq_some.1 hcombinations
    obtain rfl := Option.some.inj hsome
    exact ⟨length_choices lists, positions lists, pairwise_positions lists,
      fun _ => mem_positions_iff, forall₂_picks lists⟩

/-- A list in which one item stands twice, and another list. -/
def repeated : List (List String) := [["a", "a", "b"], ["x", "y"]]

/-- The cap just suffices.  The combinations with the repeated item are listed for both of its places;
the sixth of them has the last item of each list. -/
theorem cartesian?_enumerates_repeated :
    ((cartesian? repeated 6).isSome = true ∧ ¬ (cartesian? repeated 5).isSome = true) ∧
    ∃ places : List (List Nat), places.Pairwise (List.Lex (· < ·)) ∧ [1, 0] ∈ places ∧
      [2, 2] ∉ places ∧ List.Forall₂ (Picks repeated) places
        [["a", "x"], ["a", "y"], ["a", "x"], ["a", "y"], ["b", "x"], ["b", "y"]] := by
  have hne : ∀ l ∈ repeated, l ≠ [] := by decide
  obtain ⟨hsix, hlisted⟩ := cartesian?_enumerates (by decide) hne 6
  obtain ⟨-, places, hsorted, hplaces, hpicks⟩ := hlisted _ rfl
  refine ⟨⟨hsix.2 (by decide), fun hfive => ?_⟩, places, hsorted, ?_, ?_, hpicks⟩
  · exact absurd ((cartesian?_enumerates (by decide) hne 5).1.1 hfive) (by decide)
  · exact (hplaces _).2 (.cons (by decide) (.cons (by decide) .nil))
  · intro hmem
    cases (hplaces _).1 hmem with
    | cons _ hrest =>
      cases hrest with
      | cons hlt _ => exact absurd hlt (by decide)

end ValueSchema
