/-
# The ids of definitions

Instances of generic types are registered under their texts; where other generic types have the same
text, numbers tell them apart.  An instance has the first id that no other generic type has taken.
It keeps this id, because a definition never changes the generic type that it belongs to.

The text of an instance ends with a bracket and a number does not.  Two instances therefore have ids
in common only if they have the same text.
-/
import Mathlib.Data.List.Nodup
import Mathlib.Data.List.Perm.Subperm
import ValueSchema.Proofs.Definition.Registry
import ValueSchema.Typing.Table

namespace ValueSchema

namespace Registry

/-! ## Numbered texts -/

lemma numbered_one (display : String) : numbered display 1 = display := if_pos rfl

lemma toList_numbered (display : String) {n : Nat} (h : n ≠ 1) :
    (numbered display n).toList = display.toList ++ '#' :: Nat.toDigits 10 n := by
  simp [numbered, h]

lemma toDigits_injective {m n : Nat} (h : Nat.toDigits 10 m = Nat.toDigits 10 n) : m = n := by
  rw [← Nat.ofDigitChars_ten_toDigits (n := m), h, Nat.ofDigitChars_ten_toDigits]

lemma numbered_injective (display : String) {m n : Nat}
    (h : numbered display m = numbered display n) : m = n := by
  have htext := congrArg String.toList h
  by_cases hm : m = 1 <;> by_cases hn : n = 1
  · rw [hm, hn]
  · rw [hm, numbered_one, toList_numbered _ hn] at htext
    simp at htext
  · rw [hn, numbered_one, toList_numbered _ hm] at htext
    simp at htext
  · rw [toList_numbered _ hm, toList_numbered _ hn] at htext
    exact toDigits_injective (List.cons.inj (List.append_cancel_left htext)).2

/-- A number stands apart from what it follows. -/
lemma eq_of_append_toDigits_eq {first second : List Char} {m n : Nat}
    (h : first ++ '#' :: Nat.toDigits 10 m = second ++ '#' :: Nat.toDigits 10 n) :
    first = second := by
  -- read from the end, the digits go as far as the first mark
  have hrest : ∀ (text : List Char) (k : Nat),
      (text ++ '#' :: Nat.toDigits 10 k).reverse.dropWhile (· != '#') = '#' :: text.reverse := by
    intro text k
    rw [List.reverse_append, List.reverse_cons, List.append_assoc,
      List.dropWhile_append_of_pos fun c hc => ?_]
    · simp
    · have hdigit := Nat.isDigit_of_mem_toDigits (by omega) (by omega) (List.mem_reverse.1 hc)
      rw [bne_iff_ne]
      rintro rfl
      cases hdigit
  have hreverse := hrest first m
  rw [h, hrest second n] at hreverse
  exact List.reverse_injective (List.cons.inj hreverse).2.symm

/-- Texts that end with a bracket are told from numbered ones. -/
lemma eq_of_numbered_eq {text text' : String} {m n : Nat}
    (h : numbered (text ++ ">") m = numbered (text' ++ ">") n) : text ++ ">" = text' ++ ">" := by
  have hlast : ∀ {first : List Char} {k : Nat} {u : String},
      (u ++ ">").toList = first ++ '#' :: Nat.toDigits 10 k → False := by
    intro first k u hu
    have hne : Nat.toDigits 10 k ≠ [] := Nat.toDigits_ne_nil
    have hend := congrArg List.getLast? hu
    rw [String.toList_append, List.getLast?_append_of_ne_nil _ (by simp),
      List.getLast?_append_of_ne_nil _ (by simp), List.getLast?_cons,
      List.getLast?_eq_some_getLast hne] at hend
    have hdigit := Nat.isDigit_of_mem_toDigits (by omega) (by omega) (List.getLast_mem hne)
    have hbracket : '>' = (Nat.toDigits 10 k).getLast hne := by simpa using hend
    rw [← hbracket] at hdigit
    cases hdigit
  have htext := congrArg String.toList h
  by_cases hm : m = 1 <;> by_cases hn : n = 1
  · rwa [hm, hn, numbered_one, numbered_one] at h
  · rw [hm, numbered_one, toList_numbered _ hn] at htext
    exact (hlast htext).elim
  · rw [hn, numbered_one, toList_numbered _ hm] at htext
    exact (hlast htext.symm).elim
  · rw [toList_numbered _ hm, toList_numbered _ hn] at htext
    exact String.toList_injective (eq_of_append_toDigits_eq htext)

/-! ## The first admissible id -/

variable {r : Registry} {display : String} {target : TypeId} {id : String}

/-- An id belongs to a generic type if its definition is an instance of it. -/
def Owns (r : Registry) (target : TypeId) (id : String) : Prop :=
  ∃ d, r.get? id = some d ∧ d.target = target

/-- An id is taken if it belongs to another generic type. -/
def Taken (r : Registry) (target : TypeId) (id : String) : Prop :=
  ∃ d, r.get? id = some d ∧ d.target ≠ target

lemma admits_eq_false_iff : r.admits target id = false ↔ r.Taken target id := by
  rw [admits, Taken, get?]
  rcases Entries.get? id r.entries with _ | d <;> simp

lemma admits_eq_true_iff : r.admits target id = true ↔ r.get? id = none ∨ r.Owns target id := by
  rw [admits, Owns, get?]
  rcases Entries.get? id r.entries with _ | d <;> simp

lemma mem_names_of_taken (h : r.Taken target id) : id ∈ Entries.names r.entries := by
  obtain ⟨d, hd, -⟩ := h
  exact Entries.mem_names_of_mem (Entries.mem_of_get? hd)

/-- A search goes past the ids that are taken, unless it ends before there is another one. -/
lemma findId_spec (r : Registry) (display : String) (target : TypeId) (n fuel : Nat) :
    (∃ k, n ≤ k ∧ r.findId display target n fuel = numbered display k ∧
      r.admits target (numbered display k) = true ∧
      ∀ m, n ≤ m → m < k → r.Taken target (numbered display m)) ∨
    ∀ m, n ≤ m → m < n + fuel → r.Taken target (numbered display m) := by
  induction fuel generalizing n with
  | zero => exact Or.inr fun m _ _ => by omega
  | succ fuel ih =>
    rw [findId]
    split
    · exact Or.inl ⟨n, Nat.le_refl n, rfl, ‹_›, fun m _ _ => by omega⟩
    · have hn : r.Taken target (numbered display n) :=
        admits_eq_false_iff.1 (Bool.eq_false_iff.2 ‹_›)
      -- what is past the first id is past all of them, or else the first one
      have hfirst : ∀ {k}, (∀ m, n + 1 ≤ m → m < k → r.Taken target (numbered display m)) →
          ∀ m, n ≤ m → m < k → r.Taken target (numbered display m) := by
        intro k hk m hle hlt
        rcases Nat.eq_or_lt_of_le hle with rfl | hlater
        · exact hn
        · exact hk m hlater hlt
      rcases ih (n + 1) with ⟨k, hk, hfind, hadmits, htaken⟩ | hall
      · exact Or.inl ⟨k, by omega, hfind, hadmits, hfirst htaken⟩
      · exact Or.inr (hfirst fun m hle hlt => hall m hle (by omega))

/-- There are more numbers than definitions, so not all numbered ids are taken. -/
lemma not_all_taken (r : Registry) (display : String) (target : TypeId) :
    ¬ ∀ m, 1 ≤ m → m < 1 + (r.entries.length + 1) → r.Taken target (numbered display m) := by
  intro hall
  have hnodup : ((List.range' 1 (r.entries.length + 1)).map (numbered display)).Nodup :=
    List.Nodup.map (fun _ _ h => numbered_injective display h) List.nodup_range'
  have hsubset : (List.range' 1 (r.entries.length + 1)).map (numbered display) ⊆
      Entries.names r.entries := by
    intro other hother
    obtain ⟨m, hm, rfl⟩ := List.mem_map.1 hother
    obtain ⟨hle, hlt⟩ := List.mem_range'_1.1 hm
    exact mem_names_of_taken (hall m hle hlt)
  have hlength := (List.subperm_of_subset hnodup hsubset).length_le
  simp only [List.length_map, List.length_range', Entries.names] at hlength
  omega

/-- The id of an instance: its text with the first number that no other generic type has taken. -/
def Assigns (r : Registry) (display : String) (target : TypeId) (id : String) : Prop :=
  ∃ n, 1 ≤ n ∧ id = numbered display n ∧ r.Owns target id ∧
    ∀ m, 1 ≤ m → m < n → r.Taken target (numbered display m)

/-- An instance has one id only. -/
lemma Assigns.unique {other : String} (h : r.Assigns display target id)
    (h' : r.Assigns display target other) : id = other := by
  obtain ⟨n, hn, rfl, howns, htaken⟩ := h
  obtain ⟨n', hn', rfl, howns', htaken'⟩ := h'
  have hnot : ∀ {i}, r.Owns target i → ¬ r.Taken target i := by
    rintro i ⟨d, hd, rfl⟩ ⟨d', hd', hne⟩
    rw [hd] at hd'
    exact hne (by rw [Option.some.inj hd'])
  rcases Nat.lt_trichotomy n n' with hlt | rfl | hlt
  · exact absurd (htaken' n hn hlt) (hnot howns)
  · rfl
  · exact absurd (htaken n' hn' hlt) (hnot howns')

/-- Instances that have an id in common have the same text. -/
lemma Assigns.eq_of_eq {text text' : String} {target' : TypeId}
    (h : r.Assigns (text ++ ">") target id) (h' : r.Assigns (text' ++ ">") target' id) :
    text ++ ">" = text' ++ ">" := by
  obtain ⟨n, -, rfl, -⟩ := h
  obtain ⟨n', -, hid, -⟩ := h'
  exact eq_of_numbered_eq hid

/-- Every definition stays, and stays an instance of the same generic type. -/
def KeepsTargets (r r' : Registry) : Prop :=
  ∀ id d, r.get? id = some d → ∃ d', r'.get? id = some d' ∧ d'.target = d.target

lemma Assigns.mono {r' : Registry} (h : r.Assigns display target id) (hr : r.KeepsTargets r') :
    r'.Assigns display target id := by
  obtain ⟨n, hn, hid, ⟨d, hd, htarget⟩, htaken⟩ := h
  refine ⟨n, hn, hid, ?_, fun m hle hlt => ?_⟩
  · obtain ⟨d', hd', heq⟩ := hr id d hd
    exact ⟨d', hd', heq.trans htarget⟩
  · obtain ⟨other, hother, hne⟩ := htaken m hle hlt
    obtain ⟨d', hd', heq⟩ := hr _ other hother
    exact ⟨d', hd', heq ▸ hne⟩

/-! ## Registering -/

lemma get?_concat (r : Registry) (id other : String) (d : Definition) :
    (⟨r.entries ++ [(id, d)]⟩ : Registry).get? other =
      (r.get? other).or (if id = other then some d else none) :=
  Entries.get?_append other _ _

/-- Registering finds the instance, or adds it under an id that is free. -/
lemma register_cases {r' : Registry} {name : String} {body : TypeId}
    (h : r.register name display target body = (id, r')) :
    r' = r ∧ r.Assigns display target id ∨
    r.get? id = none ∧ r' = ⟨r.entries ++ [(id, ⟨name, target, .pending body⟩)]⟩ ∧
      r'.Assigns display target id := by
  rcases findId_spec r display target 1 (r.entries.length + 1) with
    ⟨k, hk, hfind, hadmits, htaken⟩ | hall
  · rw [register, hfind] at h
    rcases admits_eq_true_iff.1 hadmits with hfree | howns
    · rw [Entries.contains_eq_false_iff.2 (Entries.get?_eq_none_iff.1 hfree)] at h
      obtain ⟨rfl, rfl⟩ := Prod.mk.inj h
      refine Or.inr ⟨hfree, rfl, k, hk, rfl, ?_, fun m hle hlt => ?_⟩
      · exact ⟨⟨name, target, .pending body⟩, by rw [get?_concat, hfree, if_pos rfl]; rfl, rfl⟩
      · obtain ⟨d, hd, hne⟩ := htaken m hle hlt
        exact ⟨d, by rw [get?_concat, hd]; rfl, hne⟩
    · have hmem : numbered display k ∈ Entries.names r.entries := by
        obtain ⟨d, hd, -⟩ := howns
        exact Entries.mem_names_of_mem (Entries.mem_of_get? hd)
      rw [Entries.contains_eq_true_iff.2 hmem] at h
      obtain ⟨rfl, rfl⟩ := Prod.mk.inj h
      exact Or.inl ⟨rfl, k, hk, rfl, howns, htaken⟩
  · exact absurd hall (not_all_taken r display target)

end Registry

/-- The text of an instance ends with a bracket. -/
lemma TypeTable.display_application {t : TypeTable} {id : TypeId} {name : String} {target : TypeId}
    {arguments : List TypeId} {body : TypeId}
    (h : t.get? id = some (.application name target arguments body)) :
    ∃ text, t.display id = text ++ ">" := by
  rw [display, displayWithin]
  simp only [h]
  exact ⟨_, rfl⟩

end ValueSchema
