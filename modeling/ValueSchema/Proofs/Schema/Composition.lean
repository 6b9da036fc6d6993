/-
# Unions and intersections in normal form

`unionOf` and `intersectionOf` take the members of their arguments apart and put them together again
in normal form.  What is known of the members of the arguments leads to what holds of the result:
`unionOf_of_members` and `intersectionWith_of_members`.  In particular a property of schemas that goes
from a schema to its members, and from members in normal form to what they make up, goes from the
arguments to the result: these are the induction principles `unionOf_induction` and
`intersectionWith_induction`.  Every lemma about what the two functions keep is an instance of them.
-/
import Mathlib.Data.List.Basic
import Mathlib.Tactic.Common
import ValueSchema.Schema.Fold

namespace ValueSchema.Schema

/-- A list whose members are only themselves is flat already. -/
lemma flatMap_eq_self {members : Schema → List Schema} {items : List Schema}
    (h : ∀ s ∈ items, members s = [s]) : items.flatMap members = items :=
  (List.flatMap_congr h).trans (List.flatMap_singleton' items)

/-- The combinations of two lists of alternatives are pairs of them. -/
lemma exists_of_mem_cartesian {lefts rights : List Schema} {cap : Nat} {pairs : List (List Schema)}
    (h : cartesian? [lefts, rights] cap = some pairs) {pair : List Schema} (hpair : pair ∈ pairs) :
    ∃ a ∈ lefts, ∃ b ∈ rights, pair = [a, b] := by
  rw [cartesian?] at h
  split at h
  · obtain rfl := Option.some.inj h
    simp only [choices, List.mem_flatMap, List.mem_map] at hpair
    obtain ⟨a, ha, rest, ⟨b, hb, c, hc, rfl⟩, rfl⟩ := hpair
    obtain rfl := List.mem_singleton.1 hc
    exact ⟨a, ha, b, hb, rfl⟩
  · cases h

/-- An operation on every choice of alternatives, unless there are too many of them. -/
lemma foldBinary_eq {op : BinaryOperator} (hop : op ≠ .comma) (left right : Schema) (cap : Nat) :
    foldBinary op left right cap =
      if left.alternatives.length ≤ cap ∧
          left.alternatives.length * right.alternatives.length ≤ cap then
        unionOf (left.alternatives.flatMap fun a => right.alternatives.map (foldPair op a))
      else binary op left right := by
  rw [foldBinary, if_neg hop, cartesian?]
  simp only [withinCap, Nat.one_mul, Bool.and_true, Bool.and_eq_true, decide_eq_true_eq]
  split
  · rename_i h
    split at h
    · cases h
    · rename_i hcap
      rw [if_neg hcap]
  · rename_i pairs h
    split at h
    · rename_i hcap
      obtain rfl := Option.some.inj h
      rw [if_pos hcap]
      simp [choices, List.map_flatMap, ← List.map_eq_flatMap, Function.comp_def]
    · cases h

/-! ## Repeated members -/

/-- No member has its like among the later ones. -/
def Unlike (items : List Schema) : Prop := items.Pairwise fun s t => sameMember s t = false

lemma mem_of_mem_pushUnique {items : List Schema} {s t : Schema} (h : t ∈ pushUnique items s) :
    t ∈ items ∨ t = s := by
  rw [pushUnique] at h
  split at h
  · exact Or.inl h
  · simpa using h

lemma mem_pushUnique_of_mem {items : List Schema} {s t : Schema} (h : t ∈ items) :
    t ∈ pushUnique items s := by
  rw [pushUnique]
  split
  · exact h
  · exact List.mem_append_left _ h

lemma Unlike.pushUnique {items : List Schema} (h : Unlike items) (s : Schema) :
    Unlike (pushUnique items s) := by
  rw [Schema.pushUnique]
  split
  · exact h
  · rename_i hnew
    refine List.pairwise_append.2 ⟨h, List.pairwise_singleton _ _, fun t ht u hu => ?_⟩
    obtain rfl := List.mem_singleton.1 hu
    by_contra hlike
    exact hnew (List.any_eq_true.2 ⟨t, ht, by simpa using hlike⟩)

lemma mem_of_mem_dedupe {items : List Schema} {t : Schema} (h : t ∈ dedupe items) :
    t ∈ items := by
  have hfold : ∀ (rest kept : List Schema), t ∈ rest.foldl pushUnique kept → t ∈ kept ∨ t ∈ rest := by
    intro rest
    induction rest with
    | nil => exact fun kept ht => Or.inl ht
    | cons s rest ih =>
      intro kept ht
      rcases ih _ ht with hkept | hrest
      · rcases mem_of_mem_pushUnique hkept with hin | rfl
        · exact Or.inl hin
        · exact Or.inr (List.mem_cons_self ..)
      · exact Or.inr (List.mem_cons_of_mem _ hrest)
  simpa using hfold items [] h

lemma unlike_dedupe (items : List Schema) : Unlike (dedupe items) := by
  have hfold : ∀ rest kept : List Schema, Unlike kept → Unlike (rest.foldl pushUnique kept) := by
    intro rest
    induction rest with
    | nil => exact fun _ hkept => hkept
    | cons s rest ih => exact fun kept hkept => ih _ (hkept.pushUnique s)
  exact hfold items [] List.Pairwise.nil

/-- Each member of a list stays, or its like does. -/
lemma exists_mem_dedupe {items : List Schema} {t : Schema} (h : t ∈ items) :
    ∃ u ∈ dedupe items, u = t ∨ sameMember u t = true := by
  have hkeep : ∀ (rest kept : List Schema) {u : Schema}, u ∈ kept →
      u ∈ rest.foldl pushUnique kept := by
    intro rest
    induction rest with
    | nil => exact fun _ _ hu => hu
    | cons s rest ih => exact fun kept u hu => ih _ (mem_pushUnique_of_mem hu)
  have hfold : ∀ rest kept : List Schema, t ∈ rest →
      ∃ u ∈ rest.foldl pushUnique kept, u = t ∨ sameMember u t = true := by
    intro rest
    induction rest with
    | nil => simp
    | cons s rest ih =>
      intro kept ht
      rcases List.mem_cons.1 ht with rfl | hrest
      · by_cases hlike : kept.any fun u => sameMember u t
        · obtain ⟨u, hu, hut⟩ := List.any_eq_true.1 hlike
          exact ⟨u, hkeep rest _ (mem_pushUnique_of_mem hu), Or.inr hut⟩
        · refine ⟨t, hkeep rest _ ?_, Or.inl rfl⟩
          rw [pushUnique, if_neg hlike]
          exact List.mem_append_right _ (List.mem_singleton_self t)
      · exact ih _ hrest
  exact hfold items [] h

lemma foldl_pushUnique_of_unlike {rest : List Schema} (kept : List Schema)
    (h : Unlike (kept ++ rest)) : rest.foldl pushUnique kept = kept ++ rest := by
  induction rest generalizing kept with
  | nil => simp
  | cons s rest ih =>
    have hnew : ¬ (kept.any fun t => sameMember t s) = true := by
      rw [List.any_eq_true]
      rintro ⟨t, ht, hts⟩
      have hunlike := (List.pairwise_append.1 h).2.2 t ht s (List.mem_cons_self ..)
      rw [hts] at hunlike
      cases hunlike
    rw [List.foldl_cons, pushUnique, if_neg hnew, ih _ (by simpa using h)]
    simp

lemma foldl_pushUnique_of_known {rest kept : List Schema}
    (h : ∀ s ∈ rest, ∃ t ∈ kept, sameMember t s = true) : rest.foldl pushUnique kept = kept := by
  induction rest with
  | nil => rfl
  | cons s rest ih =>
    have hknown : (kept.any fun t => sameMember t s) = true :=
      List.any_eq_true.2 (h s (List.mem_cons_self ..))
    rw [List.foldl_cons, pushUnique, if_pos hknown]
    exact ih fun t ht => h t (List.mem_cons_of_mem _ ht)

/-- A list without repetitions stays as it is, also if its members come again. -/
lemma dedupe_append {items again : List Schema} (h : Unlike items)
    (hagain : ∀ s ∈ again, s ∈ items ∧ sameMember s s = true) :
    dedupe (items ++ again) = items := by
  have hfirst : items.foldl pushUnique [] = items := foldl_pushUnique_of_unlike [] h
  rw [dedupe, List.foldl_append, hfirst]
  exact foldl_pushUnique_of_known fun s hs => ⟨s, hagain s hs⟩

/-! ## Truth values and covered literals -/

lemma equal_plain_comm (kind : Primitive) (s : Schema) :
    equal (plain kind) s = equal s (plain kind) := by
  cases s with
  | primitive k o =>
    simp only [plain, equal]
    exact Bool.beq_comm
  | _ => simp [plain, equal]

lemma isTruthValue_of_equal {s : Schema} {b : Bool} (h : equal s (boolean b) = true) :
    s.isTruthValue = true := by
  cases s with
  | literal value => cases value <;> simp_all [boolean, equal, Literal.same, isTruthValue]
  | _ => simp [boolean, equal] at h

lemma mem_of_mem_joinTruthValues {items : List Schema} {t : Schema}
    (h : t ∈ joinTruthValues items) : t ∈ items ∨ t = plain .boolean := by
  rw [joinTruthValues] at h
  split at h
  · dsimp only at h
    split at h
    · exact Or.inl (List.mem_of_mem_filter h)
    · rcases List.mem_append.1 h with htake | hdrop
      · exact Or.inl (List.mem_of_mem_filter (List.mem_of_mem_take htake))
      · rcases List.mem_cons.1 hdrop with rfl | hrest
        · exact Or.inr rfl
        · exact Or.inl (List.mem_of_mem_filter (List.mem_of_mem_drop hrest))
  · exact Or.inl h

lemma unlike_joinTruthValues {items : List Schema} (h : Unlike items) :
    Unlike (joinTruthValues items) := by
  rw [joinTruthValues]
  split
  · dsimp only
    have hothers : Unlike (items.filter fun s => !s.isTruthValue) := List.Pairwise.filter _ h
    generalize items.filter (fun s => !s.isTruthValue) = others at hothers
    split
    · exact hothers
    · rename_i hboolean
      have hnone : ∀ s ∈ others, equal s (plain .boolean) = false := by
        simpa using hboolean
      rw [← List.take_append_drop (items.findIdx isTruthValue) others] at hothers hnone
      obtain ⟨htake, hdrop, hcross⟩ := List.pairwise_append.1 hothers
      refine List.pairwise_append.2 ⟨htake, List.pairwise_cons.2 ⟨fun t ht => ?_, hdrop⟩,
        fun s hs t ht => ?_⟩
      · rw [sameMember, equal_plain_comm, hnone t (List.mem_append_right _ ht), Bool.false_and]
      · rcases List.mem_cons.1 ht with rfl | ht
        · rw [sameMember, hnone s (List.mem_append_left _ hs), Bool.false_and]
        · exact hcross s hs t ht
  · exact h

/-- The two truth values do not stand next to each other. -/
def TruthApart (items : List Schema) : Prop :=
  (items.any (equal · (boolean true)) && items.any (equal · (boolean false))) = false

lemma truthApart_joinTruthValues (items : List Schema) : TruthApart (joinTruthValues items) := by
  by_cases hboth : (items.any (equal · (boolean true)) &&
      items.any (equal · (boolean false))) = true
  · have hnone : ∀ s ∈ joinTruthValues items, s.isTruthValue = false := by
      intro s hs
      rw [joinTruthValues, if_pos hboth] at hs
      dsimp only at hs
      split at hs
      · simpa using List.of_mem_filter hs
      · rcases List.mem_append.1 hs with htake | hdrop
        · simpa using List.of_mem_filter (List.mem_of_mem_take htake)
        · rcases List.mem_cons.1 hdrop with rfl | hrest
          · rfl
          · simpa using List.of_mem_filter (List.mem_of_mem_drop hrest)
    rw [TruthApart, Bool.and_eq_false_iff]
    refine Or.inl (List.any_eq_false.2 fun s hs hequal => ?_)
    have hfalse := hnone s hs
    rw [isTruthValue_of_equal hequal] at hfalse
    cases hfalse
  · rw [joinTruthValues, if_neg hboth, TruthApart]
    simpa using hboth

lemma TruthApart.sublist {items members : List Schema} (h : TruthApart items)
    (hsub : members.Sublist items) : TruthApart members := by
  have hany : ∀ p : Schema → Bool, items.any p = false → members.any p = false := by
    intro p hp
    exact List.any_eq_false.2 fun s hs => List.any_eq_false.1 hp s (hsub.subset hs)
  rw [TruthApart, Bool.and_eq_false_iff] at h ⊢
  exact h.imp (hany _) (hany _)

lemma joinTruthValues_of_truthApart {items : List Schema} (h : TruthApart items) :
    joinTruthValues items = items := by
  rw [joinTruthValues, if_neg (by rw [h]; simp)]

lemma filterMap_plain?_dropCovered (items : List Schema) :
    (dropCovered items).filterMap plain? = items.filterMap plain? := by
  rw [dropCovered, List.filterMap_filter]
  refine List.filterMap_congr fun s _ => ?_
  cases s <;> simp [literal?, plain?]

lemma dropCovered_sublist (items : List Schema) : (dropCovered items).Sublist items :=
  List.filter_sublist

/-- What is left is not covered. -/
lemma dropCovered_dropCovered (items : List Schema) :
    dropCovered (dropCovered items) = dropCovered items := by
  have hkinds := filterMap_plain?_dropCovered items
  conv_lhs => rw [dropCovered, hkinds]
  rw [dropCovered, List.filter_filter]
  simp

/-! ## Unions -/

/-- The members of a union in normal form. -/
structure UnionNormal (members : List Schema) : Prop where
  unlike : Unlike members
  never : ∀ s ∈ members, s.isPrimitive .never = false
  any : ∀ s ∈ members, s.isPlain .any = false
  unknown : ∀ s ∈ members, s.isPlain .unknown = false
  truth : TruthApart members
  covered : dropCovered members = members

/-- The members of the arguments of a union, each once, without `never`. -/
def flatMembers (items : List Schema) : List Schema :=
  (dedupe (items.flatMap alternatives)).filter fun s => !s.isPrimitive .never

lemma mem_of_mem_flatMembers {items : List Schema} {t : Schema} (h : t ∈ flatMembers items) :
    ∃ s ∈ items, t ∈ s.alternatives :=
  List.mem_flatMap.1 (mem_of_mem_dedupe (List.mem_of_mem_filter h))

/-- A union is `any` or `unknown` if that is a member, and else what its members make up. -/
lemma unionOf_cases (items : List Schema) :
    (∃ s ∈ flatMembers items, (s.isPlain .any = true ∨ s.isPlain .unknown = true) ∧
      unionOf items = s) ∨
    ((∀ s ∈ flatMembers items, s.isPlain .any = false ∧ s.isPlain .unknown = false) ∧
      unionOf items = ofMembers (dropCovered (joinTruthValues (flatMembers items)))) := by
  rw [unionOf, ← flatMembers]
  split
  · rename_i s hs
    refine Or.inl ⟨s, ?_⟩
    rw [Option.orElse_eq_orElse, Option.orElse_eq_or, Option.or_eq_some_iff] at hs
    rcases hs with hany | ⟨-, hunknown⟩
    · exact ⟨List.mem_of_find?_eq_some hany, Or.inl (List.find?_some hany), rfl⟩
    · exact ⟨List.mem_of_find?_eq_some hunknown, Or.inr (List.find?_some hunknown), rfl⟩
  · rename_i hs
    rw [Option.orElse_eq_orElse, Option.orElse_eq_or, Option.or_eq_none_iff,
      List.find?_eq_none, List.find?_eq_none] at hs
    exact Or.inr ⟨fun s hs' => ⟨by simpa using hs.1 s hs', by simpa using hs.2 s hs'⟩, rfl⟩

lemma unionNormal_members {items : List Schema}
    (h : ∀ s ∈ flatMembers items, s.isPlain .any = false ∧ s.isPlain .unknown = false) :
    UnionNormal (dropCovered (joinTruthValues (flatMembers items))) := by
  have hsub := dropCovered_sublist (joinTruthValues (flatMembers items))
  have hmember : ∀ s ∈ dropCovered (joinTruthValues (flatMembers items)),
      s ∈ flatMembers items ∨ s = plain .boolean :=
    fun s hs => mem_of_mem_joinTruthValues (hsub.subset hs)
  refine ⟨?_, fun s hs => ?_, fun s hs => ?_, fun s hs => ?_, ?_, dropCovered_dropCovered _⟩
  · exact (unlike_joinTruthValues (List.Pairwise.filter _ (unlike_dedupe _))).sublist hsub
  · rcases hmember s hs with hflat | rfl
    · simpa using List.of_mem_filter hflat
    · rfl
  · rcases hmember s hs with hflat | rfl
    · exact (h s hflat).1
    · rfl
  · rcases hmember s hs with hflat | rfl
    · exact (h s hflat).2
    · rfl
  · exact (truthApart_joinTruthValues _).sublist hsub

/-- A property of a union by a property of the members of its arguments, if the one follows from the
other for a single member and for the members of a union in normal form. -/
lemma unionOf_of_members {P Q : Schema → Prop} {items : List Schema}
    (hmember : ∀ s ∈ items, ∀ t ∈ s.alternatives, P t) (hnever : Q never)
    (hboolean : P (plain .boolean)) (hsingle : ∀ t, P t → Q t)
    (hunion : ∀ members, 2 ≤ members.length → UnionNormal members → (∀ t ∈ members, P t) →
      Q (union members)) : Q (unionOf items) := by
  have hflat : ∀ t ∈ flatMembers items, P t := by
    intro t ht
    obtain ⟨s, hs, hts⟩ := mem_of_mem_flatMembers ht
    exact hmember s hs t hts
  rcases unionOf_cases items with ⟨s, hs, -, heq⟩ | ⟨hplain, heq⟩
  · rw [heq]
    exact hsingle s (hflat s hs)
  · have hnormal := unionNormal_members hplain
    have hall : ∀ t ∈ dropCovered (joinTruthValues (flatMembers items)), P t := by
      intro t ht
      rcases mem_of_mem_joinTruthValues ((dropCovered_sublist _).subset ht) with hin | rfl
      · exact hflat t hin
      · exact hboolean
    rw [heq]
    generalize dropCovered (joinTruthValues (flatMembers items)) = members at hnormal hall
    match members with
    | [] => exact hnever
    | [s] => exact hsingle s (hall s (List.mem_singleton_self s))
    | s :: t :: rest => exact hunion _ (by simp) hnormal hall

/-- What holds of the members of the arguments holds of their union, if it goes from the members of
a union in normal form to the union. -/
lemma unionOf_induction {P : Schema → Prop} {items : List Schema}
    (hmember : ∀ s ∈ items, ∀ t ∈ s.alternatives, P t) (hnever : P never)
    (hboolean : P (plain .boolean))
    (hunion : ∀ members, 2 ≤ members.length → UnionNormal members → (∀ t ∈ members, P t) →
      P (union members)) : P (unionOf items) :=
  unionOf_of_members hmember hnever hboolean (fun _ ht => ht) hunion

/-! ## Intersections -/

/-- The members of an intersection in normal form. -/
structure IntersectionNormal (members : List Schema) : Prop where
  unlike : Unlike members
  never : ∀ s ∈ members, s.isPrimitive .never = false
  any : ∀ s ∈ members, s.isPlain .any = false
  unknown : ∀ s ∈ members, s.isPlain .unknown = false
  objects : members.all isObject = false

/-- A property of an intersection by a property of the members of its arguments, if the one follows
from the other for a single member, for objects that are merged, and for the members of an
intersection in normal form. -/
lemma intersectionWith_of_members {P Q : Schema → Prop} {merge : Schema → Schema → Schema}
    {items : List Schema} (hmember : ∀ s ∈ items, ∀ t ∈ s.conjuncts, P t) (hnever : Q never)
    (hunknown : Q unknown) (hsingle : ∀ t, P t → Q t)
    (hobject : ∀ objects, (∀ t ∈ objects, P t) → Q (mergeObjectsWith merge objects))
    (hintersection : ∀ members, 2 ≤ members.length → IntersectionNormal members →
      (∀ t ∈ members, P t) → Q (intersection members)) : Q (intersectionWith merge items) := by
  have hflat : ∀ t ∈ dedupe (items.flatMap conjuncts), P t := by
    intro t ht
    obtain ⟨s, hs, hts⟩ := List.mem_flatMap.1 (mem_of_mem_dedupe ht)
    exact hmember s hs t hts
  have hunlike := unlike_dedupe (items.flatMap conjuncts)
  rw [intersectionWith]
  generalize dedupe (items.flatMap conjuncts) = flat at hflat hunlike
  split
  · exact hnever
  · rename_i hneverless
    split
    · rename_i s hs
      exact hsingle s (hflat s (List.mem_of_find?_eq_some hs))
    · rename_i hanyless
      have hknown : ∀ t ∈ flat.filter fun s => !s.isPlain .unknown, P t :=
        fun t ht => hflat t (List.mem_of_mem_filter ht)
      split
      · exact hunknown
      · rename_i s hs
        exact hsingle s (hknown s (hs ▸ List.mem_singleton_self s))
      · rename_i known hnil hone
        split
        · exact hobject _ hknown
        · rename_i hmixed
          refine hintersection _ ?_ ⟨?_, fun s hs => ?_, fun s hs => ?_, fun s hs => ?_, ?_⟩ hknown
          · match hlist : flat.filter fun s => !s.isPlain .unknown with
            | [] => exact absurd hlist hnil
            | [s] => exact absurd hlist (hone s)
            | s :: t :: rest =>
              rw [hlist]
              simp
          · exact List.Pairwise.filter _ hunlike
          · by_contra hs'
            exact hneverless (List.any_eq_true.2 ⟨s, List.mem_of_mem_filter hs, by simpa using hs'⟩)
          · simpa using List.find?_eq_none.1 hanyless s (List.mem_of_mem_filter hs)
          · simpa using List.of_mem_filter hs
          · simpa using hmixed

/-- What holds of the members of the arguments holds of their intersection, if it goes from objects
to what they are merged into, and from the members of an intersection in normal form to the
intersection. -/
lemma intersectionWith_induction {P : Schema → Prop} {merge : Schema → Schema → Schema}
    {items : List Schema} (hmember : ∀ s ∈ items, ∀ t ∈ s.conjuncts, P t) (hnever : P never)
    (hunknown : P unknown)
    (hobject : ∀ objects, (∀ t ∈ objects, P t) → P (mergeObjectsWith merge objects))
    (hintersection : ∀ members, 2 ≤ members.length → IntersectionNormal members →
      (∀ t ∈ members, P t) → P (intersection members)) : P (intersectionWith merge items) :=
  intersectionWith_of_members hmember hnever hunknown (fun _ ht => ht) hobject hintersection

/-! ## Compositions of simple schemas -/

/-- Whether a schema is made up of members: a union or an intersection. -/
def isComposite : Schema → Bool
  | union _ | intersection _ => true
  | _ => false

lemma alternatives_of_simple {s : Schema} (h : s.isComposite = false) : s.alternatives = [s] := by
  cases s with
  | union => cases h
  | _ => rfl

lemma conjuncts_of_simple {s : Schema} (h : s.isComposite = false) : s.conjuncts = [s] := by
  cases s with
  | intersection => cases h
  | _ => rfl

/-- A schema is composed of simple schemas by unions and intersections.  The simple schemas, the
members of the unions and those of the intersections are as given properties say. -/
inductive Composed (simple : Schema → Prop) (unions intersections : List Schema → Prop) :
    Schema → Prop where
  | simple {s : Schema} (hs : s.isComposite = false) (h : simple s) :
    Composed simple unions intersections s
  | union {items : List Schema} (h : unions items)
    (hitems : ∀ t ∈ items, Composed simple unions intersections t) :
    Composed simple unions intersections (union items)
  | intersection {items : List Schema} (h : intersections items)
    (hitems : ∀ t ∈ items, Composed simple unions intersections t) :
    Composed simple unions intersections (intersection items)

/-- Joining texts leaves everything else as it is. -/
lemma mem_joinTexts {items : List Schema} {t : Schema} (h : t ∈ joinTexts items) :
    t ∈ items ∨ t.isLiteral = true := by
  induction items with
  | nil => cases h
  | cons s rest ih =>
    have hrest : t ∈ joinTexts rest → t ∈ s :: rest ∨ t.isLiteral = true := fun ht =>
      (ih ht).imp_left (List.mem_cons_of_mem _)
    rw [joinTexts] at h
    split at h
    · rcases List.mem_cons.1 h with rfl | ht
      · exact Or.inl (List.mem_cons_self ..)
      · exact hrest ht
    · split at h
      · rename_i text more heq
        rcases List.mem_cons.1 h with rfl | ht
        · exact Or.inr rfl
        · exact hrest (heq ▸ List.mem_cons_of_mem _ ht)
      · rcases List.mem_cons.1 h with rfl | ht
        · exact Or.inr rfl
        · exact hrest ht

/-- A template is the union of the texts that its parts make up, the empty text, or symbolic: then
its items come from joining the parts. -/
lemma templateOf_cases (items : List Schema) (cap : Nat) :
    (∃ combinations, cartesian? ((items.flatMap parts).map alternatives) cap = some combinations ∧
      templateOf items cap = unionOf (combinations.map fun c => string (concatenation c))) ∨
    templateOf items cap = string "" ∨
    ∃ texts, (∀ t ∈ texts, t ∈ joinTexts (items.flatMap parts)) ∧
      templateOf items cap = template texts := by
  generalize hs : templateOf items cap = s
  rw [templateOf] at hs
  split at hs
  · split at hs
    · exact Or.inl ⟨_, ‹_›, hs.symm⟩
    · split at hs
      · exact Or.inr (Or.inl hs.symm)
      · exact Or.inr (Or.inr ⟨_, fun t ht => List.mem_of_mem_filter ht, hs.symm⟩)
  · split at hs
    · exact Or.inr (Or.inl hs.symm)
    · exact Or.inr (Or.inr ⟨_, fun t ht => List.mem_of_mem_filter ht, hs.symm⟩)

namespace Composed

variable {simple : Schema → Prop} {unions intersections : List Schema → Prop} {s t : Schema}
  {items : List Schema}

lemma of_mem_alternatives (h : Composed simple unions intersections s)
    (ht : t ∈ s.alternatives) : Composed simple unions intersections t := by
  cases h with
  | union hunion hitems => exact hitems t ht
  | simple hs hsimple =>
    rw [alternatives_of_simple hs] at ht
    obtain rfl := List.mem_singleton.1 ht
    exact .simple hs hsimple
  | intersection hinter hitems =>
    obtain rfl := List.mem_singleton.1 ht
    exact .intersection hinter hitems

lemma of_mem_conjuncts (h : Composed simple unions intersections s) (ht : t ∈ s.conjuncts) :
    Composed simple unions intersections t := by
  cases h with
  | intersection hinter hitems => exact hitems t ht
  | simple hs hsimple =>
    rw [conjuncts_of_simple hs] at ht
    obtain rfl := List.mem_singleton.1 ht
    exact .simple hs hsimple
  | union hunion hitems =>
    obtain rfl := List.mem_singleton.1 ht
    exact .union hunion hitems

/-- A union is composed as its arguments are. -/
lemma unionOf (hnever : simple never) (hboolean : simple (plain .boolean))
    (hunions : ∀ members, 2 ≤ members.length → UnionNormal members → unions members)
    (h : ∀ s ∈ items, Composed simple unions intersections s) :
    Composed simple unions intersections (unionOf items) :=
  unionOf_induction (fun s hs _ ht => (h s hs).of_mem_alternatives ht) (.simple rfl hnever)
    (.simple rfl hboolean) fun members hlength hnormal hall =>
      .union (hunions members hlength hnormal) hall

/-- An intersection is composed as its arguments are. -/
lemma intersectionOf (hnever : simple never) (hunknown : simple unknown)
    (hobject : ∀ properties indexKeys, simple (object properties indexKeys))
    (hintersections : ∀ members, 2 ≤ members.length → IntersectionNormal members →
      intersections members)
    (h : ∀ s ∈ items, Composed simple unions intersections s) :
    Composed simple unions intersections (intersectionOf items) :=
  intersectionWith_induction (fun s hs _ ht => (h s hs).of_mem_conjuncts ht) (.simple rfl hnever)
    (.simple rfl hunknown) (fun _ _ => .simple rfl (hobject _ _)) fun members hlength hnormal hall =>
      .intersection (hintersections members hlength hnormal) hall

/-- A template is a text, a union of texts, or symbolic: then its items are parts of those that it
was made of, and texts. -/
lemma templateOf (hnever : simple never) (hboolean : simple (plain .boolean))
    (hstring : ∀ value, simple (string value))
    (htemplate : ∀ texts, (∀ t ∈ texts, t ∈ items.flatMap parts ∨ t.isLiteral = true) →
      simple (template texts))
    (hunions : ∀ members, 2 ≤ members.length → UnionNormal members → unions members) (cap : Nat) :
    Composed simple unions intersections (templateOf items cap) := by
  rcases templateOf_cases items cap with ⟨combinations, -, heq⟩ | heq | ⟨texts, htexts, heq⟩
  · rw [heq]
    refine unionOf hnever hboolean hunions fun s hs => ?_
    obtain ⟨combination, -, rfl⟩ := List.mem_map.1 hs
    exact .simple rfl (hstring _)
  · rw [heq]
    exact .simple rfl (hstring _)
  · rw [heq]
    exact .simple rfl (htemplate _ fun t ht => mem_joinTexts (htexts t ht))

end Composed

/-! ## Schemas of types -/

/-- Whether a schema is a binary operation. -/
def isOperation : Schema → Bool
  | binary .. => true
  | _ => false

/-- The schemas that types have are composed of simple ones that are not operations, and their
unions and intersections are not empty. -/
def Typelike : Schema → Prop :=
  Composed (fun s => s.isOperation = false) (fun items => items ≠ []) fun items => items ≠ []

lemma ne_nil_of_two_le_length {α : Type} {items : List α} (h : 2 ≤ items.length) : items ≠ [] := by
  rintro rfl
  simp at h

lemma typelike_unionOf {items : List Schema} (h : ∀ s ∈ items, s.Typelike) :
    (unionOf items).Typelike :=
  .unionOf rfl rfl (fun _ hlength _ => ne_nil_of_two_le_length hlength) h

lemma typelike_intersectionOf {items : List Schema} (h : ∀ s ∈ items, s.Typelike) :
    (intersectionOf items).Typelike :=
  .intersectionOf rfl rfl (fun _ _ => rfl) (fun _ hlength _ => ne_nil_of_two_le_length hlength) h

lemma typelike_templateOf (items : List Schema) (cap : Nat) : (templateOf items cap).Typelike := by
  refine Composed.templateOf ?_ ?_ (fun _ => ?_) (fun _ _ => ?_)
    (fun _ hlength _ => ne_nil_of_two_le_length hlength) cap <;> rfl

end ValueSchema.Schema
