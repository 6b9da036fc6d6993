/-
# The normal form of a union

A union is built in steps, and each of them is taken once: members come up one level, repeated members
and `never` go, `any` and `unknown` swallow everything, the truth values are joined, and covered
literals go.  If no member of a member is a union itself, then the result is in normal form
(`InUnionForm`): no step brings back what an earlier one has removed, not even the one that inserts the
type of both truth values.  A schema in normal form stays as it is if it is united with nothing else.

The order of the arguments decides which of several like members stays, and where.  But whether one of
them stays depends only on which schemas are there and not on their order, and the reason holds of all
its like.  So in two orders of the arguments the unions have like alternatives (`agree_alternatives`),
and since none of them is there twice, they are the same up to their order.
-/
import Mathlib.Data.List.Forall2
import ValueSchema.Proofs.Schema.Representation

namespace ValueSchema

/-- Two lists match up to their order if each member of the one has a partner in the other, and no two
members of a list are partners. -/
lemma exists_forall₂_perm {α : Type} {r : α → α → Prop} (hsymm : ∀ x y, r x y → r y x)
    (htrans : ∀ x y z, r x y → r y z → r x z) {xs ys : List α}
    (hxs : xs.Pairwise fun x y => ¬r x y) (hys : ys.Pairwise fun x y => ¬r x y)
    (hleft : ∀ x ∈ xs, ∃ y ∈ ys, r x y) (hright : ∀ y ∈ ys, ∃ x ∈ xs, r y x) :
    ∃ zs, List.Forall₂ r xs zs ∧ zs.Perm ys := by
  induction xs generalizing ys with
  | nil =>
    have hnil : ys = [] := by
      refine List.eq_nil_iff_forall_not_mem.2 fun y hy => ?_
      obtain ⟨x, hx, -⟩ := hright y hy
      cases hx
    exact ⟨[], .nil, hnil ▸ .nil⟩
  | cons x rest ih =>
    obtain ⟨hx, hrest⟩ := List.pairwise_cons.1 hxs
    obtain ⟨y, hy, hxy⟩ := hleft x (List.mem_cons_self ..)
    obtain ⟨before, after, rfl⟩ := List.append_of_mem hy
    have hmiddle : (before ++ y :: after).Perm (y :: (before ++ after)) := List.perm_middle
    have hfirst := hmiddle.pairwise hys fun h h' => h (hsymm _ _ h')
    obtain ⟨hy', hothers⟩ := List.pairwise_cons.1 hfirst
    -- no other member has the partner `y` of `x`, and `x` is the partner of `y` only
    have hleft' : ∀ a ∈ rest, ∃ b ∈ before ++ after, r a b := by
      intro a ha
      obtain ⟨b, hb, hab⟩ := hleft a (List.mem_cons_of_mem _ ha)
      rcases List.mem_cons.1 (hmiddle.mem_iff.1 hb) with rfl | hb
      · exact absurd (htrans _ _ _ hxy (hsymm _ _ hab)) (hx a ha)
      · exact ⟨b, hb, hab⟩
    have hright' : ∀ b ∈ before ++ after, ∃ a ∈ rest, r b a := by
      intro b hb
      obtain ⟨a, ha, hba⟩ := hright b (hmiddle.mem_iff.2 (List.mem_cons_of_mem _ hb))
      rcases List.mem_cons.1 ha with rfl | ha
      · exact absurd (htrans _ _ _ (hsymm _ _ hxy) (hsymm _ _ hba)) (hy' b hb)
      · exact ⟨a, ha, hba⟩
    obtain ⟨zs, hzs, hperm⟩ := ih hrest hothers hleft' hright'
    exact ⟨y :: zs, .cons hxy hzs, (hperm.cons y).trans hmiddle.symm⟩

namespace Schema

/-- Whether a schema is a union, in normal form or not. -/
def isUnion : Schema → Bool
  | union _ => true
  | _ => false

/-- Several schemas of which none is superfluous as a member of a union. -/
structure Irredundant (members : List Schema) : Prop where
  several : 2 ≤ members.length
  unlike : Unlike members
  isUnion : ∀ s ∈ members, s.isUnion = false
  never : ∀ s ∈ members, s.isPrimitive .never = false
  any : plain .any ∉ members
  unknown : plain .unknown ∉ members
  truth : ¬(boolean true ∈ members ∧ boolean false ∈ members)
  covered : ∀ value kind, literal value ∈ members → value.primitive? = some kind →
    plain kind ∉ members

/-- The normal form of a union: `never`, another schema that is no union, or a union without a
superfluous member. -/
inductive InUnionForm : Schema → Prop
  | never : InUnionForm never
  | single {s : Schema} (hunion : s.isUnion = false) (hnever : s.isPrimitive .never = false) :
      InUnionForm s
  | union {members : List Schema} (h : Irredundant members) : InUnionForm (union members)

/-- Two lists have the same members up to likeness, in some order. -/
def Permutes (items others : List Schema) : Prop :=
  ∃ members, List.Forall₂ (fun s t => sameMember s t = true) items members ∧ members.Perm others

variable {v : Vocabulary} {s t : Schema} {items others members : List Schema} {kind : Primitive}

lemma alternatives_of_isUnion (h : s.isUnion = false) : s.alternatives = [s] := by
  cases s with
  | union items => cases h
  | _ => rfl

/-! ## The members that stay -/

lemma isUnion_of_mem_alternatives
    (h : ∀ members, union members ∈ items → ∀ t ∈ members, t.isUnion = false) :
    ∀ s ∈ items, ∀ t ∈ s.alternatives, t.isUnion = false := by
  intro s hs t ht
  cases s with
  | union members => exact h members hs t ht
  | _ =>
    obtain rfl := List.mem_singleton.1 ht
    rfl

section

variable (h : ∀ s ∈ items, ∀ t ∈ s.alternatives, t.isUnion = false)

include h

lemma isUnion_of_mem_flatMembers (hs : s ∈ flatMembers items) : s.isUnion = false := by
  obtain ⟨t, ht, hst⟩ := mem_of_mem_flatMembers hs
  exact h t ht s hst

lemma isUnion_of_mem_keptMembers (hs : s ∈ keptMembers items) : s.isUnion = false := by
  rcases mem_of_mem_joinTruthValues ((dropCovered_sublist _).subset hs) with hflat | rfl
  · exact isUnion_of_mem_flatMembers h hflat
  · rfl

end

/-- Members are in normal form if none of them is superfluous. -/
lemma irredundant_iff : Irredundant members ↔
    (2 ≤ members.length ∧ UnionNormal members) ∧ ∀ s ∈ members, s.isUnion = false := by
  constructor
  · intro h
    refine ⟨⟨h.several, h.unlike, h.never, fun s hs => ?_, fun s hs => ?_,
      truthApart_iff.2 h.truth, ?_⟩, h.isUnion⟩
    · rw [← Bool.not_eq_true, isPlain_iff]
      exact fun heq => h.any (heq ▸ hs)
    · rw [← Bool.not_eq_true, isPlain_iff]
      exact fun heq => h.unknown (heq ▸ hs)
    · refine List.filter_eq_self.2 fun s hs => ?_
      have hopen : ∀ kind, s.literal?.bind Literal.primitive? = some kind → plain kind ∉ members := by
        intro kind hkind
        cases s with
        | literal value => exact h.covered value kind hs hkind
        | _ => cases hkind
      exact (List.mem_filter.1 (mem_dropCovered_iff.2 ⟨hs, hopen⟩)).2
  · rintro ⟨⟨hlength, hnormal⟩, hunion⟩
    refine ⟨hlength, hnormal.unlike, hunion, hnormal.never, fun hany => ?_, fun hunknown => ?_,
      truthApart_iff.1 hnormal.truth, fun value kind hvalue hkind => ?_⟩
    · cases hnormal.any _ hany
    · cases hnormal.unknown _ hunknown
    · rw [← hnormal.covered, mem_dropCovered_iff] at hvalue
      exact hvalue.2 kind hkind

lemma inUnionForm_unionOf (h : ∀ s ∈ items, ∀ t ∈ s.alternatives, t.isUnion = false) :
    InUnionForm (unionOf items) := by
  rcases unionOf_cases items with ⟨s, hs, -, heq⟩ | ⟨hplain, heq⟩
  · -- `any` or `unknown`: a single member
    rw [heq]
    exact .single (isUnion_of_mem_flatMembers h hs) (by simpa using List.of_mem_filter hs)
  · have hnormal := unionNormal_members hplain
    have hunion : ∀ s ∈ keptMembers items, s.isUnion = false := fun s =>
      isUnion_of_mem_keptMembers h
    rw [heq, ← keptMembers]
    rw [← keptMembers] at hnormal
    generalize keptMembers items = members at hnormal hunion
    rcases members with _ | ⟨s, _ | ⟨t, rest⟩⟩
    · exact .never
    · have hs : s ∈ [s] := List.mem_singleton_self s
      exact .single (hunion s hs) (hnormal.never s hs)
    · exact .union (irredundant_iff.2 ⟨⟨by simp, hnormal⟩, hunion⟩)

/-- A schema in normal form stays as it is. -/
lemma unionOf_of_inUnionForm (h : InUnionForm s) : unionOf [s] = s := by
  cases h with
  | never => rfl
  | single hunion hnever =>
    refine unionOf_of_flatMembers_eq_singleton ?_
    rw [flatMembers, List.flatMap_singleton, alternatives_of_isUnion hunion,
      dedupe_of_unlike (List.pairwise_singleton _ _)]
    exact List.filter_eq_self.2 (List.forall_mem_singleton.2 (by rw [hnever]; rfl))
  | @union members hmembers =>
    obtain ⟨⟨hlength, hnormal⟩, hunion⟩ := irredundant_iff.1 hmembers
    have hflat : ∀ t ∈ members, t.alternatives = [t] := fun t ht =>
      alternatives_of_isUnion (hunion t ht)
    have hmembers : [union members].flatMap alternatives = members.flatMap alternatives := by
      rw [List.flatMap_singleton, flatMap_eq_self hflat]
      rfl
    calc unionOf [union members] = unionOf members := by rw [unionOf, unionOf, hmembers]
      _ = ofMembers members := unionOf_of_unionNormal hnormal hflat
      _ = union members := ofMembers_of_two_le_length hlength

/-! ## Like members -/

/-- Two schemas with different names for different properties, which are the same member. -/
structure Twins (v : Vocabulary) (s t : Schema) : Prop where
  left : s.Within v
  right : t.Within v
  same : sameMember s t = true

lemma Twins.equal (h : Twins v s t) : equal s t = true := (Bool.and_eq_true_iff.1 h.same).1

lemma Twins.symm (h : Twins v s t) : Twins v t s := by
  obtain ⟨hequal, hplaceholders⟩ := Bool.and_eq_true_iff.1 h.same
  exact ⟨h.right, h.left,
    Bool.and_eq_true_iff.2 ⟨equal_symm h.left h.right hequal, BEq.symm hplaceholders⟩⟩

lemma Twins.trans {u : Schema} (h : Twins v s t) (h' : Twins v t u) : Twins v s u := by
  obtain ⟨hequal, hplaceholders⟩ := Bool.and_eq_true_iff.1 h.same
  obtain ⟨hequal', hplaceholders'⟩ := Bool.and_eq_true_iff.1 h'.same
  exact ⟨h.left, h'.right,
    Bool.and_eq_true_iff.2 ⟨equal_trans hequal hequal', BEq.trans hplaceholders hplaceholders'⟩⟩

/-- Each member of one list has its like in the other. -/
def Covers (v : Vocabulary) (items others : List Schema) : Prop :=
  ∀ s ∈ items, ∃ t ∈ others, Twins v s t

/-- Two lists have like members. -/
structure Agree (v : Vocabulary) (items others : List Schema) : Prop where
  left : Covers v items others
  right : Covers v others items

lemma Agree.symm (h : Agree v items others) : Agree v others items := ⟨h.right, h.left⟩

lemma Covers.trans {more : List Schema} (h : Covers v items others) (h' : Covers v others more) :
    Covers v items more := by
  intro s hs
  obtain ⟨t, ht, hst⟩ := h s hs
  obtain ⟨u, hu, htu⟩ := h' t ht
  exact ⟨u, hu, hst.trans htu⟩

lemma Agree.trans {more : List Schema} (h : Agree v items others) (h' : Agree v others more) :
    Agree v items more :=
  ⟨h.left.trans h'.left, h'.right.trans h.right⟩

lemma agree_self (h : ∀ s ∈ items, s.Within v) : Agree v items items := by
  have hcovers : Covers v items items := fun s hs =>
    ⟨s, hs, h s hs, h s hs, sameMember_self (h s hs)⟩
  exact ⟨hcovers, hcovers⟩

lemma twins_plain (v : Vocabulary) (kind : Primitive) : Twins v (plain kind) (plain kind) :=
  have hwithin : (plain kind).Within v := by simp [plain]
  ⟨hwithin, hwithin, sameMember_self hwithin⟩

lemma agree_plain (v : Vocabulary) (kind : Primitive) : Agree v [plain kind] [plain kind] :=
  agree_self (List.forall_mem_singleton.2 (within_plain kind))

lemma Covers.primitive_mem {o : Option NodeId} (h : Covers v items others)
    (hmem : primitive kind o ∈ items) : primitive kind o ∈ others := by
  obtain ⟨t, ht, htwins⟩ := h _ hmem
  exact eq_primitive_of_sameMember htwins.symm.same ▸ ht

lemma Covers.boolean_mem {b : Bool} (h : Covers v items others) (hmem : boolean b ∈ items) :
    boolean b ∈ others := by
  obtain ⟨t, ht, htwins⟩ := h _ hmem
  exact eq_boolean_of_like htwins.symm.same ▸ ht

lemma Agree.plain_mem_iff (h : Agree v items others) : plain kind ∈ items ↔ plain kind ∈ others :=
  ⟨h.left.primitive_mem, h.right.primitive_mem⟩

lemma Agree.both_iff (h : Agree v items others) :
    (boolean true ∈ items ∧ boolean false ∈ items) ↔
      (boolean true ∈ others ∧ boolean false ∈ others) :=
  ⟨And.imp h.left.boolean_mem h.left.boolean_mem, And.imp h.right.boolean_mem h.right.boolean_mem⟩

/-! ## The order of the arguments -/

/-- Arguments with the same members have like members once the repeated ones are gone. -/
lemma covers_flatMembers (hitems : ∀ s ∈ items, s.Within v) (hothers : ∀ s ∈ others, s.Within v)
    (hsubset : ∀ s ∈ items.flatMap alternatives, s ∈ others.flatMap alternatives) :
    Covers v (flatMembers items) (flatMembers others) := by
  intro s hs
  obtain ⟨t, ht, hst⟩ := mem_of_mem_flatMembers hs
  obtain ⟨u, hu, hlike⟩ := exists_mem_flatMembers hothers
    (hsubset s (List.mem_flatMap.2 ⟨t, ht, hst⟩)) (by simpa using List.of_mem_filter hs)
  obtain ⟨w, hw, huw⟩ := mem_of_mem_flatMembers hu
  have htwins : Twins v u s :=
    ⟨mem_alternatives_within (hothers w hw) huw, mem_alternatives_within (hitems t ht) hst, hlike⟩
  exact ⟨u, hu, htwins.symm⟩

lemma agree_flatMembers (h : ∀ s ∈ items, s.Within v) (hperm : items.Perm others) :
    Agree v (flatMembers items) (flatMembers others) := by
  have hothers : ∀ s ∈ others, s.Within v := fun s hs => h s (hperm.mem_iff.2 hs)
  have hmem := hperm.flatMap_right alternatives
  exact ⟨covers_flatMembers h hothers fun _ => hmem.mem_iff.1,
    covers_flatMembers hothers h fun _ => hmem.mem_iff.2⟩

lemma covers_joinTruthValues (h : Agree v items others) :
    Covers v (joinTruthValues items) (joinTruthValues others) := by
  intro s hs
  rcases mem_joinTruthValues_iff.1 hs with ⟨hmem, hstays⟩ | ⟨rfl, hboth, hnone⟩
  · -- a truth value goes if both are there, and so does its like
    obtain ⟨t, ht, htwins⟩ := h.left s hmem
    refine ⟨t, mem_joinTruthValues_iff.2 (Or.inl ⟨ht, ?_⟩), htwins⟩
    rwa [← h.both_iff, ← isTruthValue_congr htwins.equal]
  · -- what would be taken for the type in the other list would also be in this one
    refine ⟨plain .boolean, mem_joinTruthValues_iff.2 (Or.inr ⟨rfl, h.both_iff.1 hboth, ?_⟩),
      twins_plain v _⟩
    exact fun o ho => hnone o (h.right.primitive_mem ho)

lemma covers_dropCovered (h : Agree v items others) :
    Covers v (dropCovered items) (dropCovered others) := by
  intro s hs
  obtain ⟨hmem, hopen⟩ := mem_dropCovered_iff.1 hs
  obtain ⟨t, ht, htwins⟩ := h.left s hmem
  refine ⟨t, mem_dropCovered_iff.2 ⟨ht, fun kind hkind => ?_⟩, htwins⟩
  rw [← literal_kind_congr htwins.equal] at hkind
  rw [← h.plain_mem_iff]
  exact hopen kind hkind

lemma agree_keptMembers (h : Agree v (flatMembers items) (flatMembers others)) :
    Agree v (keptMembers items) (keptMembers others) := by
  have hjoin : Agree v (joinTruthValues (flatMembers items)) (joinTruthValues (flatMembers others)) :=
    ⟨covers_joinTruthValues h, covers_joinTruthValues h.symm⟩
  exact ⟨covers_dropCovered hjoin, covers_dropCovered hjoin.symm⟩

lemma Agree.ofMembers (h : Agree v items others) (hitems : ∀ s ∈ items, s.isUnion = false)
    (hothers : ∀ s ∈ others, s.isUnion = false) :
    Agree v (ofMembers items).alternatives (ofMembers others).alternatives := by
  by_cases hnil : items = []
  · have hnil' : others = [] := by
      refine List.eq_nil_iff_forall_not_mem.2 fun t ht => ?_
      obtain ⟨s, hs, -⟩ := h.right t ht
      rw [hnil] at hs
      cases hs
    rw [hnil, hnil']
    exact agree_plain v .never
  · obtain ⟨s, hs⟩ := List.exists_mem_of_ne_nil items hnil
    obtain ⟨t, ht, -⟩ := h.left s hs
    rw [alternatives_ofMembers_of_mem hs (alternatives_of_isUnion (hitems s hs)),
      alternatives_ofMembers_of_mem ht (alternatives_of_isUnion (hothers t ht))]
    exact h

/-- `any` goes before `unknown`, and both before all other members. -/
lemma unionOf_of_any_mem (h : plain .any ∈ flatMembers items) : unionOf items = plain .any := by
  obtain ⟨s, hs⟩ := Option.isSome_iff_exists.1 (List.find?_isSome.2 ⟨_, h, isPlain_iff.2 rfl⟩)
  obtain rfl := isPlain_iff.1 (List.find?_some hs)
  rw [unionOf, ← flatMembers, hs]
  rfl

lemma unionOf_of_unknown_mem (hany : plain .any ∉ flatMembers items)
    (h : plain .unknown ∈ flatMembers items) : unionOf items = plain .unknown := by
  rcases unionOf_cases items with ⟨s, hs, hplain | hplain, heq⟩ | ⟨hplain, -⟩
  · exact absurd (isPlain_iff.1 hplain ▸ hs) hany
  · rw [heq, isPlain_iff.1 hplain]
  · cases (hplain _ h).2

lemma unionOf_of_not_mem (hany : plain .any ∉ flatMembers items)
    (hunknown : plain .unknown ∉ flatMembers items) :
    unionOf items = ofMembers (keptMembers items) := by
  rcases unionOf_cases items with ⟨s, hs, hplain | hplain, -⟩ | ⟨-, heq⟩
  · exact absurd (isPlain_iff.1 hplain ▸ hs) hany
  · exact absurd (isPlain_iff.1 hplain ▸ hs) hunknown
  · exact heq

/-- The alternatives of a union are decided by the members of its arguments, and these do not depend on
the order. -/
lemma agree_alternatives (h : Agree v (flatMembers items) (flatMembers others))
    (hitems : ∀ s ∈ items, ∀ t ∈ s.alternatives, t.isUnion = false)
    (hothers : ∀ s ∈ others, ∀ t ∈ s.alternatives, t.isUnion = false) :
    Agree v (unionOf items).alternatives (unionOf others).alternatives := by
  by_cases hany : plain .any ∈ flatMembers items
  · rw [unionOf_of_any_mem hany, unionOf_of_any_mem (h.plain_mem_iff.1 hany)]
    exact agree_plain v _
  · have hany' := mt h.plain_mem_iff.2 hany
    by_cases hunknown : plain .unknown ∈ flatMembers items
    · rw [unionOf_of_unknown_mem hany hunknown,
        unionOf_of_unknown_mem hany' (h.plain_mem_iff.1 hunknown)]
      exact agree_plain v _
    · rw [unionOf_of_not_mem hany hunknown,
        unionOf_of_not_mem hany' (mt h.plain_mem_iff.2 hunknown)]
      exact (agree_keptMembers h).ofMembers (fun s => isUnion_of_mem_keptMembers hitems) fun s =>
        isUnion_of_mem_keptMembers hothers

lemma InUnionForm.unlike (h : InUnionForm s) : Unlike s.alternatives := by
  cases h with
  | never => exact List.pairwise_singleton _ _
  | single hunion _ =>
    rw [alternatives_of_isUnion hunion]
    exact List.pairwise_singleton _ _
  | union hmembers => exact hmembers.unlike

/-- Lists with like members, and none of them twice, differ only in their order. -/
lemma Agree.permutes (h : Agree v items others) (hitems : Unlike items) (hothers : Unlike others) :
    Permutes items others := by
  have hapart : ∀ {items : List Schema}, Unlike items → items.Pairwise fun s t => ¬Twins v s t := by
    refine fun hunlike => hunlike.imp fun hst htwins => ?_
    rw [htwins.same] at hst
    cases hst
  obtain ⟨members, hforall, hperm⟩ := exists_forall₂_perm (r := Twins v) (fun _ _ => Twins.symm)
    (fun _ _ _ => Twins.trans) (hapart hitems) (hapart hothers) h.left h.right
  exact ⟨members, hforall.imp fun _ _ => Twins.same, hperm⟩

/-- The union of schemas is in normal form, and uniting it once more changes nothing.  In another order
of the arguments it has the same alternatives in some order, up to likeness. -/
theorem unionOf_normalForm (h : ∀ s ∈ items, s.Within v)
    (hflat : ∀ members, union members ∈ items → ∀ t ∈ members, t.isUnion = false) :
    InUnionForm (unionOf items) ∧ unionOf [unionOf items] = unionOf items ∧
      ∀ others, items.Perm others →
        Permutes (unionOf items).alternatives (unionOf others).alternatives := by
  have hitems := isUnion_of_mem_alternatives hflat
  have hform := inUnionForm_unionOf hitems
  refine ⟨hform, unionOf_of_inUnionForm hform, fun others hperm => ?_⟩
  have hothers : ∀ s ∈ others, ∀ t ∈ s.alternatives, t.isUnion = false := fun s hs =>
    hitems s (hperm.mem_iff.2 hs)
  have hagree := agree_alternatives (agree_flatMembers h hperm) hitems hothers
  exact hagree.permutes hform.unlike (inUnionForm_unionOf hothers).unlike

/-- A union, both truth values apart from each other, a text twice, a type next to its literal, and two
inputs of one type. -/
def mixedMembers : List Schema :=
  [union [string "a", boolean true], primitive .string (some ⟨1⟩), boolean false, string "a",
    plain .bigint, literal (.bigint "1"), primitive .string (some ⟨2⟩)]

/-- The place of the type of both truth values is that of the first one, from either end. -/
example : unionOf mixedMembers = union [string "a", plain .boolean, primitive .string (some ⟨1⟩),
      plain .bigint, primitive .string (some ⟨2⟩)] ∧
    unionOf mixedMembers.reverse = union [primitive .string (some ⟨2⟩), plain .bigint, string "a",
      plain .boolean, primitive .string (some ⟨1⟩)] := by
  exact ⟨rfl, rfl⟩

theorem unionOf_normalForm_mixedMembers :
    InUnionForm (unionOf mixedMembers) ∧
      unionOf [unionOf mixedMembers] = unionOf mixedMembers ∧
      Permutes (unionOf mixedMembers).alternatives (unionOf mixedMembers.reverse).alternatives := by
  have hwithin : ∀ s ∈ mixedMembers, s.Within (.ofReferences fun _ _ => True) := by
    simp [mixedMembers, Vocabulary.ofReferences, string, boolean, plain]
  have hflat : ∀ members, union members ∈ mixedMembers → ∀ t ∈ members, t.isUnion = false := by
    simp [mixedMembers, string, boolean, plain, isUnion]
  obtain ⟨hform, hself, hperm⟩ := unionOf_normalForm hwithin hflat
  exact ⟨hform, hself, hperm _ (List.reverse_perm _).symm⟩

end Schema

end ValueSchema
