/-
# Folding brings schemas into normal form

After `refold` every union and every intersection at the top of a schema is in normal form.  A
schema in normal form is stable: united or intersected with itself, however often, it stays as it
is.
-/
import ValueSchema.Proofs.Schema.Equality

namespace ValueSchema

/-- All references, but no placeholders. -/
def Vocabulary.filled : Vocabulary := ⟨fun _ _ => True, fun _ => False, fun _ => True⟩

namespace Schema

/-- A schema without placeholders is within the vocabulary that has none. -/
lemma Within.filled {v : Vocabulary} {s : Schema} (h : s.Within v) (hfilled : s.placeholders = []) :
    s.Within .filled := by
  have hnone : ∀ t ∈ s.subterms, t.placeholder? = none := by
    intro t ht
    by_contra hsome
    obtain ⟨n, hn⟩ := Option.ne_none_iff_exists'.1 hsome
    have hmem : n ∈ s.placeholders := List.mem_filterMap.2 ⟨t, ht, hn⟩
    rw [hfilled] at hmem
    cases hmem
  intro t ht
  have hplaceholder := hnone t ht
  have hspeaks := h t ht
  cases t with
  | primitive kind o | keys subject o | access target key o =>
    have ho : o = none := hplaceholder
    rw [ho]
    exact fun n hn => by cases hn
  | object properties indexKeys => exact hspeaks
  | error reason o => exact fun _ _ => trivial
  | _ => trivial

/-- Every part of a template has an alternative. -/
def PartsInhabited (s : Schema) : Prop := ∀ p ∈ s.parts, p.alternatives ≠ []

/-- The unions and intersections that a schema is composed of are in normal form, and the parts of
its templates are not empty unions. -/
def Normal : Schema → Prop :=
  Composed PartsInhabited (fun items => 2 ≤ items.length ∧ UnionNormal items)
    fun items => 2 ≤ items.length ∧ IntersectionNormal items

variable {v : Vocabulary} {s n : Schema} {items : List Schema}

lemma partsInhabited_of_parts (h : s.parts = [s]) (hs : s.alternatives ≠ []) :
    s.PartsInhabited := by
  intro p hp
  rw [h] at hp
  obtain rfl := List.mem_singleton.1 hp
  exact hs

/-- A schema that is no union, no intersection and no template is in normal form. -/
lemma normal_simple (h : s.isComposite = false) (hparts : s.parts = [s]) : s.Normal :=
  .simple h (partsInhabited_of_parts hparts (by simp [alternatives_of_simple h]))

lemma Normal.partsInhabited (h : s.Normal) : s.PartsInhabited := by
  cases h with
  | simple _ hparts => exact hparts
  | union hunion _ => exact partsInhabited_of_parts rfl (ne_nil_of_two_le_length hunion.1)
  | intersection _ _ => exact partsInhabited_of_parts rfl (List.cons_ne_nil _ _)

lemma normal_unionOf (h : ∀ s ∈ items, s.Normal) : (unionOf items).Normal :=
  .unionOf (partsInhabited_of_parts rfl (by simp [never, plain, alternatives]))
    (partsInhabited_of_parts rfl (by simp [plain, alternatives]))
    (fun _ hlength hnormal => ⟨hlength, hnormal⟩) h

lemma normal_intersectionOf (h : ∀ s ∈ items, s.Normal) : (intersectionOf items).Normal :=
  .intersectionOf (partsInhabited_of_parts rfl (by simp [never, plain, alternatives]))
    (partsInhabited_of_parts rfl (by simp [unknown, plain, alternatives]))
    (fun _ _ => partsInhabited_of_parts rfl (by simp [alternatives]))
    (fun _ hlength hnormal => ⟨hlength, hnormal⟩) h

lemma alternatives_ne_nil_of_isLiteral (h : s.isLiteral = true) : s.alternatives ≠ [] := by
  cases s with
  | literal value => exact List.cons_ne_nil _ _
  | _ => cases h

lemma normal_templateOf (h : ∀ s ∈ items, s.Normal) (cap : Nat) : (templateOf items cap).Normal := by
  have hparts : ∀ p ∈ items.flatMap parts, p.alternatives ≠ [] := by
    intro p hp
    obtain ⟨s, hs, hps⟩ := List.mem_flatMap.1 hp
    exact (h s hs).partsInhabited p hps
  refine Composed.templateOf (partsInhabited_of_parts rfl (by simp [never, plain, alternatives]))
    (partsInhabited_of_parts rfl (by simp [plain, alternatives]))
    (fun _ => partsInhabited_of_parts rfl (by simp [string, alternatives]))
    (fun texts htexts p hp => ?_) (fun _ hlength hnormal => ⟨hlength, hnormal⟩) cap
  rcases htexts p hp with hin | hliteral
  · exact hparts p hin
  · exact alternatives_ne_nil_of_isLiteral hliteral

lemma normal_foldPair {op : BinaryOperator} {left right : Schema} (hl : left.Normal)
    (hr : right.Normal) : (foldPair op left right).Normal := by
  rw [foldPair]
  split
  · exact normal_simple rfl rfl
  · split
    · split <;> assumption
    · split <;> assumption
    · split <;> assumption
    · split <;> exact normal_simple rfl rfl

lemma normal_foldBinary {op : BinaryOperator} {left right : Schema} (hl : left.Normal)
    (hr : right.Normal) (cap : Nat) : (foldBinary op left right cap).Normal := by
  rw [foldBinary]
  split
  · exact hr
  · split
    · exact normal_simple rfl rfl
    · rename_i pairs hpairs
      refine normal_unionOf fun t ht => ?_
      obtain ⟨pair, hpair, rfl⟩ := List.mem_map.1 ht
      obtain ⟨a, ha, b, hb, rfl⟩ := exists_of_mem_cartesian hpairs hpair
      exact normal_foldPair (hl.of_mem_alternatives ha) (hr.of_mem_alternatives hb)

lemma refold_eq (cap : Nat) (s : Schema) :
    s.refold cap = refoldStep cap (s.mapChildren (refold cap)) :=
  transform_eq _ _ s

/-- A symbolic operation is computed from what its operands become. -/
lemma refold_substitute_binary (value? : NodeId → Option Schema) (cap : Nat) (op : BinaryOperator)
    (left right : Schema) : ((binary op left right).substitute value?).refold cap =
      foldBinary op ((left.substitute value?).refold cap) ((right.substitute value?).refold cap)
        cap := by
  have hsubstitute : (binary op left right).substitute value? =
      binary op (left.substitute value?) (right.substitute value?) := transform_eq _ _ _
  rw [hsubstitute, refold_eq]
  rfl

theorem normal_refold (s : Schema) (cap : Nat) : (s.refold cap).Normal := by
  induction s using induction with
  | step s ih =>
    have hall : ∀ t ∈ s.children.map (refold cap), t.Normal := by
      intro t ht
      obtain ⟨u, hu, rfl⟩ := List.mem_map.1 ht
      exact ih u hu
    rw [refold_eq]
    cases s with
    | union items => exact normal_unionOf hall
    | intersection items => exact normal_intersectionOf hall
    | template items => exact normal_templateOf hall cap
    | binary op left right =>
      exact normal_foldBinary (ih left (by simp [children])) (ih right (by simp [children])) cap
    | _ => exact normal_simple rfl rfl

/-! ## Stability -/

/-- Several copies of a schema have the members of one. -/
lemma dedupe_flatMap_of_forall_eq {members : Schema → List Schema} (hitems : items ≠ [])
    (h : ∀ t ∈ items, t = n) (hunlike : Unlike (members n))
    (hself : ∀ s ∈ members n, sameMember s s = true) :
    dedupe (items.flatMap members) = members n := by
  obtain ⟨first, rest, rfl⟩ := List.exists_cons_of_ne_nil hitems
  obtain rfl := h first (List.mem_cons_self ..)
  rw [List.flatMap_cons]
  refine dedupe_append hunlike fun s hs => ?_
  obtain ⟨t, ht, hst⟩ := List.mem_flatMap.1 hs
  rw [h t (List.mem_cons_of_mem _ ht)] at hst
  exact ⟨hst, hself s hst⟩

lemma exists_cons_cons {α : Type} {items : List α} (h : 2 ≤ items.length) :
    ∃ first second rest, items = first :: second :: rest := by
  match items with
  | [] => simp at h
  | [_] => simp at h
  | first :: second :: rest => exact ⟨first, second, rest, rfl⟩

lemma ofMembers_of_two_le_length (h : 2 ≤ items.length) : ofMembers items = union items := by
  obtain ⟨first, second, rest, rfl⟩ := exists_cons_cons h
  rfl

lemma truthApart_singleton (s : Schema) : TruthApart [s] := by
  cases s with
  | literal value => cases value <;> simp [TruthApart, equal, boolean, Literal.same]
  | _ => simp [TruthApart, equal, boolean]

lemma dropCovered_singleton (s : Schema) : dropCovered [s] = [s] := by
  cases s with
  | literal value => cases value <;> rfl
  | _ => simp [dropCovered, literal?]

lemma eq_of_isPrimitive (h : n.Within .filled) {kind : Primitive} (hn : n.isPrimitive kind = true) :
    n = plain kind := by
  cases n with
  | primitive k o =>
    cases o with
    | none =>
      obtain rfl : k = kind := by simpa [isPrimitive] using hn
      rfl
    | some m => exact (within_primitive.1 h m rfl).elim
  | _ => simp [isPrimitive] at hn

/-- Members in normal form make up the union as they are. -/
lemma unionOf_of_flatMembers_eq {members : List Schema} (hnormal : UnionNormal members)
    (h : flatMembers items = members) : unionOf items = ofMembers members := by
  rcases unionOf_cases items with ⟨s, hs, hplain, -⟩ | ⟨-, heq⟩
  · rw [h] at hs
    rw [hnormal.any s hs, hnormal.unknown s hs] at hplain
    simp at hplain
  · rw [heq, h, joinTruthValues_of_truthApart hnormal.truth, hnormal.covered]

lemma dedupe_of_unlike (h : Unlike items) : dedupe items = items :=
  foldl_pushUnique_of_unlike [] h

/-- Members in normal form that are no unions themselves stay as they are. -/
lemma unionOf_of_unionNormal (hnormal : UnionNormal items)
    (h : ∀ t ∈ items, t.alternatives = [t]) : unionOf items = ofMembers items := by
  refine unionOf_of_flatMembers_eq hnormal ?_
  rw [flatMembers, flatMap_eq_self h, dedupe_of_unlike hnormal.unlike]
  exact List.filter_eq_self.2 fun s hs => by rw [hnormal.never s hs]; rfl

/-- A union whose arguments have one member together is that member. -/
lemma unionOf_of_flatMembers_eq_singleton (h : flatMembers items = [n]) : unionOf items = n := by
  rcases unionOf_cases items with ⟨s, hs, -, heq⟩ | ⟨-, heq⟩
  · rw [h] at hs
    rw [heq, List.mem_singleton.1 hs]
  · rw [heq, h, joinTruthValues_of_truthApart (truthApart_singleton n), dropCovered_singleton]
    rfl

/-- A schema in normal form united with itself stays as it is. -/
theorem unionOf_of_forall_eq (hn : n.Normal) (hfilled : n.Within .filled) (hitems : items ≠ [])
    (h : ∀ t ∈ items, t = n) : unionOf items = n := by
  have hself : ∀ s ∈ n.alternatives, sameMember s s = true := fun s hs =>
    sameMember_self (mem_alternatives_within hfilled hs)
  have hsingle : n.alternatives = [n] → unionOf items = n := by
    intro hone
    have hflat : flatMembers items = [n].filter fun s => !s.isPrimitive .never := by
      rw [flatMembers, dedupe_flatMap_of_forall_eq hitems h (hone ▸ List.pairwise_singleton _ _) hself,
        hone]
    by_cases hnever : n.isPrimitive .never = true
    · -- `never` is left out, and comes back as the union of nothing
      have hnil : flatMembers items = [] := by rw [hflat]; simp [hnever]
      rw [eq_of_isPrimitive hfilled hnever]
      rcases unionOf_cases items with ⟨s, hs, -, -⟩ | ⟨-, heq⟩
      · rw [hnil] at hs
        cases hs
      · rw [heq, hnil]
        rfl
    · exact unionOf_of_flatMembers_eq_singleton (by rw [hflat]; simp [hnever])
  cases hn with
  | simple hsimple _ => exact hsingle (alternatives_of_simple hsimple)
  | intersection _ _ => exact hsingle rfl
  | @union members hmembers _ =>
    obtain ⟨hlength, hnormal⟩ := hmembers
    have hflat : flatMembers items = members := by
      rw [flatMembers, dedupe_flatMap_of_forall_eq hitems h hnormal.unlike hself]
      exact List.filter_eq_self.2 fun s hs => by rw [hnormal.never s hs]; rfl
    rw [unionOf_of_flatMembers_eq hnormal hflat, ofMembers_of_two_le_length hlength]

lemma eq_of_isPlain {kind : Primitive} (h : n.isPlain kind = true) : n = plain kind := by
  cases n with
  | primitive k o =>
    cases o with
    | none =>
      obtain rfl : k = kind := by simpa [isPlain] using h
      rfl
    | some m => simp [isPlain] at h
  | _ => simp [isPlain] at h

/-- An intersection whose arguments have one part together is that part. -/
lemma intersectionOf_of_flat_eq_singleton (hfilled : n.Within .filled)
    (h : dedupe (items.flatMap conjuncts) = [n]) : intersectionOf items = n := by
  rw [intersectionOf, intersectionWith, h]
  by_cases hnever : n.isPrimitive .never = true
  · rw [if_pos (by simp [hnever]), eq_of_isPrimitive hfilled hnever]
    rfl
  · rw [if_neg (by simp [hnever])]
    by_cases hany : n.isPlain .any = true
    · simp [hany]
    · by_cases hunknown : n.isPlain .unknown = true
      · -- `unknown` is left out, and comes back as the intersection of nothing
        rw [eq_of_isPlain hunknown]
        rfl
      · simp [hany, hunknown]

/-- Members in normal form make up the intersection as they are. -/
lemma intersectionWith_of_flat_eq (merge : Schema → Schema → Schema) {members : List Schema}
    (hlength : 2 ≤ members.length) (hnormal : IntersectionNormal members)
    (h : dedupe (items.flatMap conjuncts) = members) :
    intersectionWith merge items = intersection members := by
  have hknown : (members.filter fun s => !s.isPlain .unknown) = members :=
    List.filter_eq_self.2 fun s hs => by rw [hnormal.unknown s hs]; rfl
  have hnever : members.any (isPrimitive .never) = false :=
    List.any_eq_false.2 fun s hs => by rw [hnormal.never s hs]; simp
  have hany : members.find? (isPlain .any) = none :=
    List.find?_eq_none.2 fun s hs => by rw [hnormal.any s hs]; simp
  rw [intersectionWith, h, hnever, if_neg (by simp), hany]
  dsimp only
  rw [hknown]
  obtain ⟨first, second, rest, rfl⟩ := exists_cons_cons hlength
  exact if_neg (by rw [hnormal.objects]; simp)

/-- Members in normal form that are no intersections themselves stay as they are. -/
lemma intersectionOf_of_intersectionNormal (hlength : 2 ≤ items.length)
    (hnormal : IntersectionNormal items) (h : ∀ t ∈ items, t.conjuncts = [t]) :
    intersectionOf items = intersection items := by
  refine intersectionWith_of_flat_eq _ hlength hnormal ?_
  rw [flatMap_eq_self h, dedupe_of_unlike hnormal.unlike]

/-- A schema in normal form intersected with itself stays as it is. -/
theorem intersectionOf_of_forall_eq (hn : n.Normal) (hfilled : n.Within .filled)
    (hitems : items ≠ []) (h : ∀ t ∈ items, t = n) : intersectionOf items = n := by
  have hself : ∀ s ∈ n.conjuncts, sameMember s s = true := fun s hs =>
    sameMember_self (mem_conjuncts_within hfilled hs)
  have hsingle : n.conjuncts = [n] → intersectionOf items = n := by
    intro hone
    refine intersectionOf_of_flat_eq_singleton hfilled ?_
    rw [dedupe_flatMap_of_forall_eq hitems h (hone ▸ List.pairwise_singleton _ _) hself, hone]
  cases hn with
  | simple hsimple _ => exact hsingle (conjuncts_of_simple hsimple)
  | union _ _ => exact hsingle rfl
  | @intersection members hmembers _ =>
    obtain ⟨hlength, hnormal⟩ := hmembers
    have hflat : dedupe (items.flatMap conjuncts) = members :=
      dedupe_flatMap_of_forall_eq hitems h hnormal.unlike hself
    exact intersectionWith_of_flat_eq _ hlength hnormal hflat

end Schema

end ValueSchema
