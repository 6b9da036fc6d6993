/-
# Values in the place of what is unresolved

A declared type stands for a parameter: everything unresolved inside it carries the parameter as its
origin, and once the value of the parameter is known, the value is put in the place of each of these
*slots*.  If the type is a slot itself, this gives the value.  If the slots are parts of something
larger, of an object or of a list, the value comes to stand inside of that.

A schema is *transparent* if it is composed of slots alone.  The main result,
`forall_equal_refold_fill_iff`, says that filling in a value and folding gives the value back, for
every value, exactly if the schema is transparent.  A schema that is not transparent is told from
the value that is filled in by a probe: a symbolic operation, which no type has as its schema.
-/
import ValueSchema.Proofs.Schema.Choices
import ValueSchema.Proofs.Schema.Normal

namespace ValueSchema.Schema

/-! ## Slots -/

/-- Whether a schema can carry an origin. -/
def isSlot : Schema → Bool
  | primitive .. | error .. | keys .. | access .. => true
  | _ => false

/-- A schema with a value in the place of each slot. -/
def fill (s value : Schema) : Schema :=
  s.transform (fun t => if t.isSlot then some value else none) id

variable {a s t : Schema} {cap : Nat}

lemma fill_of_isSlot (h : s.isSlot = true) : s.fill a = a := by
  rw [fill, transform_eq, if_pos h, Option.getD_some]

lemma fill_of_not_isSlot (h : s.isSlot = false) : s.fill a = s.mapChildren fun t => t.fill a := by
  rw [fill, transform_eq, if_neg (by simp [h]), Option.getD_none, id]
  rfl

lemma origin?_mapOrigin (f : Option NodeId → Option NodeId) (s : Schema) :
    (s.mapOrigin f).origin? = if s.isSlot then f s.origin? else none := by
  cases s <;> rfl

lemma mapOrigin_of_not_isSlot {f : Option NodeId → Option NodeId} (h : s.isSlot = false) :
    s.mapOrigin f = s := by
  cases s with
  | primitive | error | keys | access => cases h
  | _ => rfl

@[simp] lemma isSlot_mapChildren (f : Schema → Schema) (s : Schema) :
    (s.mapChildren f).isSlot = s.isSlot := by
  cases s <;> rfl

/-- Substituting for the origin of everything unresolved fills the slots. -/
theorem substitute_overrideOrigin {value? : NodeId → Option Schema} {o : NodeId}
    (h : value? o = some a) (s : Schema) : (s.overrideOrigin o).substitute value? = s.fill a := by
  induction s using induction with
  | step s ih =>
    have hstamped : s.overrideOrigin o =
        (s.mapChildren (overrideOrigin o)).mapOrigin fun _ => some o := transform_eq _ _ s
    rw [hstamped, substitute, transform_eq, origin?_mapOrigin, isSlot_mapChildren]
    by_cases hslot : s.isSlot = true
    · rw [if_pos hslot, Option.bind_some, h, Option.getD_some, fill_of_isSlot hslot]
    · have hplain : s.isSlot = false := by simpa using hslot
      rw [if_neg hslot, Option.bind_none, Option.getD_none, id,
        mapOrigin_of_not_isSlot (by rwa [isSlot_mapChildren]), mapChildren_mapChildren,
        fill_of_not_isSlot hplain]
      exact mapChildren_congr ih

/-! ## Transparent schemas -/

/-- A schema is transparent if it is composed of slots alone. -/
def Transparent : Schema → Prop :=
  Composed (fun s => s.isSlot = true) (fun items => items ≠ []) fun items => items ≠ []

lemma refold_fill_union (a : Schema) (cap : Nat) (items : List Schema) :
    ((union items).fill a).refold cap = unionOf (items.map fun t => (t.fill a).refold cap) := by
  rw [fill_of_not_isSlot rfl, refold_eq]
  simp only [mapChildren, refoldStep, List.map_map]
  rfl

lemma refold_fill_intersection (a : Schema) (cap : Nat) (items : List Schema) :
    ((intersection items).fill a).refold cap =
      intersectionOf (items.map fun t => (t.fill a).refold cap) := by
  rw [fill_of_not_isSlot rfl, refold_eq]
  simp only [mapChildren, refoldStep, List.map_map]
  rfl

/-- A value that is filled into a transparent schema comes out again. -/
theorem refold_fill_of_transparent (hs : s.Transparent) (ha : a.Within .filled) (cap : Nat) :
    (s.fill a).refold cap = a.refold cap := by
  have hnormal := normal_refold a cap
  have hfilled := ha.refold cap
  induction hs with
  | simple _ hslot => rw [fill_of_isSlot hslot]
  | @union items hitems _ ih =>
    rw [refold_fill_union]
    refine unionOf_of_forall_eq hnormal hfilled (by simpa using hitems) fun t ht => ?_
    obtain ⟨u, hu, rfl⟩ := List.mem_map.1 ht
    exact ih u hu
  | @intersection items hitems _ ih =>
    rw [refold_fill_intersection]
    refine intersectionOf_of_forall_eq hnormal hfilled (by simpa using hitems) fun t ht => ?_
    obtain ⟨u, hu, rfl⟩ := List.mem_map.1 ht
    exact ih u hu

/-! ## The probe -/

/-- The sum of two empty objects, which stays symbolic. -/
def probe : Schema := binary .add (objectOf []) (objectOf [])

lemma within_probe : probe.Within .filled := by
  simp [probe, objectOf, Entries.names]

lemma normal_probe : probe.Normal := normal_simple rfl rfl

lemma refold_probe (cap : Nat) : probe.refold cap = probe := by
  have hstep : probe.refold cap = foldBinary .add (objectOf []) (objectOf []) cap := rfl
  rw [hstep, foldBinary, if_neg (by decide)]
  split
  · rfl
  · rename_i pairs hpairs
    refine unionOf_of_forall_eq normal_probe within_probe ?_ fun t ht => ?_
    · rw [cartesian?] at hpairs
      split at hpairs
      · obtain rfl := Option.some.inj hpairs
        exact List.cons_ne_nil _ _
      · cases hpairs
    · obtain ⟨pair, hpair, rfl⟩ := List.mem_map.1 ht
      obtain ⟨a, ha, b, hb, rfl⟩ := exists_of_mem_cartesian hpairs hpair
      obtain rfl := List.mem_singleton.1 ha
      obtain rfl := List.mem_singleton.1 hb
      rfl

/-- Whether a simple schema keeps its place next to the probe: it is not an operation, and it does
not vanish in unions or intersections, nor make others vanish. -/
def isFirm : Schema → Bool
  | binary .. => false
  | primitive .any _ | primitive .unknown _ | primitive .never _ => false
  | _ => true

/-- A schema is composed of the probe and of firm schemas, and if it is not the probe itself, it has
something else in it. -/
def Probed : Schema → Prop :=
  Composed (fun s => s = probe ∨ s.isFirm = true) (fun items => ∃ t ∈ items, t ≠ probe)
    fun items => ∃ t ∈ items, t ≠ probe

lemma probed_of_isFirm (hsimple : s.isComposite = false) (h : s.isFirm = true) : s.Probed :=
  .simple hsimple (Or.inr h)

lemma ne_probe_of_isFirm (h : s.isFirm = true) : s ≠ probe := by
  rintro rfl
  cases h

namespace Probed

lemma isPrimitive (h : s.Probed) {kind : Primitive}
    (hkind : kind = .any ∨ kind = .unknown ∨ kind = .never) : s.isPrimitive kind = false := by
  cases h with
  | union | intersection => rfl
  | simple _ h =>
    rcases h with rfl | hfirm
    · rfl
    · cases s with
      | primitive k o =>
        rcases hkind with rfl | rfl | rfl <;> cases k <;> first | rfl | cases hfirm
      | _ => rfl

lemma isPlain (h : s.Probed) {kind : Primitive} (hkind : kind = .any ∨ kind = .unknown) :
    s.isPlain kind = false := by
  have hprimitive := (h.isPrimitive (by tauto) : s.isPrimitive kind = false)
  cases s with
  | primitive k o => cases o <;> simp_all [Schema.isPlain, Schema.isPrimitive]
  | _ => rfl

/-- Nothing else is equal to the probe. -/
lemma equal_probe (h : s.Probed) (hne : s ≠ probe) :
    equal s probe = false ∧ equal probe s = false := by
  cases h with
  | union | intersection => exact ⟨by simp [equal, probe], by simp [equal, probe]⟩
  | simple _ h =>
    rcases h with rfl | hfirm
    · exact absurd rfl hne
    · cases s with
      | binary => cases hfirm
      | _ => exact ⟨by simp [equal, probe], by simp [equal, probe]⟩

lemma exists_mem_alternatives (h : s.Probed) (hne : s ≠ probe) :
    ∃ t ∈ s.alternatives, t ≠ probe := by
  cases h with
  | union hunion _ => exact hunion
  | intersection _ _ => exact ⟨_, List.mem_singleton_self _, hne⟩
  | simple hsimple _ => exact ⟨s, by rw [alternatives_of_simple hsimple]; simp, hne⟩

lemma exists_mem_conjuncts (h : s.Probed) (hne : s ≠ probe) : ∃ t ∈ s.conjuncts, t ≠ probe := by
  cases h with
  | intersection hinter _ => exact hinter
  | union _ _ => exact ⟨_, List.mem_singleton_self _, hne⟩
  | simple hsimple _ => exact ⟨s, by rw [conjuncts_of_simple hsimple]; simp, hne⟩

end Probed

/-- A list with something else than the probe keeps something else when repeated members go. -/
lemma exists_ne_probe_dedupe {items : List Schema} (h : ∀ s ∈ items, s.Probed)
    (hother : ∃ s ∈ items, s ≠ probe) : ∃ s ∈ dedupe items, s ≠ probe := by
  obtain ⟨s, hs, hne⟩ := hother
  obtain ⟨u, hu, hlike⟩ := exists_mem_dedupe hs
  refine ⟨u, hu, ?_⟩
  rintro rfl
  rcases hlike with heq | hsame
  · exact hne heq.symm
  · rw [sameMember, ((h s hs).equal_probe hne).2, Bool.false_and] at hsame
    cases hsame

lemma exists_ne_probe_joinTruthValues {items : List Schema} (hother : ∃ s ∈ items, s ≠ probe) :
    ∃ s ∈ joinTruthValues items, s ≠ probe := by
  rw [joinTruthValues]
  split
  · dsimp only
    split
    · rename_i hboolean
      obtain ⟨s, hs, hequal⟩ := List.any_eq_true.1 hboolean
      refine ⟨s, hs, ?_⟩
      rintro rfl
      simp [probe, plain, equal] at hequal
    · exact ⟨plain .boolean, by simp, ne_probe_of_isFirm rfl⟩
  · exact hother

/-- A literal goes only if there is a primitive type in its place. -/
lemma exists_ne_probe_dropCovered {items : List Schema} (hother : ∃ s ∈ items, s ≠ probe) :
    ∃ s ∈ dropCovered items, s ≠ probe := by
  obtain ⟨s, hs, hne⟩ := hother
  by_cases hkeep : s ∈ dropCovered items
  · exact ⟨s, hkeep, hne⟩
  · have hcovered : (s.literal?.bind Literal.primitive?).any
        (items.filterMap plain?).contains = true := by
      by_contra hfree
      exact hkeep (List.mem_filter.2 ⟨hs, by simpa using hfree⟩)
    obtain ⟨kind, -, hkind⟩ := Option.any_eq_true _ _ |>.1 hcovered
    obtain ⟨t, ht, htkind⟩ := List.mem_filterMap.1 (List.contains_iff_mem.1 hkind)
    cases t with
    | primitive k o => exact ⟨_, List.mem_filter.2 ⟨ht, rfl⟩, fun h => by cases h⟩
    | _ => cases htkind

lemma exists_ne_probe_flatMap {items : List Schema} {parts : Schema → List Schema}
    (hparts : ∀ s ∈ items, s ≠ probe → ∃ t ∈ parts s, t ≠ probe)
    (hother : ¬ ∀ s ∈ items, s = probe) : ∃ t ∈ items.flatMap parts, t ≠ probe := by
  obtain ⟨s, hs, hne⟩ : ∃ s ∈ items, s ≠ probe := by simpa using hother
  obtain ⟨t, ht, htne⟩ := hparts s hs hne
  exact ⟨t, List.mem_flatMap.2 ⟨s, hs, ht⟩, htne⟩

/-- The union of schemas with the probe in them is the probe if all of them are, and else has
something else in it. -/
lemma probed_unionOf {items : List Schema} (hitems : items ≠ []) (h : ∀ s ∈ items, s.Probed) :
    (unionOf items).Probed ∧ (unionOf items = probe ↔ ∀ s ∈ items, s = probe) := by
  by_cases hall : ∀ s ∈ items, s = probe
  · rw [unionOf_of_forall_eq normal_probe within_probe hitems hall]
    exact ⟨.simple rfl (Or.inl rfl), by simpa using hall⟩
  have hmembers : ∀ s ∈ items.flatMap alternatives, s.Probed := by
    intro t ht
    obtain ⟨s, hs, hts⟩ := List.mem_flatMap.1 ht
    exact (h s hs).of_mem_alternatives hts
  have hother := exists_ne_probe_flatMap (fun s hs => (h s hs).exists_mem_alternatives) hall
  have hflat : flatMembers items = dedupe (items.flatMap alternatives) := by
    refine List.filter_eq_self.2 fun s hs => ?_
    rw [(hmembers s (mem_of_mem_dedupe hs)).isPrimitive (by tauto)]
    rfl
  rcases unionOf_cases items with ⟨s, hs, hplain, -⟩ | ⟨-, heq⟩
  · rw [hflat] at hs
    have hprobed := hmembers s (mem_of_mem_dedupe hs)
    rw [hprobed.isPlain (by tauto), hprobed.isPlain (by tauto)] at hplain
    simp at hplain
  · -- no step of the union takes away the last member that is not the probe
    obtain ⟨x, hx, hne⟩ := exists_ne_probe_dropCovered
      (exists_ne_probe_joinTruthValues (exists_ne_probe_dedupe hmembers hother))
    have hfinal : ∀ s ∈ dropCovered (joinTruthValues (dedupe (items.flatMap alternatives))),
        s.Probed := by
      intro s hs
      rcases mem_of_mem_joinTruthValues ((dropCovered_sublist _).subset hs) with hin | rfl
      · exact hmembers s (mem_of_mem_dedupe hin)
      · exact probed_of_isFirm rfl rfl
    rw [heq, hflat]
    generalize dropCovered (joinTruthValues (dedupe (items.flatMap alternatives))) = final
      at hx hfinal
    match final with
    | [] => cases hx
    | [s] =>
      obtain rfl := List.mem_singleton.1 hx
      exact ⟨hfinal x hx, iff_of_false hne hall⟩
    | s :: t :: rest => exact ⟨.union ⟨x, hx, hne⟩ hfinal, iff_of_false (fun h => by cases h) hall⟩

lemma probed_intersectionOf {items : List Schema} (hitems : items ≠ [])
    (h : ∀ s ∈ items, s.Probed) :
    (intersectionOf items).Probed ∧ (intersectionOf items = probe ↔ ∀ s ∈ items, s = probe) := by
  by_cases hall : ∀ s ∈ items, s = probe
  · rw [intersectionOf_of_forall_eq normal_probe within_probe hitems hall]
    exact ⟨.simple rfl (Or.inl rfl), by simpa using hall⟩
  have hmembers : ∀ s ∈ items.flatMap conjuncts, s.Probed := by
    intro t ht
    obtain ⟨s, hs, hts⟩ := List.mem_flatMap.1 ht
    exact (h s hs).of_mem_conjuncts hts
  have hother := exists_ne_probe_flatMap (fun s hs => (h s hs).exists_mem_conjuncts) hall
  obtain ⟨x, hx, hne⟩ := exists_ne_probe_dedupe hmembers hother
  have hflat : ∀ s ∈ dedupe (items.flatMap conjuncts), s.Probed := fun s hs =>
    hmembers s (mem_of_mem_dedupe hs)
  rw [intersectionOf, intersectionWith]
  generalize dedupe (items.flatMap conjuncts) = flat at hx hflat
  have hnever : flat.any (isPrimitive .never) = false :=
    List.any_eq_false.2 fun s hs => by rw [(hflat s hs).isPrimitive (by tauto)]; simp
  have hany : flat.find? (isPlain .any) = none :=
    List.find?_eq_none.2 fun s hs => by rw [(hflat s hs).isPlain (by tauto)]; simp
  have hknown : (flat.filter fun s => !s.isPlain .unknown) = flat :=
    List.filter_eq_self.2 fun s hs => by rw [(hflat s hs).isPlain (by tauto)]; rfl
  rw [hnever, if_neg (by simp), hany]
  dsimp only
  rw [hknown]
  rcases flat with _ | ⟨s, _ | ⟨t, rest⟩⟩
  · cases hx
  · obtain rfl := List.mem_singleton.1 hx
    exact ⟨hflat x hx, iff_of_false hne hall⟩
  · dsimp only
    split
    · exact ⟨probed_of_isFirm rfl rfl, iff_of_false (fun h => by cases h) hall⟩
    · exact ⟨.intersection ⟨x, hx, hne⟩ hflat, iff_of_false (fun h => by cases h) hall⟩

/-! ## Exactly the transparent schemas give values back -/

/-- A template never is the probe, and does not vanish: its parts all have alternatives. -/
lemma probed_templateOf {items : List Schema} (h : ∀ s ∈ items, s.Normal) (cap : Nat) :
    (templateOf items cap).Probed ∧ templateOf items cap ≠ probe := by
  have hfirm : ∀ s : Schema, s.isComposite = false → s.isFirm = true → s.Probed ∧ s ≠ probe :=
    fun s hsimple hs => ⟨probed_of_isFirm hsimple hs, ne_probe_of_isFirm hs⟩
  rcases templateOf_cases items cap with ⟨combinations, hcombinations, heq⟩ | heq | ⟨texts, -, heq⟩
  · -- the texts that the parts can make up; there is one at least
    have hne : combinations.map (fun c => string (concatenation c)) ≠ [] := by
      rw [cartesian?] at hcombinations
      split at hcombinations
      · obtain rfl := Option.some.inj hcombinations
        rw [Ne, List.map_eq_nil_iff]
        refine choices_ne_nil fun l hl => ?_
        obtain ⟨p, hp, rfl⟩ := List.mem_map.1 hl
        obtain ⟨s, hs, hps⟩ := List.mem_flatMap.1 hp
        exact (h s hs).partsInhabited p hps
      · cases hcombinations
    have htexts : ∀ s ∈ combinations.map (fun c => string (concatenation c)),
        s.Probed ∧ s ≠ probe := by
      intro s hs
      obtain ⟨c, -, rfl⟩ := List.mem_map.1 hs
      exact hfirm _ rfl rfl
    rw [heq]
    obtain ⟨hprobed, hiff⟩ := probed_unionOf hne fun s hs => (htexts s hs).1
    refine ⟨hprobed, fun hprobe => ?_⟩
    obtain ⟨s, hs⟩ := List.exists_mem_of_ne_nil _ hne
    exact (htexts s hs).2 (hiff.1 hprobe s hs)
  · rw [heq]
    exact hfirm _ rfl rfl
  · rw [heq]
    exact hfirm _ rfl rfl

/-- The probe comes out of the schema of a type exactly if the schema is transparent. -/
lemma probed_refold_fill (h : s.Typelike) (cap : Nat) :
    ((s.fill probe).refold cap).Probed ∧
      ((s.fill probe).refold cap = probe ↔ s.Transparent) := by
  induction h with
  | @simple s hsimple hoperation =>
    have htransparent : s.Transparent ↔ s.isSlot = true := by
      constructor
      · intro h
        cases h with
        | simple _ hslot => exact hslot
        | union | intersection => cases hsimple
      · exact fun hslot => .simple hsimple hslot
    have hopaque : ∀ t : Schema, s.isSlot = false → t.Probed ∧ t ≠ probe →
        t.Probed ∧ (t = probe ↔ s.Transparent) := by
      intro t hslot ht
      exact ⟨ht.1, iff_of_false ht.2 (by rw [htransparent, hslot]; simp)⟩
    have hfirm : ∀ t : Schema, s.isSlot = false → t.isComposite = false → t.isFirm = true →
        t.Probed ∧ (t = probe ↔ s.Transparent) := fun t hslot hcomposite ht =>
      hopaque t hslot ⟨probed_of_isFirm hcomposite ht, ne_probe_of_isFirm ht⟩
    cases s with
    | primitive | error | keys | access =>
      rw [fill_of_isSlot rfl, refold_probe, htransparent]
      exact ⟨.simple rfl (Or.inl rfl), iff_of_true rfl rfl⟩
    | binary => cases hoperation
    | union | intersection => cases hsimple
    | template items =>
      rw [fill_of_not_isSlot rfl, refold_eq]
      refine hopaque _ rfl (probed_templateOf (fun t ht => ?_) cap)
      obtain ⟨u, -, rfl⟩ := List.mem_map.1 ht
      exact normal_refold u cap
    | literal | tuple | array | object | function | reference =>
      rw [fill_of_not_isSlot rfl, refold_eq]
      exact hfirm _ rfl rfl rfl
  | @union items hitems _ ih =>
    have hmap : (items.map fun t => (t.fill probe).refold cap) ≠ [] := by simpa using hitems
    obtain ⟨hprobed, hiff⟩ := probed_unionOf hmap (by simpa using fun t ht => (ih t ht).1)
    rw [refold_fill_union]
    refine ⟨hprobed, hiff.trans ⟨fun h => ?_, fun h => ?_⟩⟩
    · exact .union hitems fun t ht => (ih t ht).2.1 (h _ (List.mem_map_of_mem ht))
    · cases h with
      | simple hsimple _ => cases hsimple
      | union _ hall => simpa using fun t ht => (ih t ht).2.2 (hall t ht)
  | @intersection items hitems _ ih =>
    have hmap : (items.map fun t => (t.fill probe).refold cap) ≠ [] := by simpa using hitems
    obtain ⟨hprobed, hiff⟩ := probed_intersectionOf hmap (by simpa using fun t ht => (ih t ht).1)
    rw [refold_fill_intersection]
    refine ⟨hprobed, hiff.trans ⟨fun h => ?_, fun h => ?_⟩⟩
    · exact .intersection hitems fun t ht => (ih t ht).2.1 (h _ (List.mem_map_of_mem ht))
    · cases h with
      | simple hsimple _ => cases hsimple
      | intersection _ hall => simpa using fun t ht => (ih t ht).2.2 (hall t ht)

/-- Filling values into the schema of a type and folding gives every value back exactly if the
schema is transparent. -/
theorem forall_equal_refold_fill_iff (h : s.Typelike) (cap : Nat) :
    (∀ a : Schema, a.Within .filled → equal ((s.fill a).refold cap) (a.refold cap) = true) ↔
      s.Transparent := by
  constructor
  · intro hall
    obtain ⟨hprobed, hiff⟩ := probed_refold_fill h cap
    have hequal := hall probe within_probe
    rw [refold_probe] at hequal
    by_contra hopaque
    rw [(hprobed.equal_probe fun heq => hopaque (hiff.1 heq)).1] at hequal
    cases hequal
  · intro htransparent a ha
    rw [refold_fill_of_transparent htransparent ha]
    exact equal_self (ha.refold cap)

end ValueSchema.Schema
