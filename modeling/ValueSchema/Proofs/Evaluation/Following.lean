/-
# Reads and spreads through definitions

Reading a property and spreading spend no depth on the references that they follow, so nothing but
the definitions themselves can bring them to an end.  Without a circle of definitions, reads and
spreads give an answer.  With a circle, a spread into no shapes at all goes round for ever, and so
does every read if the circle goes through what a read always asks.  What `unfoldings` cuts off is
never an answer: it would go on for ever.
-/
import ValueSchema.Proofs.Evaluation.Traversal

namespace ValueSchema

open Eval

/-! ## Reads and spreads -/

namespace Evaluation

open Traversal

variable {s : Session} {allowed : Prop}

section

variable {f f' : Schema → Eval (Option Schema)} {key : String}

lemma below_readEach {items : List Schema}
    (hitems : ∀ t ∈ items, Below allowed s (readWith f key t) (readWith f' key t)) :
    Below allowed s (readEach f key items) (readEach f' key items) := by
  induction items with
  | nil => exact .pure _
  | cons t rest ih =>
    rw [readEach, readEach]
    refine (hitems t (List.mem_cons_self ..)).bind fun o => ?_
    cases o with
    | none => exact .pure _
    | some value =>
      exact (ih fun u hu => hitems u (List.mem_cons_of_mem _ hu)).bind fun _ => .pure _

lemma below_readLast {items : List Schema} {found : Option Schema}
    (hitems : ∀ t ∈ items, Below allowed s (readWith f key t) (readWith f' key t)) :
    Below allowed s (readLast f key items found) (readLast f' key items found) := by
  induction items generalizing found with
  | nil => exact .pure _
  | cons t rest ih =>
    rw [readLast, readLast]
    exact (hitems t (List.mem_cons_self ..)).bind fun _ =>
      ih fun u hu => hitems u (List.mem_cons_of_mem _ hu)

lemma below_readWith {source : Schema} (h : ∀ r ∈ source.shown, Below allowed s (f r) (f' r)) :
    Below allowed s (readWith f key source) (readWith f' key source) := by
  induction source using Schema.induction with
  | step source ih =>
    cases source with
    | union items =>
      have hitems : ∀ t ∈ items, Below allowed s (readWith f key t) (readWith f' key t) :=
        fun t ht => ih t ht fun r hr => h r (Schema.mem_shown_union.2 ⟨t, ht, hr⟩)
      rw [readWith, readWith]
      exact (below_readEach hitems).bind fun _ => .pure _
    | intersection items =>
      have hitems : ∀ t ∈ items, Below allowed s (readWith f key t) (readWith f' key t) :=
        fun t ht => ih t ht fun r hr => h r (Schema.mem_shown_intersection.2 ⟨t, ht, hr⟩)
      rw [readWith, readWith]
      exact below_readLast hitems
    | reference name arguments id => exact h _ (Schema.mem_shown_reference.2 rfl)
    | literal value => cases value <;> exact .pure _
    | _ => exact .pure _

/-- An intersection is asked to the end. -/
lemma endless_readLast {items : List Schema} {found : Option Schema} {t : Schema}
    (hitems : ∀ u ∈ items, Settles (fun _ => True) s (readWith f key u)) (ht : t ∈ items)
    (hend : Endless s (readWith f key t)) : Endless s (readLast f key items found) := by
  induction items generalizing found with
  | nil => cases ht
  | cons u rest ih =>
    rw [readLast]
    rcases hitems u (List.mem_cons_self ..) with hfirst | ⟨o, ho, -⟩
    · exact hfirst.bind
    · rcases List.mem_cons.1 ht with rfl | hrest
      · exact absurd ho hend.not_ok
      · exact (Run.bind_of_ok ho).trans
          (ih (fun v hv => hitems v (List.mem_cons_of_mem _ hv)) hrest)

lemma endless_readWith {source r : Schema}
    (h : ∀ r ∈ source.shown, Settles (fun _ => True) s (f r)) (hr : r ∈ source.asked)
    (hend : Endless s (f r)) : Endless s (readWith f key source) := by
  have hsettles : ∀ t : Schema, t.shown ⊆ source.shown →
      Settles (fun _ => True) s (readWith f key t) := fun t ht =>
    (below_readWith fun r hr => (h r (ht hr)).below rfl).settles
  induction source using Schema.induction with
  | step source ih =>
    cases source with
    | reference name arguments id =>
      obtain rfl : r = .reference name arguments id := by simpa [Schema.asked] using hr
      exact hend
    | union items =>
      cases items with
      | nil => cases hr
      | cons t rest =>
        have hshown : t.shown ⊆ (Schema.union (t :: rest)).shown :=
          fun r hr => Schema.mem_shown_union.2 ⟨t, List.mem_cons_self .., hr⟩
        have hfirst := ih t (List.mem_cons_self ..) (fun r hr => h r (hshown hr)) hr
          fun u hu => hsettles u fun r hr => hshown (hu hr)
        rw [readWith, readEach]
        exact hfirst.bind.bind
    | intersection items =>
      rw [Schema.asked, Schema.askedOfAll_eq_flatMap, List.mem_flatMap] at hr
      obtain ⟨t, ht, hr⟩ := hr
      have hshown : ∀ u ∈ items, u.shown ⊆ (Schema.intersection items).shown :=
        fun u hu r hr => Schema.mem_shown_intersection.2 ⟨u, hu, hr⟩
      have hmember := ih t ht (fun r hr => h r (hshown t ht hr)) hr
        fun u hu => hsettles u fun r hr => hshown t ht (hu hr)
      rw [readWith]
      exact endless_readLast (fun u hu => hsettles u (hshown u hu)) ht hmember
    | _ => cases hr

end

section

variable {f f' : Schema → List ObjectShape → Eval (List ObjectShape)}

lemma below_spreadEach {items : List Schema} {shapes : List ObjectShape}
    (hitems : ∀ t ∈ items, ∀ shapes,
      Below allowed s (spreadWith f t shapes) (spreadWith f' t shapes)) :
    Below allowed s (spreadEach f items shapes) (spreadEach f' items shapes) := by
  induction items with
  | nil => exact .pure _
  | cons t rest ih =>
    rw [spreadEach, spreadEach]
    exact (hitems t (List.mem_cons_self ..) shapes).bind fun _ =>
      (ih fun u hu => hitems u (List.mem_cons_of_mem _ hu)).bind fun _ => .pure _

lemma below_spreadInTurn {items : List Schema} {shapes : List ObjectShape}
    (hitems : ∀ t ∈ items, ∀ shapes,
      Below allowed s (spreadWith f t shapes) (spreadWith f' t shapes)) :
    Below allowed s (spreadInTurn f items shapes) (spreadInTurn f' items shapes) := by
  induction items generalizing shapes with
  | nil => exact .pure _
  | cons t rest ih =>
    rw [spreadInTurn, spreadInTurn]
    exact (hitems t (List.mem_cons_self ..) shapes).bind fun _ =>
      ih fun u hu => hitems u (List.mem_cons_of_mem _ hu)

lemma below_spreadWith {source : Schema}
    (h : ∀ r ∈ source.shown, ∀ shapes, Below allowed s (f r shapes) (f' r shapes))
    (shapes : List ObjectShape) :
    Below allowed s (spreadWith f source shapes) (spreadWith f' source shapes) := by
  induction source using Schema.induction generalizing shapes with
  | step source ih =>
    cases source with
    | union items =>
      have hitems : ∀ t ∈ items, ∀ shapes,
          Below allowed s (spreadWith f t shapes) (spreadWith f' t shapes) :=
        fun t ht => ih t ht fun r hr => h r (Schema.mem_shown_union.2 ⟨t, ht, hr⟩)
      rw [spreadWith, spreadWith]
      split
      · exact .pure _
      · exact below_spreadEach hitems
    | intersection items =>
      have hitems : ∀ t ∈ items, ∀ shapes,
          Below allowed s (spreadWith f t shapes) (spreadWith f' t shapes) :=
        fun t ht => ih t ht fun r hr => h r (Schema.mem_shown_intersection.2 ⟨t, ht, hr⟩)
      rw [spreadWith, spreadWith]
      exact below_spreadInTurn hitems
    | reference name arguments id => exact h _ (Schema.mem_shown_reference.2 rfl) shapes
    | _ => exact .pure _

/-- Two lists of shapes of which the same becomes: they are equally long, or both are longer than
`maxShapes`. -/
def SameCount (shapes shapes' : List ObjectShape) : Prop :=
  min shapes.length (maxShapes + 1) = min shapes'.length (maxShapes + 1)

lemma SameCount.append {first first' rest rest' : List ObjectShape} (h : SameCount first first')
    (h' : SameCount rest rest') : SameCount (first ++ rest) (first' ++ rest') := by
  simp only [SameCount, List.length_append] at *
  omega

lemma SameCount.map {shapes shapes' : List ObjectShape} (h : SameCount shapes shapes')
    (g : ObjectShape → ObjectShape) : SameCount (shapes.map g) (shapes'.map g) := by
  simpa [SameCount] using h

/-- Whether there would be too many shapes is the same question for both. -/
lemma SameCount.exceeds_iff {shapes shapes' : List ObjectShape} (h : SameCount shapes shapes')
    (n : Nat) : maxShapes < shapes.length * n ↔ maxShapes < shapes'.length * n := by
  rw [SameCount] at h
  by_cases hle : shapes.length ≤ maxShapes
  · have heq : shapes.length = shapes'.length := by omega
    rw [heq]
  · have hgt : maxShapes < shapes.length := by omega
    have hgt' : maxShapes < shapes'.length := by omega
    rcases Nat.eq_zero_or_pos n with rfl | hpos
    · simp
    · have hmul := Nat.le_mul_of_pos_right shapes.length hpos
      have hmul' := Nat.le_mul_of_pos_right shapes'.length hpos
      omega

lemma alike_spreadEach {items : List Schema} {shapes shapes' : List ObjectShape}
    (hitems : ∀ t ∈ items, ∀ shapes shapes', SameCount shapes shapes' →
      Alike SameCount s (spreadWith f t shapes) (spreadWith f t shapes'))
    (hsame : SameCount shapes shapes') :
    Alike SameCount s (spreadEach f items shapes) (spreadEach f items shapes') := by
  induction items with
  | nil => exact Or.inr ⟨[], [], rfl, rfl, rfl⟩
  | cons t rest ih =>
    rw [spreadEach, spreadEach]
    refine (hitems t (List.mem_cons_self ..) _ _ hsame).bind fun first first' hfirst => ?_
    refine (ih fun u hu => hitems u (List.mem_cons_of_mem _ hu)).bind fun more more' hmore => ?_
    exact Or.inr ⟨_, _, rfl, rfl, hfirst.append hmore⟩

lemma alike_spreadInTurn {items : List Schema} {shapes shapes' : List ObjectShape}
    (hitems : ∀ t ∈ items, ∀ shapes shapes', SameCount shapes shapes' →
      Alike SameCount s (spreadWith f t shapes) (spreadWith f t shapes'))
    (hsame : SameCount shapes shapes') :
    Alike SameCount s (spreadInTurn f items shapes) (spreadInTurn f items shapes') := by
  induction items generalizing shapes shapes' with
  | nil => exact Or.inr ⟨_, _, rfl, rfl, hsame⟩
  | cons t rest ih =>
    rw [spreadInTurn, spreadInTurn]
    exact (hitems t (List.mem_cons_self ..) _ _ hsame).bind fun next next' hnext =>
      ih (fun u hu => hitems u (List.mem_cons_of_mem _ hu)) hnext

lemma alike_spreadWith {source : Schema}
    (h : ∀ r ∈ source.shown, ∀ shapes shapes', SameCount shapes shapes' →
      Alike SameCount s (f r shapes) (f r shapes'))
    (shapes shapes' : List ObjectShape) (hsame : SameCount shapes shapes') :
    Alike SameCount s (spreadWith f source shapes) (spreadWith f source shapes') := by
  induction source using Schema.induction generalizing shapes shapes' with
  | step source ih =>
    cases source with
    | union items =>
      have hitems : ∀ t ∈ items, ∀ shapes shapes', SameCount shapes shapes' →
          Alike SameCount s (spreadWith f t shapes) (spreadWith f t shapes') :=
        fun t ht => ih t ht fun r hr => h r (Schema.mem_shown_union.2 ⟨t, ht, hr⟩)
      rw [spreadWith, spreadWith]
      by_cases hlimit : maxShapes < shapes.length * items.length
      · rw [if_pos hlimit, if_pos ((hsame.exceeds_iff _).1 hlimit)]
        exact Or.inr ⟨_, _, rfl, rfl, hsame.map _⟩
      · rw [if_neg hlimit, if_neg (mt (hsame.exceeds_iff _).2 hlimit)]
        exact alike_spreadEach hitems hsame
    | intersection items =>
      have hitems : ∀ t ∈ items, ∀ shapes shapes', SameCount shapes shapes' →
          Alike SameCount s (spreadWith f t shapes) (spreadWith f t shapes') :=
        fun t ht => ih t ht fun r hr => h r (Schema.mem_shown_intersection.2 ⟨t, ht, hr⟩)
      rw [spreadWith, spreadWith]
      exact alike_spreadInTurn hitems hsame
    | reference name arguments id => exact h _ (Schema.mem_shown_reference.2 rfl) _ _ hsame
    | _ => exact Or.inr ⟨_, _, rfl, rfl, hsame.map _⟩

/-- A spread of a schema into no shapes goes on for ever, or there are no shapes afterwards and
every reference that the schema shows has been asked. -/
def NilSpread (s : Session) (f : Schema → List ObjectShape → Eval (List ObjectShape))
    (source : Schema) : Prop :=
  Endless s (spreadWith f source []) ∨
    (spreadWith f source [] s = (.ok [], s) ∧ ∀ r ∈ source.shown, f r [] s = (.ok [], s))

lemma spreadEach_nil {items : List Schema} (hitems : ∀ t ∈ items, NilSpread s f t) :
    Endless s (spreadEach f items []) ∨ (spreadEach f items [] s = (.ok [], s) ∧
      ∀ t ∈ items, ∀ r ∈ t.shown, f r [] s = (.ok [], s)) := by
  induction items with
  | nil => exact Or.inr ⟨rfl, by simp⟩
  | cons t rest ih =>
    rw [spreadEach]
    rcases hitems t (List.mem_cons_self ..) with hend | ⟨hfirst, hshown⟩
    · exact Or.inl hend.bind
    · rcases ih fun u hu => hitems u (List.mem_cons_of_mem _ hu) with hend | ⟨hrest, hmore⟩
      · exact Or.inl ((Run.bind_of_ok hfirst).trans hend.bind)
      · exact Or.inr ⟨(Run.bind_of_ok hfirst).trans (Run.bind_of_ok hrest),
          List.forall_mem_cons.2 ⟨hshown, hmore⟩⟩

lemma spreadInTurn_nil {items : List Schema} (hitems : ∀ t ∈ items, NilSpread s f t) :
    Endless s (spreadInTurn f items []) ∨ (spreadInTurn f items [] s = (.ok [], s) ∧
      ∀ t ∈ items, ∀ r ∈ t.shown, f r [] s = (.ok [], s)) := by
  induction items with
  | nil => exact Or.inr ⟨rfl, by simp⟩
  | cons t rest ih =>
    rw [spreadInTurn]
    rcases hitems t (List.mem_cons_self ..) with hend | ⟨hfirst, hshown⟩
    · exact Or.inl hend.bind
    · rw [Endless, Run.bind_of_ok hfirst]
      exact (ih fun u hu => hitems u (List.mem_cons_of_mem _ hu)).imp_right
        (And.imp_right fun hmore => List.forall_mem_cons.2 ⟨hshown, hmore⟩)

lemma nilSpread {source : Schema} (h : ∀ r ∈ source.shown, Settles (· = []) s (f r [])) :
    NilSpread s f source := by
  induction source using Schema.induction with
  | step source ih =>
    cases source with
    | reference name arguments id =>
      rcases h _ (Schema.mem_shown_reference.2 rfl) with hend | ⟨_, ha, rfl⟩
      · exact Or.inl hend
      · refine Or.inr ⟨ha, fun r hr => ?_⟩
        obtain rfl := Schema.mem_shown_reference.1 hr
        exact ha
    | union items =>
      have hall := spreadEach_nil fun t ht =>
        ih t ht fun r hr => h r (Schema.mem_shown_union.2 ⟨t, ht, hr⟩)
      rw [NilSpread, spreadWith, if_neg (by simp)]
      refine hall.imp_right (And.imp_right fun hshown r hr => ?_)
      obtain ⟨t, ht, hr⟩ := Schema.mem_shown_union.1 hr
      exact hshown t ht r hr
    | intersection items =>
      have hall := spreadInTurn_nil fun t ht =>
        ih t ht fun r hr => h r (Schema.mem_shown_intersection.2 ⟨t, ht, hr⟩)
      rw [NilSpread, spreadWith]
      refine hall.imp_right (And.imp_right fun hshown r hr => ?_)
      obtain ⟨t, ht, hr⟩ := Schema.mem_shown_intersection.1 hr
      exact hshown t ht r hr
    | _ => exact Or.inr ⟨rfl, by simp [Schema.shown]⟩

end

/-- Reading a property: there is one question only. -/
def reading (key : String) : Traversal Unit (Option Schema) where
  through f source _ := readWith (fun r => f r ()) key source
  unresolved _ := none
  kinds := 1
  kind _ := 0
  agree _ _ := True
  below h _ := below_readWith fun r hr => h r hr ()
  alike := by
    intro s f source h q q' _
    have hsettles : Settles (fun _ => True) s (readWith (fun r => f r ()) key source) :=
      (below_readWith fun r hr => (h r hr () () rfl).settles.below rfl).settles
    rcases hsettles with hend | ⟨a, ha, -⟩
    · exact Or.inl ⟨hend, hend⟩
    · exact Or.inr ⟨a, a, ha, ha, trivial⟩
  unresolved_agree _ := trivial
  through_reference _ _ _ _ _ := rfl

/-- Spreading: how many shapes there are already is what matters, up to the limit. -/
def spreading : Traversal (List ObjectShape) (List ObjectShape) where
  through := spreadWith
  unresolved shapes := shapes.map ObjectShape.unsupportedSpread
  kinds := maxShapes + 2
  kind shapes := ⟨min shapes.length (maxShapes + 1), by omega⟩
  agree := SameCount
  below := below_spreadWith
  alike h q q' hkind := alike_spreadWith
    (fun r hr shapes shapes' hsame => h r hr shapes shapes' (Fin.ext hsame)) q q'
    (Fin.ext_iff.1 hkind)
  unresolved_agree hkind := SameCount.map (Fin.ext_iff.1 hkind) _
  through_reference _ _ _ _ _ := rfl

lemma readWithin_eq (resolve : Schema → Eval Schema) (key : String) (fuel : Nat)
    (source : Schema) :
    readWithin resolve key fuel source = (reading key).within resolve fuel source () := by
  induction fuel generalizing source with
  | zero => rfl
  | succ fuel ih =>
    rw [readWithin, Traversal.within]
    simp only [ih]
    rfl

lemma spreadWithin_eq (resolve : Schema → Eval Schema) (fuel : Nat) (source : Schema)
    (shapes : List ObjectShape) :
    spreadWithin resolve fuel source shapes = spreading.within resolve fuel source shapes := by
  induction fuel generalizing source shapes with
  | zero => rfl
  | succ fuel ih =>
    rw [spreadWithin, Traversal.within]
    simp only [ih]
    rfl

lemma insists_reading (key : String) :
    (reading key).Insists Schema.asked () fun _ => True where
  settles h := (below_readWith fun r hr => (h r hr).below rfl).settles
  endless := endless_readWith
  unresolved := trivial
  asked_subset := Schema.asked_subset_shown

lemma insists_spreading : spreading.Insists Schema.shown [] (· = []) where
  settles h := by
    rcases nilSpread h with hend | ⟨hrun, -⟩
    · exact Or.inl hend
    · exact Or.inr ⟨[], hrun, rfl⟩
  endless h hr hend := by
    rcases nilSpread h with hall | ⟨-, hshown⟩
    · exact hall
    · exact absurd (hshown _ hr) hend.not_ok
  unresolved := rfl
  asked_subset _ := List.Subset.refl _

end Evaluation

namespace Session

/-- In a complete session, reads and spreads through a definition give an answer and leave the
session as it is if no circle of definitions is met on the way.  If one is met, the spread into no
shapes goes on for ever, and so does every read if all steps of the circle are taken whatever the
property is.  In no case is anything but that cut off. -/
theorem Complete.follows_unless_circular {options : Options} {s : Session} (hs : s.Complete options)
    (host : Host) (e : Evaluator) (b : Branch) {id : String}
    (hid : id ∈ Entries.names s.definitions.entries) (name : String) (arguments : List Schema) :
    (¬ s.definitions.Circular Schema.shown id →
      (∀ key, ∃ answer, Evaluation.readProperty host e b (.reference name arguments id) key s =
        (.ok answer, s)) ∧
      ∀ shapes, ∃ answer, Evaluation.spreadInto host e b (.reference name arguments id) shapes s =
        (.ok answer, s)) ∧
    (s.definitions.Circular Schema.shown id → ∀ fuel,
      Evaluation.spreadWithin (Evaluation.resolve e b) fuel (.reference name arguments id) [] s =
        (.error .diverged, s)) ∧
    (s.definitions.Circular Schema.asked id → ∀ key fuel,
      Evaluation.readWithin (Evaluation.resolve e b) key fuel (.reference name arguments id) s =
        (.error .diverged, s)) ∧
    (∀ key,
      (∃ answer, Evaluation.readProperty host e b (.reference name arguments id) key s =
        (.ok answer, s)) ∨
      ∀ fuel, Evaluation.readWithin (Evaluation.resolve e b) key fuel
        (.reference name arguments id) s = (.error .diverged, s)) ∧
    ∀ shapes,
      (∃ answer, Evaluation.spreadInto host e b (.reference name arguments id) shapes s =
        (.ok answer, s)) ∨
      ∀ fuel, Evaluation.spreadWithin (Evaluation.resolve e b) fuel
        (.reference name arguments id) shapes s = (.error .diverged, s) := by
  have hknown : s.Known name id := Or.inr hid
  have hn : Evaluation.unfoldings host s =
      (.ok (66 * (s.definitions.entries.length + host.types.size + 2)), s) := rfl
  have hread : ∀ key, Evaluation.readProperty host e b (.reference name arguments id) key s =
      (Evaluation.reading key).within (Evaluation.resolve e b)
        (66 * (s.definitions.entries.length + host.types.size + 2))
        (.reference name arguments id) () s := by
    intro key
    rw [← Evaluation.readWithin_eq]
    exact Run.bind_of_ok hn
  have hspread : ∀ shapes,
      Evaluation.spreadInto host e b (.reference name arguments id) shapes s =
        Evaluation.spreading.within (Evaluation.resolve e b)
          (66 * (s.definitions.entries.length + host.types.size + 2))
          (.reference name arguments id) shapes s := by
    intro shapes
    rw [← Evaluation.spreadWithin_eq]
    exact Run.bind_of_ok hn
  simp only [hread, hspread, Evaluation.readWithin_eq, Evaluation.spreadWithin_eq]
  refine ⟨fun hcircle => ⟨fun key => ?_, fun shapes => ?_⟩, fun hcircle fuel => ?_,
    fun hcircle key fuel => ?_, fun key => ?_, fun shapes => ?_⟩
  · exact Traversal.answers_of_not_circular _ hs hknown hcircle () hn
  · exact Traversal.answers_of_not_circular _ hs hknown hcircle shapes hn
  · cases fuel with
    | zero => rfl
    | succ fuel =>
      rw [Traversal.within_reference]
      exact Evaluation.insists_spreading.endless_of_circular hs fuel hknown hcircle
  · cases fuel with
    | zero => rfl
    | succ fuel =>
      rw [Traversal.within_reference]
      exact (Evaluation.insists_reading key).endless_of_circular hs fuel hknown hcircle
  · exact Traversal.answers_or_endless _ hs (show 1 ≤ 66 by decide) hknown () hn
  · exact Traversal.answers_or_endless _ hs (by decide) hknown shapes hn

/-- `Chain<string>` is `Chain<string> | { tag: string }`, which leads back to itself, and
`Box<string>` is `{ tag: string }`. -/
def chainAndBox : Tables where
  types := [TypeForm.parameter "T" none,
    .application "Chain" ⟨12⟩ [Intrinsic.string.id] ⟨14⟩,
    .union [⟨13⟩, ⟨16⟩],
    .application "Box" ⟨12⟩ [Intrinsic.string.id] ⟨16⟩,
    .object { properties := [⟨"tag", Intrinsic.string.id, Intrinsic.string.id, false, none⟩] },
    .tuple [⟨⟨13⟩, false, false⟩, ⟨⟨15⟩, false, false⟩]].foldl
      (fun types form => (types.add form).2) {}

theorem follows_chainAndBox :
    ∃ bundle s, (Context.start {}).evaluate chainAndBox.host (.type ⟨17⟩ none) { options := {} } =
        (.ok bundle, s) ∧
      (∀ e b, (∀ key fuel, Evaluation.readWithin (Evaluation.resolve e b) key fuel
          (.reference "Chain" [.plain .string] "Chain<string>") s = (.error .diverged, s)) ∧
        ∀ fuel, Evaluation.spreadWithin (Evaluation.resolve e b) fuel
          (.reference "Chain" [.plain .string] "Chain<string>") [] s = (.error .diverged, s)) ∧
      ∀ e b, (∀ key, ∃ answer, Evaluation.readProperty chainAndBox.host e b
          (.reference "Box" [.plain .string] "Box<string>") key s = (.ok answer, s)) ∧
        ∀ shapes, ∃ answer, Evaluation.spreadInto chainAndBox.host e b
          (.reference "Box" [.plain .string] "Box<string>") shapes s = (.ok answer, s) := by
  have hpasses : Run.passes
      ((Context.start {}).evaluate chainAndBox.host (.type ⟨17⟩ none)) { options := {} } (fun _ s =>
        (s.definitions.ready? "Chain<string>").any (fun body =>
          body.reference? == none && body.asked.any (·.reference? == some "Chain<string>")) &&
        (s.definitions.ready? "Box<string>").any fun body => body.shown.isEmpty) = true := by
    decide +kernel
  obtain ⟨bundle, s, hrun, htest⟩ := Run.exists_of_passes hpasses
  obtain ⟨hchain, hbox⟩ := Bool.and_eq_true_iff.1 htest
  obtain ⟨chain, hchain, hloop⟩ := (Option.any_eq_true _ _).1 hchain
  obtain ⟨box, hbox, hempty⟩ := (Option.any_eq_true _ _).1 hbox
  have hstart : (Contract.closed chainAndBox.host {}).Admits { options := {} }
      (Context.start {}).branch := List.forall_mem_nil _
  have hs : s.Complete {} := Context.complete_of_evaluate (closed_start {}) List.nodup_nil
    (fun _ _ hd => by cases hd) hstart hrun
  have hmem : ∀ {id body}, s.definitions.ready? id = some body →
      id ∈ Entries.names s.definitions.entries := by
    intro id body hready
    obtain ⟨d, hd, -⟩ := Registry.ready?_eq_some_iff.1 hready
    exact Entries.mem_names_of_mem (Entries.mem_of_get? hd)
  have hleads : s.definitions.LeadsOn Schema.asked "Chain<string>" "Chain<string>" := by
    obtain ⟨hbody, hasked⟩ := Bool.and_eq_true_iff.1 hloop
    obtain ⟨r, hr, hid⟩ := List.any_eq_true.1 hasked
    obtain ⟨name, arguments, id, rfl⟩ :=
      Schema.eq_reference_of_mem_shown (Schema.asked_subset_shown chain hr)
    obtain rfl : id = "Chain<string>" := by simpa [Schema.reference?] using hid
    exact ⟨chain, name, arguments, hchain, beq_iff_eq.1 hbody, hr⟩
  have hfree : ¬ s.definitions.Circular Schema.shown "Box<string>" := by
    intro hcircle
    obtain ⟨other, ⟨body, _, _, hready, -, hshown⟩, -⟩ := hcircle.exists_next
    obtain rfl := Option.some.inj (hbox.symm.trans hready)
    rw [List.isEmpty_iff.1 hempty] at hshown
    cases hshown
  refine ⟨bundle, s, hrun, fun e b => ?_, fun e b => ?_⟩
  · obtain ⟨-, hspread, hread, -⟩ := hs.follows_unless_circular chainAndBox.host e b (hmem hchain)
      "Chain" [.plain .string]
    exact ⟨hread ⟨_, .refl, .single hleads⟩,
      hspread ⟨_, .refl, .single (hleads.mono Schema.asked_subset_shown)⟩⟩
  · obtain ⟨hanswers, -⟩ := hs.follows_unless_circular chainAndBox.host e b (hmem hbox)
      "Box" [.plain .string]
    exact hanswers hfree

end Session

end ValueSchema
