/-
# The bodies of definitions

The body of a definition is converted where the definition is needed first.  The conversion is not
inside of anything, but it has no more depth than is left there, and its result is stored whether or
not the depth sufficed.  The session never converts the body again, so the result stays as it is.

Every body that is stored comes from such a conversion, `Session.Later.conversion_of_ready`.  If the
depth sufficed, then the result does not depend on where the definition was needed: more depth
changes nothing, and a fresh session comes to the same result if the session was faithful.  In a
program without cycles all sessions are, so this holds after any requests,
`Session.exists_conversion_of_requests`.  If the depth did not suffice, then the body of a session
can have less in it than the body of a fresh one, `Session.ready_deepBox`.
-/
import ValueSchema.Proofs.Session.Faithful

namespace ValueSchema

namespace Session

variable {host : Host} {options : Options} {s t : Session} {id : String} {schema : Schema}

open Evaluation

namespace Conversion

/-- If the depth suffices for a conversion, then more depth makes no difference. -/
lemma runs_of_le (k : s.Conversion host id schema) (hsame : k.found.degraded = k.waiting.degraded)
    {depth : Nat} (hdepth : k.depth ≤ depth) :
    Evaluation.convertType host depth k.branch.detached k.body none
      { k.waiting with definitions := k.claimed } = (.ok schema, k.found) := by
  -- the options stay, and only the depths of the two evaluators differ
  have hrelaxes : k.waiting.options.Relaxes k.waiting.options :=
    ⟨Nat.le_refl _, fun h => h, rfl, rfl, rfl⟩
  have hrepeated : Eval.Repeated k.waiting.options k.waiting.options
      (Evaluation.convertType host k.depth k.branch.detached k.body none)
      (Evaluation.convertType host depth k.branch.detached k.body none) :=
    ((Simulation.relaxation host hrelaxes).related_evaluator hdepth trivial).body k.body
  obtain ⟨hoptions, -, hagain⟩ :=
    hrepeated { k.waiting with definitions := k.claimed } schema k.found rfl k.runs
  have hunder : k.found.under k.waiting.options = k.found := by
    rw [← hoptions]
    rfl
  rw [← hunder]
  exact hagain hsame

/-- If the depth suffices for a conversion in a faithful session, then it gives what a conversion in
a fresh session gives. -/
lemma eq_of_fresh (k : ({ options } : Session).Conversion host id schema)
    (hsame : k.found.degraded = k.waiting.degraded) (hhost : host.LiteralFree)
    (hnames : host.Unambiguous) (hfaithful : k.waiting.Faithful host options)
    {o : Except Stop Schema}
    (hfresh : (Context.start options).convertType host k.body none { options } = (o, t))
    (ht : t.degraded = 0) : o = .ok schema := by
  have hclaimed : ({ options } : Session).Moves host { k.waiting with definitions := k.claimed } :=
    k.moves.trans (moves_claim k.claims)
  have hhonest : Honest host options { k.waiting with definitions := k.claimed } :=
    Faithful.honest hfaithful hhost hnames hclaimed
  have hagree : (matching host options).Agree
      (Evaluation.convertType host k.depth k.branch.detached k.body none)
      ((Context.start options).convertType host k.body none) :=
    agree_convertType hhost hnames _ _ rfl rfl rfl (above_of_types_eq_nil rfl)
  obtain ⟨fresh, t', hrun, -, -⟩ := hagree.right { options } rfl
  obtain ⟨rfl, rfl⟩ := Prod.mk.inj (hfresh.symm.trans hrun)
  -- neither session remembers a type that is not acyclic
  have hpair : (matching host options).Holds { k.waiting with definitions := k.claimed }
      { options } := by
    refine ⟨hhonest, honest_start, fun type htype => ?_⟩
    rcases hknown : k.waiting.types.get? type with _ | known
    · rfl
    · exact absurd (hfaithful type known hknown).1 htype
  rw [(hagree.same hpair k.runs hfresh hsame ht).1]

end Conversion

/-- Every body that a session has stored stays there, and comes from a conversion on the way to the
session.  If the depth sufficed for the conversion, then it does not matter where the definition was
needed: more depth does not change the schema, and a fresh session in which the depth suffices finds
the same.  For the latter, no type comes from an object literal, no two generic types have instances
with the same text, and the session remembered acyclic types only, as a fresh session finds them. -/
theorem Later.conversion_of_ready (h : ({ options } : Session).Later host s)
    (hready : s.definitions.ready? id = some schema) :
    (∀ t, s.Later host t → t.definitions.ready? id = some schema) ∧
    Nonempty (({ options } : Session).Conversion host id schema) ∧
    ∀ k : ({ options } : Session).Conversion host id schema,
      k.found.degraded = k.waiting.degraded →
      (∀ depth, k.depth ≤ depth →
        Evaluation.convertType host depth k.branch.detached k.body none
          { k.waiting with definitions := k.claimed } = (.ok schema, k.found)) ∧
      (host.LiteralFree → host.Unambiguous → k.waiting.Faithful host options →
        ∀ o t, (Context.start options).convertType host k.body none { options } = (o, t) →
          t.degraded = 0 → o = .ok schema) := by
  refine ⟨fun t ht => ht.moves.ready? hready, ?_, fun k hsame => ⟨fun depth => k.runs_of_le hsame,
    fun hhost hnames hfaithful o t => k.eq_of_fresh hsame hhost hnames hfaithful⟩⟩
  rcases h.gains id schema hready with hstart | ⟨k, -⟩
  · cases hstart
  · exact ⟨k⟩

/-- In a program without cycles, every body that is stored after any requests from outside of types
comes from a conversion in a faithful session.  The depth suffices for the conversion if the body
type comes to an end within it.  And if it sufficed, then the schema is what a fresh session
finds. -/
theorem exists_conversion_of_requests (hhost : host.WithoutCycles options) {requests : List Request}
    (hrequests : ∀ r ∈ requests, (Domain.outside host).Admits r)
    (hready : (requests.foldl (Request.after host) { options }).definitions.ready? id =
      some schema) :
    ∃ k : ({ options } : Session).Conversion host id schema,
      k.waiting.Faithful host options ∧
      (endsWithin host options k.depth k.body = true → k.found.degraded = k.waiting.degraded) ∧
      (k.found.degraded = k.waiting.degraded →
        ∃ t, (Context.start options).convertType host k.body none { options } = (.ok schema, t) ∧
          t.degraded = 0) := by
  obtain ⟨-, -, hgains⟩ := Gains.of_requests hhost hrequests
  rcases hgains id schema hready with hstart | ⟨k, hk⟩
  · cases hstart
  · have hfaithful := faithful_of_honest hhost hk
    refine ⟨k, hfaithful, fun hends => ?_, fun hsame => ?_⟩
    · obtain ⟨found, t, hrun, -, hcount⟩ :=
        completes_of_endsWithin hhost.literalFree hends k.branch.detached
          { k.waiting with definitions := k.claimed } hk.options_eq
      obtain ⟨-, rfl⟩ := Prod.mk.inj (k.runs.symm.trans hrun)
      exact hcount.symm
    · obtain ⟨t, hfresh, ht⟩ := exists_fresh hhost k.body
      have hschema := k.eq_of_fresh hsame hhost.literalFree hhost.unambiguous hfaithful hfresh ht
      exact ⟨t, hschema ▸ hfresh, ht⟩

/-- The statement `(box.tag)` about a variable of the type `Box<string>`, whose body is
`{ tag: string; value: { deep: { deeper: string } } }`. -/
def deepBox : Host :=
  let forms : List Form :=
    [.identifier "box", .identifier "tag", .propertyAccess ⟨0⟩ ⟨1⟩, .parenthesized ⟨2⟩,
      .identifier "box", .variableDeclaration ⟨4⟩ none .block, .variableStatement [⟨5⟩],
      .expressionStatement ⟨3⟩, .sourceFile "main.ts" [⟨6⟩, ⟨7⟩]]
  let property (name : String) (type : TypeId) : Property := ⟨name, type, type, false, none⟩
  let types : List TypeForm :=
    [.parameter "T" none, .object { properties := [property "deeper" Intrinsic.string.id] },
      .object { properties := [property "deep" ⟨13⟩] },
      .object { properties := [property "tag" Intrinsic.string.id, property "value" ⟨14⟩] },
      .application "Box" ⟨12⟩ [Intrinsic.string.id] ⟨15⟩]
  let d := types.foldl (fun d type => (d.addType type).2)
    (forms.foldl (fun d form => (d.add form).2) ({} : Draft))
  ({ d with nodeTypes := d.nodeTypes.put ⟨5⟩ ⟨16⟩ } : Draft).finish.host

/-- The reference to `Box<string>`. -/
def boxReference : Schema := .reference "Box" [.plain .string] "Box<string>"

/-- The body of `Box<string>` with a schema of the innermost type. -/
def boxBody (innermost : Schema) : Schema :=
  .object [("tag", .plain .string),
    ("value", .object [("deep", .object [("deeper", innermost)] [])] [])] []

/-- Five levels suffice for the body of `Box<string>`, but not where the statement needs it. -/
def fiveLevels : Options := { maxDepth := 5 }

open Context

/-- Of the types of the program, only `Box<string>` is an instance of a generic type, and none comes
from an object literal. -/
lemma deepBox_types {id : TypeId} {form : TypeForm}
    (h : deepBox.types.get? id = some form) : form.isPlain = true ∨ id = ⟨16⟩ := by
  have hall : deepBox.types.types.toList.zipIdx.all
      (fun entry => entry.1.isPlain || entry.2 == 16) = true := by decide +kernel
  have hmem : (form, id.index) ∈ deepBox.types.types.toList.zipIdx := by
    rw [List.mk_mem_zipIdx_iff_getElem?, Array.getElem?_toList]
    exact h
  rcases Bool.or_eq_true_iff.1 (List.all_eq_true.1 hall _ hmem) with hplain | hindex
  · exact Or.inl hplain
  · obtain ⟨index⟩ := id
    exact Or.inr (congrArg TypeId.mk (beq_iff_eq.1 hindex))

lemma deepBox_literalFree : deepBox.LiteralFree := by
  intro id type hid
  rcases deepBox_types hid with hplain | rfl
  · exact Option.isNone_iff_eq_none.1 hplain
  · cases hid

lemma deepBox_unambiguous : deepBox.Unambiguous := by
  intro id id' name name' target target' arguments arguments' body body' hid hid' _
  rcases deepBox_types hid with hplain | rfl
  · cases hplain
  · rcases deepBox_types hid' with hplain | rfl
    · cases hplain
    · cases hid
      cases hid'
      rfl

/-- The types of the program have no cycles, and end within four levels. -/
lemma deepBox_withoutCycles : deepBox.WithoutCycles fiveLevels where
  literalFree := deepBox_literalFree
  unambiguous := deepBox_unambiguous
  endsWithin := endsWithin_of_all (by decide +kernel)

/-- A session that looks up `Box<string>` with all levels left stores the body that a fresh session
finds.  One that looks up the tag of the box first has two levels less for it, and keeps a body in
which the innermost type is unknown. -/
theorem ready_deepBox :
    ∃ waiting t,
      (start fiveLevels).convertType deepBox ⟨16⟩ none { options := fiveLevels } =
        (.ok boxReference, waiting) ∧
      (start fiveLevels).convertType deepBox ⟨15⟩ none { options := fiveLevels } =
        (.ok (boxBody (.plain .string)), t) ∧ t.degraded = 0 ∧
      (∀ s, ((Request.resolve (start fiveLevels) boxReference).after deepBox waiting).Later
          deepBox s → s.definitions.ready? "Box<string>" = some (boxBody (.plain .string))) ∧
      (∀ s, ((Request.schema (start fiveLevels) (.node ⟨3⟩)).after deepBox
          { options := fiveLevels }).Later deepBox s →
        s.definitions.ready? "Box<string>" = some (boxBody .unknown)) ∧
      Schema.equal (boxBody .unknown) (boxBody (.plain .string)) = false := by
  obtain ⟨waiting, claimed, found, hlookup, hclaim, hbody, hsame, hdeep⟩ :
      ∃ waiting claimed found,
        (start fiveLevels).convertType deepBox ⟨16⟩ none { options := fiveLevels } =
          (.ok boxReference, waiting) ∧
        waiting.definitions.begin? "Box<string>" = some (⟨15⟩, claimed) ∧
        Evaluation.convertType deepBox 5 {} ⟨15⟩ none { waiting with definitions := claimed } =
          (.ok (boxBody (.plain .string)), found) ∧ found.degraded = waiting.degraded ∧
        ((Request.resolve (start fiveLevels) boxReference).after deepBox
          waiting).definitions.ready? "Box<string>" = some (boxBody (.plain .string)) :=
    ⟨_, _, _, rfl, rfl, rfl, by decide +kernel, rfl⟩
  have hshallow : ((Request.schema (start fiveLevels) (.node ⟨3⟩)).after deepBox
      { options := fiveLevels }).definitions.ready? "Box<string>" = some (boxBody .unknown) := rfl
  obtain ⟨o, t, hfresh, ht⟩ : ∃ o t,
      (start fiveLevels).convertType deepBox ⟨15⟩ none { options := fiveLevels } = (o, t) ∧
      t.degraded = 0 :=
    ⟨_, _, rfl, by decide +kernel⟩
  have hwaiting : [Request.schema (start fiveLevels) (.type ⟨16⟩ none)].foldl
      (Request.after deepBox) { options := fiveLevels } = waiting := congrArg Prod.snd hlookup
  have hlater : ({ options := fiveLevels } : Session).Later deepBox waiting := by
    rw [← hwaiting]
    exact .of_requests _ _
  -- the conversion with all levels left
  let k : ({ options := fiveLevels } : Session).Conversion deepBox "Box<string>"
      (boxBody (.plain .string)) :=
    ⟨5, {}, ⟨15⟩, waiting, claimed, found, hlater.moves, hclaim, hbody⟩
  have hfaithful : k.waiting.Faithful deepBox fiveLevels := by
    have houtside : (Domain.outside deepBox).Admits
        (.schema (start fiveLevels) (.type ⟨16⟩ none)) := ⟨rfl, deepBox.bare_none⟩
    show waiting.Faithful deepBox fiveLevels
    rw [← hwaiting]
    exact faithful_of_requests deepBox_withoutCycles (List.forall_mem_singleton.2 houtside)
  obtain ⟨hdeeps, -, hbodies⟩ :=
    (hlater.request (.resolve (start fiveLevels) boxReference)).conversion_of_ready hdeep
  obtain rfl : o = .ok (boxBody (.plain .string)) :=
    (hbodies k hsame).2 deepBox_literalFree deepBox_unambiguous hfaithful o t hfresh ht
  obtain ⟨hstays, -⟩ :=
    (Later.refl.request (.schema (start fiveLevels) (.node ⟨3⟩))).conversion_of_ready hshallow
  exact ⟨waiting, t, hlookup, hfresh, ht, hdeeps, hstays, by decide +kernel⟩

end Session

end ValueSchema
