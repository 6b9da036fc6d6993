/-
# Sessions that are as good as fresh ones

A session is faithful if it remembers acyclic types only, each with the schema that a fresh session
finds.  Sessions need not be faithful: a type that leads back to itself may be remembered with a
schema that is right in one place only.

But if the types of a program have no cycles, and the depth suffices for each of them alone, then a
session is faithful after any requests, `Session.faithful_of_requests`.  The requests may go through
nodes, calls and definitions in any order, and may stop or run out of depth.  They only have to
start outside of types, and may not ask for the type of an array literal together with the literal,
because then the elements are evaluated inside of the type.
-/
import ValueSchema.Proofs.Evaluation.Memory
import ValueSchema.Proofs.Session.Filling

namespace ValueSchema

open Evaluation

variable {host : Host} {options : Options} {s t : Session}

/-- The types of a program have no cycles, and the depth suffices for each of them.  None comes from
an object literal, and no two generic types have instances with the same text. -/
structure Host.WithoutCycles (host : Host) (options : Options) : Prop where
  literalFree : host.LiteralFree
  unambiguous : host.Unambiguous
  endsWithin : ∀ id, Evaluation.endsWithin host options options.maxDepth id = true

lemma Host.WithoutCycles.acyclic (h : host.WithoutCycles options) (id : TypeId) :
    Acyclic host options id := acyclic_of_endsWithin options.maxDepth (h.endsWithin id)

/-- What is not a type has no parts, so it is enough to look at the types. -/
lemma Evaluation.endsWithin_of_all {levels : Nat}
    (h : (List.range host.types.size).all
      (fun i => endsWithin host options (levels + 1) ⟨i⟩) = true) (id : TypeId) :
    endsWithin host options (levels + 1) id = true := by
  rcases hid : host.types.get? id with _ | form
  · rw [endsWithin, partsOf, hid]
    rfl
  · have hlt : id.index < host.types.size := (Array.getElem?_eq_some_iff.1 hid).1
    exact List.all_eq_true.1 h id.index (List.mem_range.2 hlt)

namespace Session

/-! ## Faithful sessions -/

/-- A session remembers acyclic types only, with the schemas that a fresh session finds. -/
def Faithful (host : Host) (options : Options) (s : Session) : Prop :=
  ∀ type known, s.types.get? type = some known → Acyclic host options type ∧
    ∃ t, (Context.start options).convertType host type none { options } = (.ok known, t) ∧
      t.degraded = 0

/-- Under unambiguous texts, every definition of an indexed session stands under its text. -/
lemma Indexed.named (h : s.Indexed host) (hhost : host.Unambiguous) :
    s.definitions.Named host := by
  intro id d hd
  obtain ⟨type, name, arguments, body, htype, n, hn, rfl, -, htaken⟩ := h.instances id d hd
  refine ⟨type, name, arguments, body, htype, ?_⟩
  by_contra hne
  have hlt : 1 < n := by
    rcases Nat.lt_or_eq_of_le hn with hlt | rfl
    · exact hlt
    · exact absurd (Registry.numbered_one _).symm hne
  -- the text itself would have been taken by another generic type
  obtain ⟨d', hd', htarget⟩ := htaken 1 (Nat.le_refl 1) hlt
  obtain ⟨type', name', arguments', body', htype', n', -, htext, -⟩ := h.instances _ d' hd'
  obtain ⟨text, hdisplay⟩ := TypeTable.display_application htype
  obtain ⟨text', hdisplay'⟩ := TypeTable.display_application htype'
  rw [hdisplay, hdisplay'] at htext
  refine htarget (hhost _ _ _ _ _ _ _ _ _ _ htype' htype ?_)
  rw [hdisplay, hdisplay', Registry.eq_of_numbered_eq htext]

lemma Faithful.honest (h : s.Faithful host options) (hhost : host.LiteralFree)
    (hnames : host.Unambiguous) (hmoves : ({ options } : Session).Moves host s) :
    Honest host options s where
  options_eq := hmoves.options_eq
  named := (hmoves.indexed (indexed_start options)).named hnames
  remembered := by
    intro type known htype hknown
    obtain ⟨-, t, hrun, ht⟩ := h type known hknown
    have hconvert : Evaluation.convertType host options.maxDepth {} type none { options } =
        (.ok known, t) := hrun
    exact (honest_start.convertType hhost hnames rfl (above_of_types_eq_nil rfl) htype hconvert ht).1

/-- Without cycles, a fresh session finds what a type stands for. -/
lemma exists_fresh (hhost : host.WithoutCycles options) (type : TypeId) :
    ∃ t, (Context.start options).convertType host type none { options } =
      (.ok (Evaluation.meaning host options type), t) ∧ t.degraded = 0 := by
  obtain ⟨schema, t, hrun, -, ht⟩ :=
    completes_of_endsWithin hhost.literalFree (hhost.endsWithin type) {} { options } rfl
  obtain ⟨rfl, -, -⟩ := honest_start.convertType hhost.literalFree hhost.unambiguous rfl
    (above_of_types_eq_nil rfl) (hhost.acyclic type) hrun ht.symm
  exact ⟨t, hrun, ht.symm⟩

lemma faithful_of_honest (hhost : host.WithoutCycles options) (h : Honest host options s) :
    s.Faithful host options := by
  intro type known hknown
  obtain rfl := h.remembered type known (hhost.acyclic type) hknown
  exact ⟨hhost.acyclic type, exists_fresh hhost type⟩

/-! ## Honest sessions stay honest -/

lemma stable_honest (hnames : host.Unambiguous) : Stable host (Honest host options) where
  degrade hs := ⟨⟨hs.options_eq, hs.named⟩, hs.remembered⟩
  register := by
    intro s id name target arguments body hid hs
    obtain ⟨r, hr, hnamed⟩ := Registry.register_of_named hnames hs.named hid
    rw [registerInstance, Run.get_bind, hr]
    exact ⟨⟨hs.options_eq, hnamed⟩, hs.remembered⟩
  setState := by
    intro s id state hs
    refine ⟨⟨hs.options_eq, fun other d' hd' => ?_⟩, hs.remembered⟩
    rw [Registry.get?_setState] at hd'
    obtain ⟨d, hd, rfl⟩ := Option.map_eq_some_iff.1 hd'
    have htarget : (if other = id then { d with state } else d).target = d.target := by
      split <;> rfl
    rw [htarget]
    exact hs.named other d hd

end Session

namespace Evaluation

open Session Eval

/-- Being quiet is respected by conversions. -/
def quiet {kind : Session → Prop} (hkind : Stable host kind)
    (hoptions : ∀ {s}, kind s → s.options = options) : TypeSimulation host options where
  Rel m _ := Quiet kind m
  pure _ := .of_snd_eq fun _ => rfl
  bind := .bind
  read := by
    intro α f f' hf
    refine ⟨fun {s o t} hs hrun => ?_⟩
    rw [options_bind, Run.get_bind, hoptions hs] at hrun
    exact hf.stays hs hrun
  register hid := .registerInstance hkind hid

/-- What is remembered of a type is what the type stands for: it is remembered only if it does not
depend on a node or a binding, and if the depth sufficed. -/
lemma quiet_convertCompound (hhost : host.WithoutCycles options) {depth : Nat} {b : Branch}
    {id : TypeId} {form : TypeForm} {node : Option NodeId} (hid : host.types.get? id = some form)
    (habove : Above host options b id) (hnode : host.Bare node)
    (hparts : ∀ part ∈ partsOf host options id,
      Quiet (Honest host options) (convertType host depth (b.withType id) part none)) :
    Quiet (Honest host options) (convertCompound host (evaluator host depth) b id node form) := by
  let S : TypeSimulation host options :=
    quiet (stable_honest hhost.unambiguous) fun hs => hs.options_eq
  have hform : S.Rel (convertForm host (evaluator host depth) (b.withType id) id node form)
      (convertForm host (evaluator host depth) (b.withType id) id node form) := by
    refine TypeSimulation.rel_convertForm hhost.literalFree hid hnode fun part hpart =>
      hparts part ?_
    rwa [partsOf, hid]
  refine Quiet.compound hform fun {s schema t} hs ht hrun => ?_
  by_cases hgeneral : isGeneral b node = true ∧ t.degraded = s.degraded
  · -- the result depends on the type alone, so it is what the type stands for
    obtain ⟨hgeneral, hsame⟩ := hgeneral
    obtain ⟨rfl, hb⟩ : node = none ∧ b.bindings = [] := by
      simpa [isGeneral, Branch.hasBindings] using hgeneral
    exact ht.remember fun hacyclic =>
      hs.convertForm hhost.literalFree hhost.unambiguous hb habove hacyclic hid hrun hsame
  · rw [remember, if_neg (by grind)]
    exact ht

/-- The induction is on the depth. -/
lemma quiet_convertType (hhost : host.WithoutCycles options) (depth : Nat) {b : Branch}
    {id : TypeId} (habove : Above host options b id) :
    Quiet (Honest host options) (convertType host depth b id none) := by
  induction depth generalizing b id with
  | zero => exact .degrade (stable_honest hhost.unambiguous)
  | succ depth ih =>
    rw [convertType_succ, convert]
    split
    · exact .of_snd_eq fun _ => rfl
    · exact .of_snd_eq fun _ => rfl
    · exact .of_snd_eq fun _ => rfl
    · rename_i form _ _ hid
      exact quiet_convertCompound hhost hid habove host.bare_none fun part hpart =>
        ih (habove.part hpart)

end Evaluation

/-- Staying honest is a simulation that looks at evaluations outside of types. -/
def Simulation.honest (hhost : host.WithoutCycles options) : Simulation host :=
  .filling (@Session.stable_honest host options hhost.unambiguous) (.outside host)
    fun {depth _ _ _ node} hid hb hnode _ =>
      .of_quiet
        (progresses_convertCompound hid (fun b => (related_progress host depth b).type)
          (rel_convertForm (related_progress host depth _) node hid))
        (quiet_convertCompound hhost hid (above_of_types_eq_nil hb) hnode fun _ hpart =>
          quiet_convertType hhost depth ((above_of_types_eq_nil hb).part hpart))

namespace Session

/-! ## Whole histories -/

/-- After any requests from outside of types, an honest session is honest, and the bodies that it
has stored have been converted in honest sessions. -/
lemma Gains.of_requests (hhost : host.WithoutCycles options) {requests : List Request}
    (hrequests : ∀ r ∈ requests, (Domain.outside host).Admits r) :
    let t := requests.foldl (Request.after host) { options }
    ({ options } : Session).Moves host t ∧ Honest host options t ∧
      ({ options } : Session).Gains host (Honest host options) t := by
  refine List.foldlRecOn (motive := fun t => ({ options } : Session).Moves host t ∧
    Honest host options t ∧ ({ options } : Session).Gains host (Honest host options) t)
    requests _ ⟨.refl host _, honest_start, .refl _⟩ ?_
  -- each request starts in a session that is honest by the requests before
  rintro t ⟨hmoves, hhonest, hgains⟩ r hr
  obtain ⟨hafter, hmore⟩ := (Simulation.honest hhost).request
    (P := fun s t => Honest host options s →
      Honest host options t ∧ s.Gains host (Honest host options) t)
    (fun hm _ hs => hm.gains hs rfl) (hrequests r hr) t hhonest
  exact ⟨hmoves.trans (r.moves t), hafter, hgains.trans hmoves hmore⟩

/-- In a program without cycles, a session is faithful after any requests from outside of types. -/
theorem faithful_of_requests (hhost : host.WithoutCycles options) {requests : List Request}
    (hrequests : ∀ r ∈ requests, (Domain.outside host).Admits r) :
    (requests.foldl (Request.after host) { options }).Faithful host options :=
  faithful_of_honest hhost (Gains.of_requests hhost hrequests).2.1

end Session

end ValueSchema
