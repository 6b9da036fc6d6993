/-
# Which instances share a definition

The instances of one generic type that are converted in a session, in whatever contexts and with
whatever requests in between, refer to the same definition exactly if their texts are the same,
`Context.reference_id_eq_iff`.

Instances with the same text need not have the same arguments.  The text of an array is that of its
element and a pair of brackets, so an array of a union reads like a union with an array at its end.
-/
import ValueSchema.Proofs.Session.History

namespace ValueSchema

variable {host : Host} {s t : Session}

namespace Evaluation

/-- A reference to an instance is the one that its text and its generic type have in the session. -/
lemma assigns_of_convertCompound {e : Evaluator} {b : Branch} {type : TypeId}
    {node : Option NodeId} {name id : String} {target body : TypeId} {arguments : List TypeId}
    {found : String} {items : List Schema} (hs : s.Indexed host)
    (htypes : ∀ b type, Eval.Progresses host (e.type b type none))
    (htype : host.types.get? type = some (.application name target arguments body))
    (hwell : s.options.isWellKnown name = false)
    (hrun : convertCompound host e b type node (.application name target arguments body) s =
      (.ok (.reference found items id), t)) :
    t.definitions.Assigns (host.types.display type) target id := by
  rcases convertCompound_cases hrun with
    ⟨schema, hschema, hok, rfl⟩ | ⟨schema, u, hnew, hok, rfl⟩ | ⟨stop, -, hstop⟩
  · obtain rfl := Except.ok.inj hok
    rcases hschema with hcircular | hcached
    · cases hcircular
    · obtain ⟨items', key, hreference, hassigns⟩ := hs.cached _ _ _ _ _ _ htype hwell hcached
      cases hreference
      exact hassigns
  · obtain rfl := Except.ok.inj hok
    obtain ⟨items', key, hreference, hassigns⟩ := convertForm_application htypes hwell hnew
    cases hreference
    rwa [definitions_remember]
  · cases hstop

end Evaluation

namespace Context

lemma assigns_of_convertType {c : Context} {type : TypeId} {node : Option NodeId}
    {name id : String} {target body : TypeId} {arguments : List TypeId} {found : String}
    {items : List Schema} (hs : s.Indexed host)
    (htype : host.types.get? type = some (.application name target arguments body))
    (hwell : s.options.isWellKnown name = false)
    (hrun : c.convertType host type node s = (.ok (.reference found items id), t)) :
    t.definitions.Assigns (host.types.display type) target id := by
  replace hrun : Evaluation.convertType host c.remaining c.branch type node s = _ := hrun
  cases hdepth : c.remaining with
  | zero =>
    rw [hdepth, Evaluation.convertType] at hrun
    cases hrun
  | succ depth =>
    rw [hdepth, Evaluation.convertType_succ, Evaluation.convert, htype] at hrun
    exact Evaluation.assigns_of_convertCompound hs
      (fun b => (Simulation.related_progress host depth b).type) htype hwell hrun

/-- Two instances of a generic type refer to the same definition exactly if they have the same
text. -/
theorem reference_id_eq_iff {options : Options} {c c' : Context} {s t s' t' : Session}
    {type type' target : TypeId} {node node' : Option NodeId} {name name' : String}
    {arguments arguments' : List TypeId} {body body' : TypeId}
    {found found' id id' : String} {items items' : List Schema}
    (htype : host.types.get? type = some (.application name target arguments body))
    (htype' : host.types.get? type' = some (.application name' target arguments' body'))
    (hwell : options.isWellKnown name = false) (hwell' : options.isWellKnown name' = false)
    (hs : ({ options } : Session).Later host s)
    (hrun : c.convertType host type node s = (.ok (.reference found items id), t))
    (hs' : t.Later host s')
    (hrun' : c'.convertType host type' node' s' = (.ok (.reference found' items' id'), t')) :
    id = id' ↔ host.types.display type = host.types.display type' := by
  have hfirst := hs.moves
  have hmiddle := ((c.progresses_schemaOfEntry host (.type type node)).moves hrun).trans hs'.moves
  have hlast := (c'.progresses_schemaOfEntry host (.type type' node')).moves hrun'
  have hindexed := hfirst.indexed (Session.indexed_start options)
  -- what the first conversion has found is still so after the second one
  have hassigns := (assigns_of_convertType hindexed htype (by rw [hfirst.options_eq]; exact hwell)
    hrun).mono (hs'.moves.trans hlast).advances.keepsTargets
  have hassigns' := assigns_of_convertType (hmiddle.indexed hindexed) htype'
    (by rw [hmiddle.options_eq, hfirst.options_eq]; exact hwell') hrun'
  constructor
  · intro hid
    obtain ⟨text, htext⟩ := TypeTable.display_application htype
    obtain ⟨text', htext'⟩ := TypeTable.display_application htype'
    rw [htext] at hassigns ⊢
    rw [htext', ← hid] at hassigns'
    rw [htext']
    exact hassigns.eq_of_eq hassigns'
  · intro htext
    rw [← htext] at hassigns'
    exact hassigns.unique hassigns'

/-- The types `Box<(string | number)[]>` and `Box<string | number[]>`. -/
def boxTypes : Tables where
  types := [TypeForm.parameter "T" none,
    .union [Intrinsic.string.id, Intrinsic.number.id], .array ⟨13⟩,
    .object { properties := [⟨"value", ⟨14⟩, ⟨14⟩, false, none⟩] },
    .application "Box" ⟨12⟩ [⟨14⟩] ⟨15⟩,
    .array Intrinsic.number.id, .union [Intrinsic.string.id, ⟨17⟩],
    .object { properties := [⟨"value", ⟨18⟩, ⟨18⟩, false, none⟩] },
    .application "Box" ⟨12⟩ [⟨18⟩] ⟨19⟩].foldl (fun types form => (types.add form).2) {}

/-- The two instances have different arguments and the same definition. -/
theorem convertType_boxTypes :
    ∃ items items' id t u,
      (start {}).convertType boxTypes.host ⟨16⟩ none { options := {} } =
        (.ok (.reference "Box" items id), t) ∧
      (start {}).convertType boxTypes.host ⟨20⟩ none t = (.ok (.reference "Box" items' id), u) ∧
      Schema.equalAll items items' = false := by
  obtain ⟨items, items', id, id', t, u, hfirst, hsecond, hequal⟩ : ∃ items items' id id' t u,
      (start {}).convertType boxTypes.host ⟨16⟩ none { options := {} } =
        (.ok (.reference "Box" items id), t) ∧
      (start {}).convertType boxTypes.host ⟨20⟩ none t = (.ok (.reference "Box" items' id'), u) ∧
      Schema.equalAll items items' = false := ⟨_, _, _, _, _, _, rfl, rfl, by decide +kernel⟩
  have hid : id = id' :=
    (reference_id_eq_iff rfl rfl (by decide) (by decide) .refl hfirst .refl hsecond).2
      (by decide +kernel)
  exact ⟨items, items', id, t, u, hfirst, hid ▸ hsecond, hequal⟩

end Context

end ValueSchema
