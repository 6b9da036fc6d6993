/-
# How an evaluation can fail

An evaluation of a complete program in a fresh session fails for one reason only: it is not
permissive and has come to a node of a kind that has no schema.  The failure names that node, and
the place of the node is its place, however deep the evaluation was.

A reference without a definition cannot be met, because the session is closed, and a declaration
cannot be missing, because names refer only to what is declared.
-/
import ValueSchema.Proofs.Evaluation.Session
import ValueSchema.Proofs.Program.Declaration

namespace ValueSchema

/-- A strict evaluation fails at a node that has no schema. -/
lemma Evaluation.form_rejected (host : Host) (e : Evaluator) (b : Branch) (n : NodeId)
    {form : Form} (hrejected : form.isRejected = true) {s : Session}
    (hstrict : s.options.permissive = false) :
    Evaluation.form host e b n form s =
      (.error (.failed ⟨.unsupportedNode form.kindName, none⟩), s) := by
  have hreject : (do
      if (← Eval.options).permissive then return none
      else Eval.fail (.unsupportedNode form.kindName) : Eval (Option Schema)) s =
      (.error (.failed ⟨.unsupportedNode form.kindName, none⟩), s) := by
    show (if s.options.permissive = true then (pure none : Eval (Option Schema))
      else Eval.fail (.unsupportedNode form.kindName)) s = _
    rw [if_neg (by simp [hstrict])]
    rfl
  cases form with
  | sourceFile | block | variableStatement | ifStatement | spreadElement | jsxSpreadAttribute =>
    exact hreject
  | _ => cases hrejected

lemma evaluate_rejected (host : Host) {options : Options} (hstrict : options.permissive = false)
    (hdepth : 0 < options.maxDepth) {n : NodeId} {form : Form}
    (hform : host.tree.form? n = some form) (hrejected : form.isRejected = true) :
    (Context.start options).evaluate host (.node n) { options } =
      (.error (.failed ⟨.unsupportedNode form.kindName,
        some (host.tree.location n, form.kindName)⟩), { options }) := by
  obtain ⟨depth, hdepth⟩ : ∃ depth, options.maxDepth = depth + 1 :=
    ⟨options.maxDepth - 1, by omega⟩
  have hnode : Evaluation.node host (Evaluation.evaluator host depth) {} n { options } =
      (.error (.failed ⟨.unsupportedNode form.kindName,
        some (host.tree.location n, form.kindName)⟩), { options }) := by
    have hinner := Evaluation.form_rejected host (Evaluation.evaluator host depth)
      (Branch.withTrace {} n) n hrejected (s := { options }) hstrict
    rw [Evaluation.node]
    dsimp only
    rw [hform, Eval.within_of_error (Run.bind_of_error hinner), Tree.kindName_of_form hform]
    rfl
  refine Run.bind_of_error ?_
  show Evaluation.schemaOfNode host options.maxDepth {} n { options } = _
  rw [hdepth, Evaluation.schemaOfNode_succ]
  exact hnode

namespace Draft

/-- An evaluation of a complete program in a fresh session fails only if it is not permissive, and
then with the kind and the place of a node that has no schema; and at such a node it does fail. -/
theorem evaluate_finish_failure (d : Draft) (options : Options) :
    (∀ entry failure session,
      (Context.start options).evaluate d.finish.host entry { options } =
        (.error (.failed failure), session) →
      options.permissive = false ∧ ∃ n form, d.tree.form? n = some form ∧
        form.isRejected = true ∧
        failure = ⟨.unsupportedNode form.kindName, some (d.tree.location n, form.kindName)⟩) ∧
    ∀ n form, d.tree.form? n = some form → form.isRejected = true →
      options.permissive = false → 0 < options.maxDepth →
      (Context.start options).evaluate d.finish.host (.node n) { options } =
        (.error (.failed ⟨.unsupportedNode form.kindName,
          some (d.tree.location n, form.kindName)⟩), { options }) := by
  have htree : d.finish.host.tree = d.tree := d.tree_finish
  constructor
  · intro entry failure session hrun
    let c := Contract.closed d.finish.host options
    have hstart : c.Admits { options } (Context.start options).branch :=
      List.forall_mem_nil _
    have hmeets := c.meets_evaluate (Context.start options) hstart entry
    have hstop := hmeets.error (Session.closed_start options) _ _ hrun
    rcases hstop with hdiverged | ⟨hstrict, n, form, hform, hrejected, hfailure⟩ |
      ⟨n, resolved, hresolved, hnone⟩
    · cases hdiverged
    · rw [htree] at hform hfailure
      exact ⟨hstrict, n, form, hform, hrejected, by cases hfailure; rfl⟩
    · have hdeclared := d.declares_finish hresolved
      rw [hnone] at hdeclared
      cases hdeclared
  · intro n form hform hrejected hstrict hdepth
    rw [← htree] at hform ⊢
    exact evaluate_rejected d.finish.host hstrict hdepth hform hrejected

/-- A block in parentheses, which no expression can be. -/
def bracketedBlock : Draft := ((({} : Draft).add (.block [])).2.add (.parenthesized ⟨0⟩)).2

theorem evaluate_bracketedBlock :
    (Context.start { permissive := false }).evaluate bracketedBlock.finish.host (.node ⟨1⟩)
        { options := { permissive := false } } =
      (.error (.failed ⟨.unsupportedNode "Block", some (⟨"<unknown>", ⟨0, 1⟩⟩, "Block")⟩),
        { options := { permissive := false } }) ∧
    ∃ n form, bracketedBlock.tree.form? n = some form ∧ form.isRejected = true ∧
      (⟨.unsupportedNode "Block", some (⟨"<unknown>", ⟨0, 1⟩⟩, "Block")⟩ : Failure) =
        ⟨.unsupportedNode form.kindName,
          some (bracketedBlock.tree.location n, form.kindName)⟩ := by
  have hrun : (Context.start { permissive := false }).evaluate bracketedBlock.finish.host
      (.node ⟨1⟩) { options := { permissive := false } } =
      (.error (.failed ⟨.unsupportedNode "Block", some (⟨"<unknown>", ⟨0, 1⟩⟩, "Block")⟩),
        { options := { permissive := false } }) := by
    rfl
  exact ⟨hrun, ((evaluate_finish_failure bracketedBlock _).1 _ _ _ hrun).2⟩

end Draft

end ValueSchema
