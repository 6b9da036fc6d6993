/-
# Operands that decide a logical operation

A logical operator selects one of its operands.  Where an expression is evaluated, a left operand
that is an object, a list or a function decides at once, since all of these count as true.  Where a
symbolic operation is computed later, after its inputs have been filled in, only literals decide,
and the operation stays symbolic.  So the two ways agree just where the left operand is not one of
these: `Evaluation.binary_of_logical`.
-/
import ValueSchema.Evaluation.Request
import ValueSchema.Program.Basic
import ValueSchema.Proofs.Evaluation.Session
import ValueSchema.Proofs.Schema.Results
import ValueSchema.Propagation.Basic

namespace ValueSchema

namespace Schema

/-- Whether a schema is that of an object, a list or a function. -/
def isStructured : Schema → Bool
  | object .. | array .. | tuple .. | function .. => true
  | _ => false

/-! ## Symbolic operations on structured operands -/

/-- How many symbolic operations stand one in the other along the right operands. -/
def delay : Schema → Nat
  | binary _ _ right => delay right + 1
  | _ => 0

lemma delay_eq_of_equal {s t : Schema} (h : equal s t = true) : delay s = delay t := by
  induction s using induction generalizing t with
  | step s ih =>
    cases s with
    | binary op left right =>
      cases t with
      | binary op' left' right' =>
        rw [equal, Bool.and_eq_true] at h
        rw [delay, delay, ih right (by simp [children]) h.2]
      | _ => cases h
    | _ =>
      cases t with
      | binary => cases h
      | _ => rfl

lemma exists_equal_of_equalAll {items others : List Schema} (h : equalAll items others = true)
    {s : Schema} (hs : s ∈ items) : ∃ t ∈ others, equal s t = true := by
  induction items generalizing others with
  | nil => cases hs
  | cons first rest ih =>
    cases others with
    | nil => cases h
    | cons other more =>
      rw [equalAll, Bool.and_eq_true] at h
      rcases List.mem_cons.1 hs with rfl | hrest
      · exact ⟨other, List.mem_cons_self .., h.1⟩
      · obtain ⟨t, ht, hst⟩ := ih h.2 hrest
        exact ⟨t, List.mem_cons_of_mem _ ht, hst⟩

/-- Schemas are not equal to symbolic operations on them: each of them would be equal to an operation
on another one, in which fewer operations stand one in the other. -/
lemma equalAll_eq_false_of_subset {op : BinaryOperator} {left : Schema}
    {rights members : List Schema} (hmembers : members ⊆ rights.map (binary op left))
    (hrights : rights ≠ []) : equalAll rights members = false := by
  by_contra h
  rw [Bool.not_eq_false] at h
  have hdescent : ∀ n, ∀ right ∈ rights, delay right ≠ n := by
    intro n
    induction n using Nat.strongRecOn with
    | ind n ih =>
      intro right hright hn
      obtain ⟨member, hmember, hequal⟩ := exists_equal_of_equalAll h hright
      obtain ⟨shorter, hshorter, rfl⟩ := List.mem_map.1 (hmembers hmember)
      have hdelay := delay_eq_of_equal hequal
      rw [delay] at hdelay
      exact ih (delay shorter) (by omega) shorter hshorter rfl
  obtain ⟨right, hright⟩ := List.exists_mem_of_ne_nil _ hrights
  exact hdescent _ right hright rfl

section

variable {op : BinaryOperator} {l : Schema} (hl : l.isStructured = true) (hop : op ≠ .comma)

include hl

lemma foldPair_of_isStructured (r : Schema) : foldPair op l r = binary op l r := by
  cases l with
  | object | array | tuple | function => rfl
  | _ => cases hl

include hop

/-- An operation on a structured operand stays symbolic, as a whole or for each alternative of the
other operand. -/
lemma foldBinary_of_isStructured (r : Schema) (cap : Nat) :
    foldBinary op l r cap = binary op l r ∨
      ∃ members ⊆ r.alternatives.map (binary op l), (members = [] → r.alternatives = []) ∧
        foldBinary op l r cap = ofMembers members := by
  have hone : l.alternatives = [l] := by
    cases l with
    | union => cases hl
    | _ => rfl
  rw [foldBinary_eq hop, hone]
  split
  · have hpairs : foldPair op l = binary op l := funext (foldPair_of_isStructured hl)
    have hself : (r.alternatives.map (binary op l)).flatMap alternatives =
        r.alternatives.map (binary op l) := by
      rw [List.flatMap_map]
      exact List.map_eq_flatMap.symm
    have hresult : ∀ s ∈ r.alternatives.map (binary op l), s.IsResult :=
      List.forall_mem_map.2 fun right _ => .binary op l right
    have hunion := @unionOf_of_isResult (r.alternatives.map (binary op l))
    rw [hself] at hunion
    rw [List.flatMap_singleton, hpairs, hunion hresult]
    -- no truth values are among symbolic operations, so that all members are among these
    have hjoined := joined_members fun s hs => hresult s (mem_of_mem_dedupe hs)
    refine Or.inr ⟨_, fun s hs => ?_, fun hnil => ?_, rfl⟩
    · rcases hjoined.sound s hs with hin | ⟨-, htrue, -⟩
      · exact mem_of_mem_dedupe hin
      · obtain ⟨right, -, heq⟩ := List.mem_map.1 (mem_of_mem_dedupe htrue)
        cases heq
    · by_contra hne
      obtain ⟨right, hright⟩ := List.exists_mem_of_ne_nil _ hne
      obtain ⟨member, hmember, -⟩ := exists_mem_dedupe (List.mem_map_of_mem (f := binary op l) hright)
      obtain ⟨kept, hkept, -⟩ := hjoined.complete member hmember
      rw [hnil] at hkept
      cases hkept
  · exact Or.inl rfl

/-- What stays symbolic is not the left operand. -/
lemma equal_left_foldBinary (r : Schema) (cap : Nat) : equal l (foldBinary op l r cap) = false := by
  have hother : ∀ s : Schema, s.isStructured = false → equal l s = false := by
    intro s hs
    cases l with
    | object | array | tuple | function =>
      cases s with
      | object | array | tuple | function => cases hs
      | _ => rfl
    | _ => cases hl
  refine hother _ ?_
  rcases foldBinary_of_isStructured hl hop r cap with heq | ⟨members, hmembers, -, heq⟩
  · rw [heq]
    rfl
  · rw [heq]
    match members with
    | [] => rfl
    | [member] =>
      obtain ⟨right, -, rfl⟩ := List.mem_map.1 (hmembers (List.mem_singleton_self member))
      rfl
    | _ :: _ :: _ => rfl

/-- What stays symbolic is not the right operand either. -/
lemma equal_right_foldBinary (r : Schema) (cap : Nat) : equal r (foldBinary op l r cap) = false := by
  have hwhole : ∀ right, delay r ≤ delay right → equal r (binary op l right) = false := by
    intro right hle
    by_contra h
    rw [Bool.not_eq_false] at h
    have hdelay := delay_eq_of_equal h
    rw [delay] at hdelay
    omega
  rcases foldBinary_of_isStructured hl hop r cap with heq | ⟨members, hmembers, hnil, heq⟩
  · rw [heq]
    exact hwhole r (Nat.le_refl _)
  · rw [heq]
    cases r with
    | union items =>
      match members with
      | [] => rfl
      | [member] =>
        obtain ⟨right, -, rfl⟩ := List.mem_map.1 (hmembers (List.mem_singleton_self member))
        rfl
      | first :: second :: rest =>
        refine equalAll_eq_false_of_subset hmembers fun hitems => ?_
        have hempty := hmembers (List.mem_cons_self ..)
        rw [show (union items).alternatives = [] from hitems] at hempty
        cases hempty
    | _ =>
      match members with
      | [] => cases hnil rfl
      | [member] =>
        obtain ⟨right, hright, rfl⟩ := List.mem_map.1 (hmembers (List.mem_singleton_self member))
        obtain rfl := List.mem_singleton.1 hright
        exact hwhole _ (Nat.le_refl _)
      | _ :: _ :: _ => rfl

end

end Schema

namespace Evaluation

/-! ## Evaluation and folding -/

lemma selection?_of_isStructured {l : Schema} (hl : l.isStructured = true) {op : BinaryOperator}
    (hlogical : op.isLogical = true) (hcomma : op ≠ .comma) :
    selection? op l = some (if op = .logicalAnd then .right else .left) := by
  cases l with
  | object | array | tuple | function =>
    cases op with
    | logicalAnd | logicalOr | nullishCoalescing => rfl
    | comma => exact absurd rfl hcomma
    | _ => cases hlogical
  | _ => cases hl

lemma selection?_of_not_isStructured {l : Schema} (hl : l.isStructured = false)
    (op : BinaryOperator) : selection? op l = none := by
  cases l with
  | literal | union => rfl
  | object | array | tuple | function => cases hl
  | _ => cases op <;> rfl

/-- If both operands of `&&`, `||` or `??` have schemas, then so has the operation.  It is what the
operator gives for the two schemas, and what a symbolic operation becomes once its operands do, if
the left operand is not structured.  If it is, then the operation is the operand that the operator
selects, which is not what the operator gives for the two schemas, however many alternatives are
allowed. -/
theorem binary_of_logical {e : Evaluator} {b : Branch} {op : BinaryOperator}
    (hlogical : op.isLogical = true) (hcomma : op ≠ .comma) {left right : NodeId}
    {s middle t : Session} {l r : Schema} (hleft : e.node b left s = (.ok l, middle))
    (hright : e.node b right middle = (.ok r, t)) :
    ∃ schema u, binary e b op left right s = (.ok schema, u) ∧
      (l.isStructured = false → schema = Schema.foldBinary op l r t.options.maxUnionExpansion) ∧
      (l.isStructured = true → schema = (if op = .logicalAnd then r else l) ∧
        ∀ cap, schema.equal (Schema.foldBinary op l r cap) = false) ∧
      ∀ value? cap a c, (Schema.substitute value? a).refold cap = l →
        (Schema.substitute value? c).refold cap = r →
        ((Schema.binary op a c).substitute value?).refold cap = Schema.foldBinary op l r cap := by
  have hrefold : ∀ value? cap a c, (Schema.substitute value? a).refold cap = l →
      (Schema.substitute value? c).refold cap = r →
      ((Schema.binary op a c).substitute value?).refold cap = Schema.foldBinary op l r cap := by
    rintro value? cap a c rfl rfl
    exact Schema.refold_substitute_binary value? cap op a c
  cases hl : l.isStructured with
  | false =>
    refine ⟨Schema.foldBinary op l r t.options.maxUnionExpansion, t, ?_, fun _ => rfl,
      fun h => (by cases h), hrefold⟩
    rw [binary, Run.bind_of_ok hleft, selection?_of_not_isStructured hl]
    dsimp only
    rw [Run.bind_of_ok hright]
    rfl
  | true =>
    have hselection := selection?_of_isStructured hl hlogical hcomma
    by_cases hand : op = .logicalAnd
    · rw [if_pos hand] at hselection
      refine ⟨r, t, ?_, fun h => (by cases h), fun _ => ⟨(if_pos hand).symm, fun cap => ?_⟩, hrefold⟩
      · rw [binary, Run.bind_of_ok hleft, hselection]
        exact hright
      · exact Schema.equal_right_foldBinary hl hcomma r cap
    · rw [if_neg hand] at hselection
      refine ⟨l, middle, ?_, fun h => (by cases h), fun _ => ⟨(if_neg hand).symm, fun cap => ?_⟩,
        hrefold⟩
      · rw [binary, Run.bind_of_ok hleft, hselection]
        rfl
      · exact Schema.equal_left_foldBinary hl hcomma r cap

/-- An operation on a parameter: `function foo(n) {}  function bar(x) { foo(x && "a") }  bar({})`. -/
def guarded : Draft :=
  let forms : List Form :=
    [.identifier "n", .parameter ⟨0⟩ none false, .identifier "foo", .block [],
      .functionDeclaration ⟨some ⟨2⟩, [⟨1⟩], some ⟨3⟩, false, false⟩,
      .identifier "x", .parameter ⟨5⟩ none false, .identifier "x", .stringLiteral "a",
      .binary .logicalAnd ⟨7⟩ ⟨8⟩, .identifier "foo", .call ⟨10⟩ [⟨9⟩], .expressionStatement ⟨11⟩,
      .identifier "bar", .block [⟨12⟩],
      .functionDeclaration ⟨some ⟨13⟩, [⟨6⟩], some ⟨14⟩, false, false⟩,
      .objectLiteral [], .identifier "bar", .call ⟨17⟩ [⟨16⟩], .expressionStatement ⟨18⟩,
      .sourceFile "main.ts" [⟨4⟩, ⟨15⟩, ⟨19⟩]]
  forms.foldl (fun d form => (d.add form).2) {}

set_option maxRecDepth 2000 in
/-- The object in `guarded` and the text make up `"a"` if they are evaluated under `&&`.  But `foo` is
called with a symbolic operation on them, since the object came in later. -/
theorem binary_guarded :
    (∃ t, binary (evaluator guarded.finish.host 2) {} .logicalAnd ⟨16⟩ ⟨8⟩ { options := {} } =
      (.ok (.string "a"), t)) ∧
    (∀ cap, Schema.equal (.string "a")
      (Schema.foldBinary .logicalAnd (.objectOf []) (.string "a") cap) = false) ∧
    ∃ calls t, Propagation.functionCalls guarded.finish.host (Context.start {}) ⟨0⟩
        { options := {} } = (.ok calls, t) ∧ calls.length = 1 ∧
      ∀ call ∈ calls, Schema.equalAll call.arguments
        [.binary .logicalAnd (.objectOf []) (.string "a")] = true := by
  have hleft : (evaluator guarded.finish.host 2).node {} ⟨16⟩ { options := {} } =
      (.ok (.objectOf []), { options := {} }) := rfl
  have hright : (evaluator guarded.finish.host 2).node {} ⟨8⟩ { options := {} } =
      (.ok (.string "a"), { options := {} }) := rfl
  obtain ⟨schema, u, hrun, -, hstructured, -⟩ :=
    binary_of_logical (show BinaryOperator.logicalAnd.isLogical = true from rfl) (by decide) hleft
      hright
  obtain ⟨hschema, hother⟩ := hstructured rfl
  rw [if_pos rfl] at hschema
  subst hschema
  refine ⟨⟨u, hrun⟩, hother, ?_⟩
  have hcalls : Run.passes
      (Propagation.functionCalls guarded.finish.host (Context.start {}) ⟨0⟩) { options := {} }
      (fun calls _ => calls.length == 1 && calls.all fun call =>
        Schema.equalAll call.arguments [.binary .logicalAnd (.objectOf []) (.string "a")]) = true := by
    decide +kernel
  obtain ⟨calls, after, hrun, htest⟩ := Run.exists_of_passes hcalls
  rw [Bool.and_eq_true, beq_iff_eq, List.all_eq_true] at htest
  exact ⟨calls, after, hrun, htest⟩

end Evaluation

end ValueSchema
