/-
# Nodes that are literals

The schema of a literal is found in two ways, by evaluating the node and by converting its type.  If
the node was given no type, the two say the same of every literal but a big integer whose text is
not canonical: evaluation writes it anew, whereas its type holds the text as it stands in the
source.
-/
import ValueSchema.Proofs.Evaluation.Preservation
import ValueSchema.Proofs.Literal.Numeral
import ValueSchema.Proofs.Literal.Sameness
import ValueSchema.Proofs.Program.ImpliedType

namespace ValueSchema

/-- The literal that a node is.  A big integer has its text as it stands in the source. -/
def Form.literal? : Form → Option Literal
  | .numericLiteral x => some (.number x)
  | .stringLiteral s => some (.string s)
  | .bigIntLiteral text => some (.bigint text)
  | .trueKeyword => some (.boolean true)
  | .falseKeyword => some (.boolean false)
  | .nullKeyword => some .null
  | _ => none

namespace Literal

/-- A literal, of which a big integer has its canonical text. -/
def normalized : Literal → Literal
  | bigint text => bigint (Integer.normalize text)
  | value => value

/-- The structure of the type of a literal. -/
def typeForm : Literal → TypeForm
  | null => .intrinsic .null
  | value => .literal value

lemma normalized_same_iff (value : Literal) :
    value.normalized.same value = true ↔
      ∀ text, value = bigint text → Integer.normalize text = text := by
  cases value with
  | bigint text =>
    rw [normalized, same, beq_iff_eq]
    exact ⟨fun h _ htext => bigint.inj htext ▸ h, fun h => h text rfl⟩
  | _ => exact iff_of_true (same_self _) fun _ h => by cases h

end Literal

namespace Evaluation

variable {host : Host} {n : NodeId} {f : Form} {value : Literal} {id : TypeId}

/-- Evaluating a literal gives it, with its canonical text. -/
lemma schemaOfNode_literal (hform : host.tree.form? n = some f) (hliteral : f.literal? = some value)
    (depth : Nat) (b : Branch) (s : Session) :
    schemaOfNode host (depth + 1) b n s = (.ok (.literal value.normalized), s) := by
  rw [schemaOfNode_succ, node, hform]
  refine Eval.within_of_ok ?_
  cases f <;> cases hliteral <;> rfl

/-- Converting the type of a literal gives the literal as the type has it. -/
lemma convertType_literal (htype : host.types.get? id = some value.typeForm) (depth : Nat)
    (b : Branch) (node : Option NodeId) (s : Session) :
    convertType host (depth + 1) b id node s = (.ok (.literal value), s) := by
  rw [convertType_succ, convert, htype]
  cases value <;> rfl

end Evaluation

lemma Form.impliedType?_of_literal? {f : Form} {value : Literal} (h : f.literal? = some value) :
    Draft.impliedType? f = some value.typeForm := by
  cases f <;> cases h <;> rfl

namespace Draft

variable {d : Draft} {n : NodeId} {f : Form} {value : Literal}

open Evaluation

/-- A literal of a complete program that was given no type has one, and its schema and that of its
type are the same if no depth is left, and else unless the literal is a big integer in a text that
is not canonical: one that can be read and is not the decimal text of its value, or one that cannot
be read and ends in `n`. -/
theorem equal_literal_iff (hform : d.tree.form? n = some f) (hliteral : f.literal? = some value)
    (htype : d.nodeTypes.get? n = none)
    (hnull : value = .null → d.types.get? Intrinsic.null.id = some (.intrinsic .null)) :
    ∃ id, d.finish.host.typeOfNode n = some id ∧
      (∀ b node s, ∃ t, schemaOfNode d.finish.host 0 b n s = (.ok .unknown, t) ∧
        convertType d.finish.host 0 b id node s = (.ok .unknown, t)) ∧
      (∀ depth b node s,
        schemaOfNode d.finish.host (depth + 1) b n s = (.ok (.literal value.normalized), s) ∧
        convertType d.finish.host (depth + 1) b id node s = (.ok (.literal value), s)) ∧
      (Schema.equal (.literal value.normalized) (.literal value) = true ↔
        ∀ text, value = .bigint text →
          (∃ k : ℤ, -2 ^ 127 ≤ k ∧ k < 2 ^ 127 ∧ text = toString k) ∨
            Integer.read? text = none ∧ text.toList.getLast? ≠ some 'n') := by
  have hintrinsic : ∀ kind, value.typeForm = .intrinsic kind →
      d.types.get? kind.id = some value.typeForm := by
    intro kind hkind
    cases value with
    | null =>
      cases hkind
      exact hnull rfl
    | _ => cases hkind
  obtain ⟨id, hnode, hget⟩ :=
    hasType_finish htype hform (Form.impliedType?_of_literal? hliteral) hintrinsic
  have htree : d.finish.host.tree.form? n = some f := (congrArg (·.form? n) d.tree_finish).trans hform
  refine ⟨id, hnode, fun b node s => ⟨_, rfl, rfl⟩, fun depth b node s => ⟨?_, ?_⟩, ?_⟩
  · exact schemaOfNode_literal htree hliteral depth b s
  · exact convertType_literal hget depth b node s
  · rw [Schema.equal, Literal.normalized_same_iff]
    simp only [Integer.normalize_eq_self_iff, Number.fitsWide_iff, Integer.write_eq_toString,
      and_assoc]

/-- The program `0x10n`. -/
def hexadecimal : Draft := ((({} : Draft).add (.bigIntLiteral "0x10n")).2.add
  (.sourceFile "main.ts" [⟨0⟩])).2

/-- The value of `0x10n` is `16n`, but its type has the text `0x10n`. -/
theorem equal_literal_iff_hexadecimal :
    (∃ id, hexadecimal.finish.host.typeOfNode ⟨0⟩ = some id ∧
      schemaOfNode hexadecimal.finish.host 1 {} ⟨0⟩ {} = (.ok (.literal (.bigint "16")), {}) ∧
      convertType hexadecimal.finish.host 1 {} id none {} =
        (.ok (.literal (.bigint "0x10n")), {})) ∧
      Schema.equal (.literal (.bigint "16")) (.literal (.bigint "0x10n")) = false := by
  have hnormal : Literal.normalized (.bigint "0x10n") = .bigint "16" := by
    rw [Literal.normalized]
    exact congrArg _ (by decide +kernel)
  have hform : hexadecimal.tree.form? ⟨0⟩ = some (.bigIntLiteral "0x10n") := rfl
  obtain ⟨id, hid, -, hrun, -⟩ := equal_literal_iff hform rfl rfl fun h => by cases h
  rw [hnormal] at hrun
  exact ⟨⟨id, hid, hrun 0 {} none {}⟩, by decide⟩

end Draft

end ValueSchema
