/-
# Unary operators on inputs

A unary operator on an input cannot be computed before the value of the input is known.  Until then
`reexpressUnary` writes it as something else, in which the value can be filled in later.

* The operators of arithmetic become a binary operation with a constant.  Once the value is filled
  in, folding it gives what the unary operator gives: `0 - x` for `-x`, `x ^ -1` for `~x`,
  `x - -1` for `++x` and `x * 1` for `+x` differ in the sign of a zero at most.
* What `void` gives is known at once, and so is what `typeof` gives for an input of a definite type.
* The result of `!`, and of `typeof` for an input that can be anything, becomes a type that stands
  for the *same* input.  What is filled in there is the operand and not the result.

So late folding agrees with early folding exactly where the last case does not apply, or applies by
accident: `typeof` gives `"string"` for the text `"string"`.  This is `equal_refold_foldUnary_iff`.
-/
import ValueSchema.Proofs.Number.Exact
import ValueSchema.Proofs.Schema.Normal

namespace ValueSchema

/-- The operators that compute with a number. -/
def UnaryOperator.isArithmetic : UnaryOperator → Bool
  | .exclamation | .typeOf | .void => false
  | _ => true

namespace Literal

/-- Whether a literal is a value of a primitive type. -/
def isOf (value : Literal) : Primitive → Bool
  | .any | .unknown => true
  | .void => match value with
    | undefined => true
    | _ => false
  | kind => value.primitive? == some kind

variable {value left right : Literal} {a b x y : Float}

/-- Only a big integer cannot be converted to a number. -/
lemma exists_toNumber? (h : value.primitive? ≠ some .bigint) : ∃ x, value.toNumber? = some x := by
  cases value with
  | bigint digits => exact absurd rfl h
  | boolean b => cases b <;> exact ⟨_, rfl⟩
  | _ => exact ⟨_, rfl⟩

/-- Arithmetic on what can be converted to numbers is arithmetic on the numbers. -/
lemma foldArithmetic_of_toNumber? {op : BinaryOperator} (ha : left.toNumber? = some a)
    (hb : right.toNumber? = some b) (h : foldNumbers op a b = some y) :
    foldArithmetic op left right = some (number y) := by
  cases left with
  | bigint digits => cases ha
  | _ =>
    rw [foldArithmetic, ha, hb]
    · change (foldNumbers op a b >>= fun z => pure (number z)) = _
      rw [h]
      rfl
    · rintro _ _ ⟨⟩

lemma foldUnary_of_toNumber? {op : UnaryOperator} {fixity : Fixity}
    (hx : value.toNumber? = some x) (h : foldUnaryNumber op fixity x = some y) :
    foldUnary op fixity value = some (number y) := by
  have hcompute : (do
      let z ← foldUnaryNumber op fixity (← value.toNumber?)
      return number z) = some (number y) := by
    rw [hx]
    change (foldUnaryNumber op fixity x >>= fun z => pure (number z)) = _
    rw [h]
    rfl
  cases value with
  | bigint digits => cases hx
  | _ =>
    cases op with
    | exclamation | typeOf | void => cases h
    | _ => exact hcompute

/-- Truth is inverted by `!`, so its result is never its operand. -/
lemma same_not_isTruthy (value : Literal) : value.same (boolean !value.isTruthy) = false := by
  cases value with
  | boolean b => cases b <;> rfl
  | _ => rfl

/-- The only literal that names its own type is the text `"string"`. -/
lemma same_typeName_iff : value.same (string value.typeName) = true ↔ value = string "string" := by
  cases value with
  | string text => simp [same, typeName]
  | _ => simp [same]

end Literal

namespace Schema

variable {value? : NodeId → Option Schema} {n : NodeId} {kind : Primitive} {v : Literal} {cap : Nat}

/-- An operator that needs both operands gives on two literals what it gives on their values. -/
lemma foldBinary_literals {op : BinaryOperator} {l r w : Literal} (hop : op.isLogical = false)
    (h : Literal.foldBinary op l r = some w) (hcap : 1 ≤ cap) :
    foldBinary op (literal l) (literal r) cap = literal w := by
  have hpair : foldPair op (literal l) (literal r) = literal w := by
    cases op with
    | logicalAnd | logicalOr | nullishCoalescing | comma => cases hop
    | _ => simp only [foldPair, literal?, Option.bind_some, h]
  have hcomma : op ≠ .comma := by rintro rfl; cases hop
  rw [foldBinary_eq hcomma, if_pos ⟨hcap, hcap⟩]
  refine unionOf_of_flatMembers_eq_singleton ?_
  change flatMembers [foldPair op (literal l) (literal r)] = _
  rw [hpair]
  rfl

/-- What stands for an input becomes its value. -/
lemma refold_substitute_input (h : value? n = some (literal v)) (kind : Primitive) (cap : Nat) :
    ((primitive kind (some n)).substitute value?).refold cap = literal v := by
  have hsubstitute : (primitive kind (some n)).substitute value? = literal v := by
    rw [substitute, transform_eq]
    change (value? n).getD _ = _
    rw [h]
    rfl
  rw [hsubstitute]
  rfl

lemma refold_substitute_number (value? : NodeId → Option Schema) (c : Float) (cap : Nat) :
    ((number c).substitute value?).refold cap = literal (.number c) := rfl

/-! ## Arithmetic -/

/-- A unary operator on a literal that can be converted to a number. -/
lemma foldUnary_literal {op : UnaryOperator} {fixity : Fixity} {x z : Float}
    (hx : v.toNumber? = some x) (hz : Literal.foldUnaryNumber op fixity x = some z) :
    foldUnary op fixity (literal v) = number z := by
  rw [foldUnary, foldUnaryLiteral, Literal.foldUnary_of_toNumber? hx hz]
  rfl

/-- The operations that unary operators are written as compute with numbers. -/
lemma refold_substitute_arithmetic {op : BinaryOperator} {left right : Schema} {l r : Literal}
    {a b y : Float} (hop : op = .subtract ∨ op = .multiply ∨ op = .bitwiseXor)
    (hleft : (left.substitute value?).refold cap = literal l)
    (hright : (right.substitute value?).refold cap = literal r) (ha : l.toNumber? = some a)
    (hb : r.toNumber? = some b) (hy : Literal.foldNumbers op a b = some y) (hcap : 1 ≤ cap) :
    ((binary op left right).substitute value?).refold cap = number y := by
  have hvalue := Literal.foldArithmetic_of_toNumber? ha hb hy
  rw [refold_substitute_binary, hleft, hright]
  obtain rfl | rfl | rfl := hop <;> exact foldBinary_literals rfl hvalue hcap

/-- An operator of arithmetic gives the same number late and early. -/
lemma equal_refold_arithmetic {op : UnaryOperator} (hop : op.isArithmetic = true) (fixity : Fixity)
    (hvalue : value? n = some (literal v)) {x : Float} (hx : v.toNumber? = some x)
    (kind : Primitive) (hcap : 1 ≤ cap) :
    equal (((foldUnary op fixity (primitive kind (some n))).substitute value?).refold cap)
      (foldUnary op fixity (literal v)) = true := by
  have hinput := refold_substitute_input hvalue kind cap
  -- the input on the left of a constant
  have hleft : ∀ {binaryOp : BinaryOperator} {c y z : Float},
      (binaryOp = .subtract ∨ binaryOp = .multiply ∨ binaryOp = .bitwiseXor) →
      Literal.foldNumbers binaryOp x c = some y → Literal.foldUnaryNumber op fixity x = some z →
      y = z → equal (((binary binaryOp (primitive kind (some n)) (number c)).substitute value?).refold
        cap) (foldUnary op fixity (literal v)) = true := by
    rintro binaryOp c y z hbinary hy hz rfl
    rw [refold_substitute_arithmetic hbinary hinput (refold_substitute_number _ _ _) hx rfl hy hcap,
      foldUnary_literal hx hz]
    exact Literal.same_self _
  have htimes : x * 1 = x := Number.mul_one x
  cases op with
  | exclamation | typeOf | void => cases hop
  | minus =>
    -- here the input stands on the right, and a zero may come out with the other sign
    have hlate : ((binary .subtract (number 0) (primitive kind (some n))).substitute value?).refold
        cap = number (0 - x) :=
      refold_substitute_arithmetic (Or.inl rfl) (refold_substitute_number _ _ _) hinput rfl hx rfl
        hcap
    change equal (((binary .subtract (number 0) (primitive kind (some n))).substitute value?).refold
      cap) _ = true
    rw [hlate, foldUnary_literal hx rfl]
    exact Number.same_zero_sub x
  | tilde =>
    refine hleft (Or.inr (Or.inr rfl)) rfl rfl ?_
    have hones : Number.toSignedWord (-1) = -1 := by rfl
    rw [hones, Int32.xor_neg_one]
  | plus => exact hleft (Or.inr (Or.inl rfl)) rfl rfl htimes
  | plusPlus =>
    cases fixity with
    | before =>
      refine hleft (Or.inl rfl) rfl rfl ?_
      have hone : -(-1 : Float) = 1 := by rfl
      rw [Number.sub_eq_add_neg, hone]
    | after => exact hleft (Or.inr (Or.inl rfl)) rfl rfl htimes
  | minusMinus =>
    cases fixity with
    | before => exact hleft (Or.inl rfl) rfl rfl (Number.sub_eq_add_neg x 1)
    | after => exact hleft (Or.inr (Or.inl rfl)) rfl rfl htimes

/-! ## All operators -/

/-- The operators that take values of all kinds, on a literal. -/
lemma foldUnary_general (h : v.primitive? ≠ some .bigint) (fixity : Fixity) :
    foldUnary .exclamation fixity (literal v) = boolean !v.isTruthy ∧
      foldUnary .typeOf fixity (literal v) = string v.typeName ∧
      foldUnary .void fixity (literal v) = undefined := by
  cases v with
  | bigint digits => exact absurd rfl h
  | _ => exact ⟨rfl, rfl, rfl⟩

lemma foldUnary_typeOf_input (fixity : Fixity) (kind : Primitive) (n : NodeId) :
    foldUnary .typeOf fixity (primitive kind (some n)) =
      match typeNameOf? kind with
      | some name => string name
      | none => primitive .string (some n) := rfl

/-- What `typeof` answers for a definite type is what it answers for the values of the type. -/
lemma typeNameOf?_of_isOf (h : v.isOf kind = true) :
    (kind = .any ∨ kind = .unknown) ∧ typeNameOf? kind = none ∨
      ¬(kind = .any ∨ kind = .unknown) ∧ typeNameOf? kind = some v.typeName := by
  cases kind <;> cases v <;> simp_all [Literal.isOf, Literal.primitive?, typeNameOf?, Literal.typeName]

/-- A unary operator on an input gives, once the value is filled in, what it gives on the value,
unless its result was written as a type that stands for the operand. -/
theorem equal_refold_foldUnary_iff {op : UnaryOperator} {fixity : Fixity}
    (hvalue : value? n = some (literal v)) (hbigint : v.primitive? ≠ some .bigint)
    (hkind : v.isOf kind = true) (hcap : 1 ≤ cap) :
    equal (((foldUnary op fixity (primitive kind (some n))).substitute value?).refold cap)
        (foldUnary op fixity (literal v)) = true ↔
      op ≠ .exclamation ∧
        (op = .typeOf → kind = .any ∨ kind = .unknown → v = .string "string") := by
  obtain ⟨x, hx⟩ := Literal.exists_toNumber? hbigint
  by_cases harithmetic : op.isArithmetic = true
  · have hequal := equal_refold_arithmetic harithmetic fixity hvalue hx kind hcap
    refine ⟨fun _ => ⟨?_, ?_⟩, fun _ => hequal⟩ <;>
    · rintro rfl
      cases harithmetic
  · have hinput := refold_substitute_input hvalue
    obtain ⟨hnot, htype, hvoid⟩ := foldUnary_general hbigint fixity
    cases op with
    | exclamation =>
      rw [hnot]
      change equal (((primitive .boolean (some n)).substitute value?).refold cap) _ = true ↔ _
      rw [hinput, boolean, equal, Literal.same_not_isTruthy]
      simp
    | typeOf =>
      rw [htype, foldUnary_typeOf_input]
      rcases typeNameOf?_of_isOf hkind with ⟨hany, hname⟩ | ⟨hdefinite, hname⟩
      · rw [hname, hinput, string, equal, Literal.same_typeName_iff]
        exact ⟨fun heq => ⟨by decide, fun _ _ => heq⟩, fun hright => hright.2 rfl hany⟩
      · rw [hname]
        exact ⟨fun _ => ⟨by decide, fun _ hany => absurd hany hdefinite⟩,
          fun _ => Literal.same_self (.string v.typeName)⟩
    | void =>
      rw [hvoid]
      exact ⟨fun _ => ⟨by decide, fun htypeOf => absurd htypeOf (by decide)⟩, fun _ => rfl⟩
    | _ => exact absurd rfl harithmetic

/-- Five for every input. -/
def five (_ : NodeId) : Option Schema := some (number 5)

/-- Filled in, `-x` becomes minus five, and `!x` becomes five and not `false`. -/
theorem equal_refold_foldUnary_five :
    equal (((foldUnary .minus .before (primitive .number (some ⟨1⟩))).substitute five).refold 1)
        (foldUnary .minus .before (number 5)) = true ∧
      ((foldUnary .exclamation .before (primitive .number (some ⟨1⟩))).substitute five).refold 1 =
        number 5 ∧
      ¬equal (((foldUnary .exclamation .before (primitive .number (some ⟨1⟩))).substitute five).refold
        1) (foldUnary .exclamation .before (number 5)) = true := by
  have hfive : (Literal.number 5).primitive? ≠ some .bigint := by decide
  refine ⟨?_, rfl, fun hequal => ?_⟩
  · exact (equal_refold_foldUnary_iff rfl hfive rfl le_rfl).2 ⟨nofun, nofun⟩
  · exact ((equal_refold_foldUnary_iff rfl hfive rfl le_rfl).1 hequal).1 rfl

end Schema

end ValueSchema
