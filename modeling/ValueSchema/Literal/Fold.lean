/-
# Folding operators over literals

The value of an operator applied to literals.  There is none if the operation would fail when run,
if it mixes big integers with other kinds, or if a big integer leaves the range of 128 bits; such an
expression stays symbolic.
-/
import ValueSchema.Literal.Conversion
import ValueSchema.Operator
import ValueSchema.Text.Units

namespace ValueSchema.Literal

/-! ## Arithmetic -/

/-- The arithmetic of doubles and of the words cut from them. -/
def foldNumbers (op : BinaryOperator) (a b : Float) : Option Float :=
  let signed (n : Int32) : Float := Number.ofInteger n.toInt
  -- The shift count is the low five bits of the right operand.
  let count : Nat := (Number.toWord b).toNat % 32
  let left := Number.toSignedWord a
  let right := Number.toSignedWord b
  match op with
  | .add => some (a + b)
  | .subtract => some (a - b)
  | .multiply => some (a * b)
  | .divide => some (a / b)
  | .remainder => some (Number.remainder a b)
  | .exponent => some (Number.power a b)
  | .bitwiseAnd => some (signed (left &&& right))
  | .bitwiseOr => some (signed (left ||| right))
  | .bitwiseXor => some (signed (left ^^^ right))
  | .leftShift => some (signed (left <<< Int32.ofNat count))
  | .rightShift => some (signed (left >>> Int32.ofNat count))
  | .unsignedRightShift => some (Number.ofInteger (Number.toWord a >>> UInt32.ofNat count).toNat)
  | _ => none

/-- The exact arithmetic of integers of 128 bits. -/
def foldIntegers (op : BinaryOperator) (a b : Int) : Option Int :=
  match op with
  | .add => Number.wide? (a + b)
  | .subtract => Number.wide? (a - b)
  | .multiply => Number.wide? (a * b)
  | .divide => Number.divide? a b
  | .remainder => Number.modulo? a b
  | .exponent => Number.power? a b
  | .bitwiseAnd => some (Number.bitwise (· &&& ·) a b)
  | .bitwiseOr => some (Number.bitwise (· ||| ·) a b)
  | .bitwiseXor => some (Number.bitwise (· ^^^ ·) a b)
  | .leftShift => Number.shiftLeft? a b
  | .rightShift => Number.shiftRight? a b
  | _ => none

/-- Arithmetic on two literals: of two big integers, or of anything else as numbers. -/
def foldArithmetic (op : BinaryOperator) : Literal → Literal → Option Literal
  | bigint a, bigint b => do
    let n ← foldIntegers op (← Integer.read? a) (← Integer.read? b)
    return bigint (Integer.write n)
  | a, b => do
    -- A big integer on one side only has no number, so nothing is folded.
    let x ← foldNumbers op (← a.toNumber?) (← b.toNumber?)
    return number x

/-- Addition joins texts as soon as one operand is a text. -/
def foldAdd : Literal → Literal → Option Literal
  | string a, b => some (string (a ++ b.toText))
  | a, string b => some (string (a.toText ++ b))
  | a, b => foldArithmetic .add a b

/-! ## Comparison -/

/-- `===`.  Big integers are compared by value if both can be read, else by their digits. -/
def strictEquals : Literal → Literal → Bool
  | number a, number b => a == b
  | string a, string b => a == b
  | bigint a, bigint b =>
    match Integer.read? a, Integer.read? b with
    | some x, some y => x == y
    | _, _ => a == b
  | boolean a, boolean b => a == b
  | null, null => true
  | undefined, undefined => true
  | _, _ => false

/-- `==` between a big integer and a literal of another kind that is not nullish.  Both sides are
compared as doubles. -/
def integerEquals (digits : String) (other : Literal) : Option Bool := do
  let n ← Integer.read? digits
  let big := Number.ofInteger n
  match other with
  | string s =>
    let read := Integer.read? (String.ofList (Text.trimBlanks s.toList))
    return read.any fun m => Number.ofInteger m == big
  | _ => return other.toNumber?.any fun x => x == big

/-- Whether two literals are of one kind. -/
def sameKind : Literal → Literal → Bool
  | string _, string _ => true
  | number _, number _ => true
  | bigint _, bigint _ => true
  | boolean _, boolean _ => true
  | null, null => true
  | undefined, undefined => true
  | _, _ => false

/-- `==`.  There is no answer if a big integer cannot be read. -/
def looseEquals (a b : Literal) : Option Bool :=
  if sameKind a b then some (strictEquals a b)
  else if a.isNullish || b.isNullish then some (a.isNullish && b.isNullish)
  else
    match a, b with
    | bigint digits, other => integerEquals digits other
    | other, bigint digits => integerEquals digits other
    | _, _ => do return (← a.toNumber?) == (← b.toNumber?)

/-- The order of two doubles; none if one of them is not a number. -/
def compareNumbers (x y : Float) : Option Ordering :=
  if x < y then some .lt else if y < x then some .gt else if x == y then some .eq else none

/-- A literal as a double for a comparison, where big integers take part. -/
def toComparable? : Literal → Option Float
  | bigint digits => (Integer.read? digits).map Number.ofInteger
  | a => a.toNumber?

/-- The order of two literals.  The outer `none` is a big integer that cannot be read, the inner one
an operand that is not a number. -/
def compare? : Literal → Literal → Option (Option Ordering)
  | string a, string b => some (some (Text.compareUnits a b))
  | bigint a, bigint b => do return some (compare (← Integer.read? a) (← Integer.read? b))
  | a, b => do return compareNumbers (← a.toComparable?) (← b.toComparable?)

/-- A relational operator.  It is false on operands without an order. -/
def foldOrder (test : Ordering → Bool) (a b : Literal) : Option Literal :=
  (compare? a b).map fun order => boolean (order.any test)

/-! ## All operators -/

/-- The value of a binary operator. -/
def foldBinary (op : BinaryOperator) (a b : Literal) : Option Literal :=
  match op with
  | .logicalAnd => some (if a.isTruthy then b else a)
  | .logicalOr => some (if a.isTruthy then a else b)
  | .nullishCoalescing => some (if a.isNullish then b else a)
  | .comma => some b
  | .add => foldAdd a b
  | .subtract | .multiply | .divide | .remainder | .exponent | .bitwiseAnd | .bitwiseOr
  | .bitwiseXor | .leftShift | .rightShift | .unsignedRightShift => foldArithmetic op a b
  | .strictEquals => some (boolean (strictEquals a b))
  | .strictNotEquals => some (boolean !(strictEquals a b))
  | .equals => (looseEquals a b).map boolean
  | .notEquals => (looseEquals a b).map fun e => boolean !e
  | .lessThan => foldOrder (· == .lt) a b
  | .greaterThan => foldOrder (· == .gt) a b
  | .lessThanEquals => foldOrder (· != .gt) a b
  | .greaterThanEquals => foldOrder (· != .lt) a b
  -- These need an object on the right.
  | .isIn | .isInstance => none

/-- The value of a unary operator on an integer. -/
def foldUnaryInteger (op : UnaryOperator) (fixity : Fixity) (n : Int) : Option Int :=
  match op, fixity with
  | .minus, _ => Number.wide? (-n)
  | .tilde, _ => some (-n - 1)
  | .plusPlus, .before => Number.wide? (n + 1)
  | .minusMinus, .before => Number.wide? (n - 1)
  | .plusPlus, .after | .minusMinus, .after => some n
  | _, _ => none

/-- The value of a unary operator on a double. -/
def foldUnaryNumber (op : UnaryOperator) (fixity : Fixity) (x : Float) : Option Float :=
  match op, fixity with
  | .plus, _ => some x
  | .minus, _ => some (-x)
  | .tilde, _ => some (Number.ofInteger (~~~Number.toSignedWord x).toInt)
  | .plusPlus, .before => some (x + 1)
  | .minusMinus, .before => some (x + -1)
  | .plusPlus, .after | .minusMinus, .after => some x
  | _, _ => none

/-- The value of a unary operator.  A big integer must be readable, whatever the operator. -/
def foldUnary (op : UnaryOperator) (fixity : Fixity) (a : Literal) : Option Literal :=
  let any : Option Literal :=
    match op with
    | .exclamation => some (boolean !a.isTruthy)
    | .typeOf => some (string a.typeName)
    | .void => some undefined
    | _ => none
  match a with
  | bigint digits => do
    let n ← Integer.read? digits
    any <|> (foldUnaryInteger op fixity n).map fun m => bigint (Integer.write m)
  | _ => any <|> do
    let x ← foldUnaryNumber op fixity (← a.toNumber?)
    return number x

end ValueSchema.Literal
