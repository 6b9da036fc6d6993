/-
# Operators

The binary and unary operators of expressions, their texts, and the groups that the folding rules
and the printers distinguish.
-/

namespace ValueSchema

/-- Binary operators. -/
inductive BinaryOperator where
  | add
  | subtract
  | multiply
  | divide
  | remainder
  | exponent
  | bitwiseAnd
  | bitwiseOr
  | bitwiseXor
  | leftShift
  | rightShift
  | unsignedRightShift
  | equals
  | notEquals
  | strictEquals
  | strictNotEquals
  | lessThan
  | greaterThan
  | lessThanEquals
  | greaterThanEquals
  | logicalAnd
  | logicalOr
  | nullishCoalescing
  | comma
  | isIn
  | isInstance
deriving DecidableEq, Repr, Inhabited

namespace BinaryOperator

/-- All binary operators. -/
def all : List BinaryOperator :=
  [add, subtract, multiply, divide, remainder, exponent, bitwiseAnd, bitwiseOr, bitwiseXor,
    leftShift, rightShift, unsignedRightShift, equals, notEquals, strictEquals, strictNotEquals,
    lessThan, greaterThan, lessThanEquals, greaterThanEquals, logicalAnd, logicalOr,
    nullishCoalescing, comma, isIn, isInstance]

/-- The text of an operator. -/
def text : BinaryOperator → String
  | add => "+"
  | subtract => "-"
  | multiply => "*"
  | divide => "/"
  | remainder => "%"
  | exponent => "**"
  | bitwiseAnd => "&"
  | bitwiseOr => "|"
  | bitwiseXor => "^"
  | leftShift => "<<"
  | rightShift => ">>"
  | unsignedRightShift => ">>>"
  | equals => "=="
  | notEquals => "!="
  | strictEquals => "==="
  | strictNotEquals => "!=="
  | lessThan => "<"
  | greaterThan => ">"
  | lessThanEquals => "<="
  | greaterThanEquals => ">="
  | logicalAnd => "&&"
  | logicalOr => "||"
  | nullishCoalescing => "??"
  | comma => ","
  | isIn => "in"
  | isInstance => "instanceof"

/-- The operator with a given text. -/
def ofText? (s : String) : Option BinaryOperator := all.find? fun op => op.text == s

theorem mem_all (op : BinaryOperator) : op ∈ all := by cases op <;> decide

theorem ofText?_text (op : BinaryOperator) : ofText? op.text = some op := by
  cases op <;> decide

/-- The operators whose result is always a boolean. -/
def isRelational : BinaryOperator → Bool
  | equals | notEquals | strictEquals | strictNotEquals | lessThan | greaterThan
  | lessThanEquals | greaterThanEquals | isIn | isInstance => true
  | _ => false

/-- The operators that select one of their operands. -/
def isLogical : BinaryOperator → Bool
  | logicalAnd | logicalOr | nullishCoalescing | comma => true
  | _ => false

end BinaryOperator

/-- Unary operators. -/
inductive UnaryOperator where
  | plus
  | minus
  | tilde
  | exclamation
  | plusPlus
  | minusMinus
  | typeOf
  | void
deriving DecidableEq, Repr, Inhabited

namespace UnaryOperator

/-- The text of an operator. -/
def text : UnaryOperator → String
  | plus => "+"
  | minus => "-"
  | tilde => "~"
  | exclamation => "!"
  | plusPlus => "++"
  | minusMinus => "--"
  | typeOf => "typeof"
  | void => "void"

/-- All operators, with their names. -/
def named : List (String × UnaryOperator) :=
  [("Plus", plus), ("Minus", minus), ("Tilde", tilde), ("Exclamation", exclamation),
    ("PlusPlus", plusPlus), ("MinusMinus", minusMinus), ("TypeOf", typeOf), ("Void", void)]

/-- The operator with a given name; names tell `+` the sign from `+` the sum. -/
def ofName? (name : String) : Option UnaryOperator := named.lookup name

end UnaryOperator

/-- On which side of its operand a unary operator stands.  It matters for `++` and `--`: after the
operand, they yield its old value. -/
inductive Fixity where
  | before
  | after
deriving DecidableEq, Repr, Inhabited

end ValueSchema
