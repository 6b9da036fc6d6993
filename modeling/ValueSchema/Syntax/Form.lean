/-
# Forms of nodes

A node of a program has a form: its kind together with the nodes and texts it is made of.  The forms
cover the expressions, statements and declarations that can be evaluated.
-/
import ValueSchema.Operator
import ValueSchema.Syntax.Id

namespace ValueSchema

/-- How a variable is declared. -/
inductive VariableKind where
  /-- Cannot be assigned again. -/
  | const
  /-- Belongs to the block it stands in. -/
  | block
  /-- Belongs to the function it stands in. -/
  | function
deriving DecidableEq, Repr, Inhabited

/-- The kind of variable that a keyword declares. -/
def VariableKind.ofKeyword? : String → Option VariableKind
  | "const" => some .const
  | "let" => some .block
  | "var" => some .function
  | _ => none

/-- What all kinds of functions are made of. -/
structure FunctionForm where
  /-- The name of the function, if it has one. -/
  name : Option NodeId
  /-- The parameters. -/
  parameters : List NodeId
  /-- A block, or the expression that an arrow function yields. -/
  body : Option NodeId
  /-- Whether a call yields a promise. -/
  isAsync : Bool
  /-- Whether a call yields a generator. -/
  isGenerator : Bool
deriving DecidableEq, Repr, Inhabited

/-- The form of a node. -/
inductive Form where
  | sourceFile (fileName : String) (statements : List NodeId)
  | block (statements : List NodeId)
  | variableStatement (declarations : List NodeId)
  | variableDeclaration (name : NodeId) (value : Option NodeId) (kind : VariableKind)
  | expressionStatement (expression : NodeId)
  | returnStatement (expression : Option NodeId)
  | ifStatement (condition whenTrue : NodeId) (whenFalse : Option NodeId)
  | functionDeclaration (function : FunctionForm)
  | identifier (text : String)
  | numericLiteral (value : Float)
  | stringLiteral (value : String)
  | bigIntLiteral (text : String)
  | trueKeyword
  | falseKeyword
  | nullKeyword
  /-- A text, and then expressions each followed by a text. -/
  | templateExpression (head : String) (spans : List (NodeId × String))
  | objectLiteral (properties : List NodeId)
  | propertyAssignment (name value : NodeId)
  | shorthandProperty (name : NodeId)
  | spreadAssignment (expression : NodeId)
  | methodDeclaration (function : FunctionForm)
  | computedName (expression : NodeId)
  | arrayLiteral (elements : List NodeId)
  | spreadElement (expression : NodeId)
  | omittedExpression
  | binary (operator : BinaryOperator) (left right : NodeId)
  | unary (operator : UnaryOperator) (fixity : Fixity) (operand : NodeId)
  | conditional (condition whenTrue whenFalse : NodeId)
  | parenthesized (expression : NodeId)
  | typeAssertion (expression : NodeId)
  | await (expression : NodeId)
  | call (callee : NodeId) (arguments : List NodeId)
  | propertyAccess (expression name : NodeId)
  | elementAccess (expression argument : NodeId)
  | functionExpression (function : FunctionForm)
  | arrowFunction (function : FunctionForm)
  | parameter (name : NodeId) (value : Option NodeId) (isRest : Bool)
  | jsxElement (tagName : String) (attributes children : List NodeId)
  | jsxFragment (children : List NodeId)
  | jsxAttribute (name : String) (value : Option NodeId)
  | jsxSpreadAttribute (expression : NodeId)
  | jsxText (text : String)
  | jsxExpression (expression : Option NodeId)
deriving Inhabited

namespace Form

/-- The name of the kind of a form. -/
def kindName : Form → String
  | sourceFile .. => "SourceFile"
  | block .. => "Block"
  | variableStatement .. => "VariableStatement"
  | variableDeclaration .. => "VariableDeclaration"
  | expressionStatement .. => "ExpressionStatement"
  | returnStatement .. => "ReturnStatement"
  | ifStatement .. => "IfStatement"
  | functionDeclaration .. => "FunctionDeclaration"
  | identifier .. => "Identifier"
  | numericLiteral .. => "NumericLiteral"
  | stringLiteral .. => "StringLiteral"
  | bigIntLiteral .. => "BigIntLiteral"
  | trueKeyword => "TrueKeyword"
  | falseKeyword => "FalseKeyword"
  | nullKeyword => "NullKeyword"
  | templateExpression .. => "TemplateExpression"
  | objectLiteral .. => "ObjectLiteral"
  | propertyAssignment .. => "PropertyAssignment"
  | shorthandProperty .. => "ShorthandPropertyAssignment"
  | spreadAssignment .. => "SpreadAssignment"
  | methodDeclaration .. => "MethodDeclaration"
  | computedName .. => "ComputedPropertyName"
  | arrayLiteral .. => "ArrayLiteral"
  | spreadElement .. => "SpreadElement"
  | omittedExpression => "OmittedExpression"
  | binary .. => "Binary"
  | unary _ .before _ => "PrefixUnary"
  | unary _ .after _ => "PostfixUnary"
  | conditional .. => "Conditional"
  | parenthesized .. => "Parenthesized"
  | typeAssertion .. => "TypeAssertion"
  | await .. => "Await"
  | call .. => "Call"
  | propertyAccess .. => "PropertyAccess"
  | elementAccess .. => "ElementAccess"
  | functionExpression .. => "FunctionExpression"
  | arrowFunction .. => "ArrowFunction"
  | parameter .. => "Parameter"
  | jsxElement .. => "JsxElement"
  | jsxFragment .. => "JsxFragment"
  | jsxAttribute .. => "JsxAttribute"
  | jsxSpreadAttribute .. => "JsxSpreadAttribute"
  | jsxText .. => "JsxText"
  | jsxExpression .. => "JsxExpression"

/-- What a function is made of, for the forms that are functions. -/
def function? : Form → Option FunctionForm
  | functionDeclaration f | functionExpression f | arrowFunction f | methodDeclaration f => some f
  | _ => none

/-- Whether a form is a function. -/
def isFunction (f : Form) : Bool := f.function?.isSome

/-- The nodes that a function is made of, in the order of the source. -/
def functionChildren (f : FunctionForm) : List NodeId :=
  f.name.toList ++ f.parameters ++ f.body.toList

/-- The nodes that a form is made of, in the order of the source. -/
def children : Form → List NodeId
  | sourceFile _ statements | block statements => statements
  | variableStatement declarations => declarations
  | variableDeclaration name value _ => name :: value.toList
  | expressionStatement e | spreadAssignment e | computedName e | spreadElement e
  | parenthesized e | typeAssertion e | await e | jsxSpreadAttribute e => [e]
  | returnStatement e | jsxExpression e => e.toList
  | ifStatement condition whenTrue whenFalse => condition :: whenTrue :: whenFalse.toList
  | functionDeclaration f | functionExpression f | arrowFunction f | methodDeclaration f =>
    functionChildren f
  | templateExpression _ spans => spans.map (·.1)
  | objectLiteral properties => properties
  | propertyAssignment name value => [name, value]
  | shorthandProperty name => [name]
  | arrayLiteral elements => elements
  | binary _ left right => [left, right]
  | unary _ _ operand => [operand]
  | conditional condition whenTrue whenFalse => [condition, whenTrue, whenFalse]
  | call callee arguments => callee :: arguments
  | propertyAccess expression name => [expression, name]
  | elementAccess expression argument => [expression, argument]
  | parameter name value _ => name :: value.toList
  | jsxElement _ attributes children => attributes ++ children
  | jsxFragment children => children
  | jsxAttribute _ value => value.toList
  | identifier _ | numericLiteral _ | stringLiteral _ | bigIntLiteral _ | trueKeyword | falseKeyword
  | nullKeyword | omittedExpression | jsxText _ => []

end Form

end ValueSchema
