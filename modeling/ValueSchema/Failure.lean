/-
# Failures of an evaluation

Why an evaluation ends without a schema, and the message for it.  A failure may carry the place
where it came up; the innermost place counts.
-/
import ValueSchema.Source

namespace ValueSchema

/-- Why an evaluation failed. -/
inductive Cause where
  /-- A reference names a definition that was never registered. -/
  | definitionNotFound (id : String)
  /-- A symbol has no declaration. -/
  | missingDeclaration (subject : String)
  /-- Something else was expected at a place. -/
  | unexpectedSchema (expected found : String)
  /-- A node of this kind cannot be evaluated. -/
  | unsupportedNode (kind : String)
deriving DecidableEq, Repr, Inhabited

/-- The message of a cause. -/
def Cause.message : Cause → String
  | definitionNotFound id => "definition `" ++ id ++ "` not found"
  | missingDeclaration subject => "missing declaration for " ++ subject
  | unexpectedSchema expected found => "expected " ++ expected ++ " schema, found " ++ found
  | unsupportedNode kind => "unsupported node kind `" ++ kind ++ "`"

/-- A failed evaluation: its cause, and the place and subject of the evaluation that failed. -/
structure Failure where
  /-- Why it failed. -/
  cause : Cause
  /-- Where it failed, and on what kind of node. -/
  context : Option (Location × String) := none
deriving DecidableEq, Repr, Inhabited

namespace Failure

/-- Adds the place of a failure, unless it has one. -/
def withContext (f : Failure) (location : Location) (subject : String) : Failure :=
  { f with context := f.context.or (some (location, subject)) }

/-- The message of a failure. -/
def message (f : Failure) : String :=
  match f.context with
  | some (location, subject) =>
    location.text ++ ": while evaluating " ++ subject ++ ": " ++ f.cause.message
  | none => f.cause.message

end Failure

end ValueSchema
