/-
# Reading from JSON values

Reading fails with a message that names what was expected.
-/
import ValueSchema.Json.Basic

namespace ValueSchema

/-- The outcome of reading something. -/
abbrev Decode := Except String

/-- What is there; else the message that it was expected. -/
def Decode.need {α : Type} (what : String) : Option α → Decode α
  | some a => pure a
  | none => throw ("expected " ++ what)

namespace Json

variable {α : Type}

/-- Reads a text. -/
def asString : Json → Decode String
  | str s => pure s
  | _ => throw "expected a string"

/-- Reads something by its name. -/
def asNamed (what : String) (ofName? : String → Option α) (j : Json) : Decode α := do
  Decode.need what (ofName? (← j.asString))

/-- Reads a truth value. -/
def asBool : Json → Decode Bool
  | bool b => pure b
  | _ => throw "expected a boolean"

/-- Reads an integer. -/
def asInt : Json → Decode Int
  | int n => pure n
  | _ => throw "expected an integer"

/-- Reads a natural number. -/
def asNat : Json → Decode Nat
  | int (.ofNat n) => pure n
  | _ => throw "expected a natural number"

/-- Reads a list. -/
def asList : Json → Decode (List Json)
  | arr items => pure items
  | _ => throw "expected an array"

/-- Reads a list of things. -/
def listOf (f : Json → Decode α) (j : Json) : Decode (List α) := do (← j.asList).mapM f

/-- Reads a list of two things. -/
def pairOf {β : Type} (f : Json → Decode α) (g : Json → Decode β) : Json → Decode (α × β)
  | arr [a, b] => do return (← f a, ← g b)
  | _ => throw "expected a pair"

/-- Reads something that may be missing. -/
def orNull (f : Json → Decode α) : Json → Decode (Option α)
  | null => pure none
  | j => some <$> f j

/-- Reads an entry of an object. -/
def field (j : Json) (key : String) (f : Json → Decode α) : Decode α := do
  f (← Decode.need key (j.get? key))

/-- Reads an entry of an object that may be missing or null. -/
def field? (j : Json) (key : String) (f : Json → Decode α) : Decode (Option α) :=
  match j.get? key with
  | some v => v.orNull f
  | none => pure none

/-- Reads an entry of an object; if it is missing or null, it is `value`. -/
def fieldOr (j : Json) (key : String) (f : Json → Decode α) (value : α) : Decode α :=
  return (← j.field? key f).getD value

/-- A natural number. -/
def ofNat (n : Nat) : Json := int n

/-- Something that may be missing. -/
def ofOption (f : α → Json) : Option α → Json
  | some a => f a
  | none => null

/-- A list of things. -/
def ofList (f : α → Json) (items : List α) : Json := arr (items.map f)

end Json

end ValueSchema
