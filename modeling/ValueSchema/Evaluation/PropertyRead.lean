/-
# Reading properties

The schema of a property of a schema, for a name that is known.  There is none if the schema does
not tell; then the type of the expression has to answer.
-/
import ValueSchema.Evaluation.Reference
import ValueSchema.Literal.Conversion
import ValueSchema.Schema.Union
import ValueSchema.Text.Units

namespace ValueSchema.Evaluation

mutual

/-- Whether an open key admits a property name. -/
def keyAdmits (name : String) (key : Schema) : Bool :=
  match key with
  | .primitive .string _ | .primitive .any _ => true
  | .primitive .number _ => !(Literal.numberOfText name).isNaN
  | .literal value => value.toText == name
  | .union items => anyKeyAdmits name items
  | _ => false
  termination_by structural key

/-- Whether one of several keys admits a property name. -/
def anyKeyAdmits (name : String) (keys : List Schema) : Bool :=
  match keys with
  | [] => false
  | key :: rest => keyAdmits name key || anyKeyAdmits name rest
  termination_by structural keys

end

/-- Reads a position in a tuple: digits, perhaps after a plus sign. -/
def position? (name : String) : Option Nat :=
  let digits := match name.toList with
    | '+' :: rest => rest
    | cs => cs
  if digits ≠ [] ∧ digits.all Char.isDigit then some (Number.valueOf digits) else none

/-- Whether a name consists of digits. -/
def isArrayIndex (name : String) : Bool := name != "" && name.toList.all Char.isDigit

/-- A property of an object: a named one, or else the values under the open keys that admit it. -/
def readObject (properties : Entries Schema) (indexKeys : List (Schema × Schema)) (name : String) :
    Option Schema :=
  match Entries.get? name properties with
  | some value => some value
  | none =>
    match indexKeys.filter fun e => keyAdmits name e.1 with
    | [] => none
    | found => some (Schema.unionOf (found.map (·.2)))

/-- A property of a tuple: its length if that is known, or an element. -/
def readTuple (items : List Schema) (flags : List ElementFlag) (name : String) : Option Schema :=
  if name = "length" then
    if flags.all (· = .required) then some (.number (Number.ofInteger items.length)) else none
  else do
    let i ← position? name
    let item ← items[i]?
    match ← flags[i]? with
    | .required => some item
    | .optional => some (Schema.unionOf [item, .undefined])
    | .rest => none

/-- A property of an array: its length or an element. -/
def readArray (item : Schema) (name : String) : Option Schema :=
  if name = "length" then some (.plain .number) else if isArrayIndex name then some item else none

/-- A property of a text: its length in sixteen-bit units. -/
def readText (text name : String) : Option Schema :=
  if name = "length" then
    some (.number (Number.ofInteger (text.toList.flatMap Text.units).length))
  else none

mutual

/-- A property of a schema.  All members of a union must have it, the last member of an intersection
that has it counts, and references are left to `atReference`. -/
def readWith (atReference : Schema → Eval (Option Schema)) (name : String) (source : Schema) :
    Eval (Option Schema) :=
  match source with
  | .object properties indexKeys => return readObject properties indexKeys name
  | .tuple items flags => return readTuple items flags name
  | .array item => return readArray item name
  | .literal (.string text) => return readText text name
  | .union items => do
    return (← readEach atReference name items).map Schema.unionOf
  | .intersection items => readLast atReference name items none
  | .reference target arguments id => atReference (.reference target arguments id)
  | _ => return none
  termination_by structural source

/-- A property of each of several schemas, if all have it; reading ends with the first that has
not. -/
def readEach (atReference : Schema → Eval (Option Schema)) (name : String) (items : List Schema) :
    Eval (Option (List Schema)) :=
  match items with
  | [] => return some []
  | s :: rest => do
    match ← readWith atReference name s with
    | none => return none
    | some value => return (← readEach atReference name rest).map (value :: ·)
  termination_by structural items

/-- A property of the last of several schemas that has it. -/
def readLast (atReference : Schema → Eval (Option Schema)) (name : String) (items : List Schema)
    (found : Option Schema) : Eval (Option Schema) :=
  match items with
  | [] => return found
  | s :: rest => do
    let value ← readWith atReference name s
    readLast atReference name rest (value.or found)
  termination_by structural items

end

/-- A property of a schema, following at most `fuel` references on one path. -/
def readWithin (resolve : Schema → Eval Schema) (name : String) (fuel : Nat) (source : Schema) :
    Eval (Option Schema) :=
  match fuel with
  | 0 => throw .diverged
  | fuel + 1 =>
    readWith (fun reference => do
      match ← resolve reference with
      | .reference .. => return none
      | resolved => readWithin resolve name fuel resolved) name source

/-- A property of a schema. -/
def readProperty (host : Host) (e : Evaluator) (b : Branch) (source : Schema) (name : String) :
    Eval (Option Schema) := do
  readWithin (resolve e b) name (← unfoldings host) source

end ValueSchema.Evaluation
