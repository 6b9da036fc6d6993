/-
# JSON values

Numbers keep the distinction between integers and doubles, and objects keep the order of their
entries.  An object that is read may name a key twice; `Json.normalize` keeps the last value at the
place of the first, which is what a reader into a map sees.
-/
import ValueSchema.Entries

namespace ValueSchema

/-- A JSON value. -/
inductive Json where
  | null
  | bool (value : Bool)
  | int (value : Int)
  | float (value : Float)
  | str (value : String)
  | arr (items : List Json)
  | obj (entries : List (String × Json))
deriving Inhabited

namespace Json

/-- The value under a key of an object. -/
def get? (key : String) : Json → Option Json
  | obj entries => Entries.get? key entries
  | _ => none

mutual

/-- A value in which no object names a key twice. -/
def normalize (j : Json) : Json :=
  match j with
  | arr items => arr (normalizeAll items)
  | obj entries => obj (Entries.ofList (normalizeEntries entries))
  | other => other
  termination_by structural j

/-- Normalizes each of several values. -/
def normalizeAll (items : List Json) : List Json :=
  match items with
  | [] => []
  | j :: rest => j.normalize :: normalizeAll rest
  termination_by structural items

/-- Normalizes the values of the entries of an object. -/
def normalizeEntries (entries : List (String × Json)) : List (String × Json) :=
  match entries with
  | [] => []
  | (key, j) :: rest => (key, j.normalize) :: normalizeEntries rest
  termination_by structural entries

end

mutual

/-- How deep a value nests. -/
def depth (j : Json) : Nat :=
  match j with
  | arr items => depthAll items + 1
  | obj entries => depthEntries entries + 1
  | _ => 1
  termination_by structural j

/-- The depth of the deepest of several values. -/
def depthAll (items : List Json) : Nat :=
  match items with
  | [] => 0
  | j :: rest => max (depth j) (depthAll rest)
  termination_by structural items

/-- The depth of the deepest of several entries. -/
def depthEntries (entries : List (String × Json)) : Nat :=
  match entries with
  | [] => 0
  | (_, j) :: rest => max (depth j) (depthEntries rest)
  termination_by structural entries

end

end Json

end ValueSchema
