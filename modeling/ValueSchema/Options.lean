/-
# Options of an evaluation

What a caller can choose for an evaluation, with its defaults, and how the choice is read from a
JSON text.
-/
import ValueSchema.Json.Parser

namespace ValueSchema

/-- The types of the library that always stay references. -/
def wellKnownNames : List String :=
  ["Array", "ReadonlyArray", "Promise", "PromiseLike", "Date", "RegExp", "Map", "ReadonlyMap",
    "Set", "ReadonlySet", "WeakMap", "WeakSet", "Error", "TypeError", "RangeError", "SyntaxError",
    "Function", "Symbol", "ArrayBuffer", "Uint8Array", "Iterable", "Iterator", "AsyncIterable",
    "Generator", "AsyncGenerator"]

/-- The options of an evaluation. -/
structure Options where
  /-- How deep an evaluation may go; below that everything is unknown. -/
  maxDepth : Nat := 64
  /-- Whether a node that cannot be evaluated falls back to its type instead of failing. -/
  permissive : Bool := true
  /-- How many combinations of alternatives an operation may produce. -/
  maxUnionExpansion : Nat := 1000
  /-- More names of types that stay references. -/
  wellKnownReferences : List String := []
  /-- Whether definitions that are used once are put in the place of their reference. -/
  inlineSingleUseDefinitions : Bool := true
deriving DecidableEq, Repr, Inhabited

namespace Options

/-- Whether types of a given name stay references. -/
def isWellKnown (o : Options) (name : String) : Bool :=
  wellKnownNames.contains name || o.wellKnownReferences.contains name

/-- Reads a natural number below a bound. -/
def natBelow? (bound : Nat) : Json → Option Nat
  | .int n => if 0 ≤ n ∧ n < bound then some n.toNat else none
  | _ => none

/-- Reads a truth value. -/
def bool? : Json → Option Bool
  | .bool b => some b
  | _ => none

/-- Reads a list of texts. -/
def strings? : Json → Option (List String)
  | .arr items => items.mapM fun
    | .str s => some s
    | _ => none
  | _ => none

/-- The names of the options in a JSON text. -/
def keyNames : List String :=
  ["maxDepth", "permissive", "maxUnionExpansion", "wellKnownReferences",
    "inlineSingleUseDefinitions"]

/-- Applies one entry of a JSON object.  Unknown entries have no effect. -/
def withEntry? (o : Options) : String × Json → Option Options
  | ("maxDepth", j) => (natBelow? (Nat.pow 2 32) j).map fun n => { o with maxDepth := n }
  | ("permissive", j) => (bool? j).map fun b => { o with permissive := b }
  | ("maxUnionExpansion", j) =>
    (natBelow? (Nat.pow 2 64) j).map fun n => { o with maxUnionExpansion := n }
  | ("wellKnownReferences", j) => (strings? j).map fun l => { o with wellKnownReferences := l }
  | ("inlineSingleUseDefinitions", j) =>
    (bool? j).map fun b => { o with inlineSingleUseDefinitions := b }
  | _ => some o

/-- Reads options from the entries of a JSON object.  No option may be given twice. -/
def ofEntries? (entries : List (String × Json)) : Option Options :=
  let known := entries.filter fun e => keyNames.contains e.1
  if (known.map (·.1)).eraseDups.length = known.length then known.foldlM withEntry? {} else none

/-- Reads options from a list of their values, in the order of `keyNames`; the last ones may be
missing. -/
def ofItems? (items : List Json) : Option Options :=
  if items.length ≤ keyNames.length then (keyNames.zip items).foldlM withEntry? {} else none

/-- Reads options from a JSON value. -/
def ofJson? : Json → Option Options
  | .obj entries => ofEntries? entries
  | .arr items => ofItems? items
  | _ => none

/-- Options as a JSON object. -/
def toJson (o : Options) : Json :=
  .obj [("maxDepth", .int o.maxDepth), ("permissive", .bool o.permissive),
    ("maxUnionExpansion", .int o.maxUnionExpansion),
    ("wellKnownReferences", .arr (o.wellKnownReferences.map .str)),
    ("inlineSingleUseDefinitions", .bool o.inlineSingleUseDefinitions)]

/-- Reads options from a JSON text.  Of the entries that are no options only the form matters. -/
def parse? (text : String) : Option Options := (Json.parseFor? keyNames text).bind ofJson?

end Options

end ValueSchema
