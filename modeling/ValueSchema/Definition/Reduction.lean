/-
# Reduction of definitions

The definitions that a schema does not need are removed.  A trivial definition (a primitive, a
literal, an error or another reference) is put in the place of its references; a definition that
is referred to once may be, too; and what cannot be reached from the schema goes.  A definition
that mentions itself always stays a definition.
-/
import ValueSchema.Schema.Traversal

namespace ValueSchema

namespace Schema

/-- The id that a reference refers to. -/
def reference? : Schema → Option String
  | reference _ _ id => some id
  | _ => none

/-- The ids of the references inside a schema, in the order of the subterms. -/
def references (s : Schema) : List String := s.subterms.filterMap reference?

/-- Whether a schema refers to an id anywhere. -/
def mentions (id : String) (s : Schema) : Bool := s.references.contains id

/-- Whether a definition body is as short as the reference to it. -/
def isTrivial : Schema → Bool
  | error .. | primitive .. | literal .. => true
  | reference _ arguments _ => arguments.isEmpty
  | _ => false

/-- Puts bodies in the place of the references to them. -/
def inline (bodies : Entries Schema) : Schema → Schema :=
  transform (fun s => s.reference?.bind fun id => Entries.get? id bodies) id

end Schema

namespace Bundle

/-- Puts the bodies of some definitions in the place of their references, and removes them. -/
def inlineDefinitions (b : Bundle) (bodies : Entries Schema) : Bundle :=
  { root := b.root.inline bodies
    definitions := Entries.mapValues (Schema.inline bodies)
      (b.definitions.filter fun e => !Entries.contains e.1 bodies) }

/-- The trivial definitions that do not mention themselves. -/
def trivialDefinitions (b : Bundle) : Entries Schema :=
  b.definitions.filter fun e => e.2.isTrivial && !e.2.mentions e.1

/-- Removes trivial definitions until none is left.  Each round removes one at least, so as many
rounds as there are definitions are enough. -/
def inlineTrivial (rounds : Nat) (b : Bundle) : Bundle :=
  match rounds with
  | 0 => b
  | rounds + 1 =>
    let trivial := b.trivialDefinitions
    if trivial.isEmpty then b else (b.inlineDefinitions trivial).inlineTrivial rounds

/-- The ids of all references in a schema and its definitions. -/
def references (b : Bundle) : List String :=
  b.root.references ++ b.definitions.flatMap fun e => e.2.references

/-- The first definition that is referred to once and does not mention itself. -/
def singleUse? (b : Bundle) : Option (String × Schema) :=
  let used := b.references
  b.definitions.find? fun e => used.count e.1 == 1 && !e.2.mentions e.1

/-- Removes definitions that are referred to once until none is left.  Each round removes one. -/
def inlineSingleUse (rounds : Nat) (b : Bundle) : Bundle :=
  match rounds with
  | 0 => b
  | rounds + 1 =>
    match b.singleUse? with
    | none => b
    | some e => (b.inlineDefinitions [e]).inlineSingleUse rounds

/-- The ids of definitions that can be reached from some ids: one more step along the references of
their bodies in each round. -/
def reachable (definitions : Entries Schema) (rounds : Nat) (ids : List String) : List String :=
  match rounds with
  | 0 => ids
  | rounds + 1 =>
    let next := ids.flatMap fun id =>
      match Entries.get? id definitions with
      | some body => body.references
      | none => []
    let isFresh (id : String) := Entries.contains id definitions && !ids.contains id
    let fresh := (next.filter isFresh).eraseDups
    if fresh.isEmpty then ids else reachable definitions rounds (ids ++ fresh)

/-- Removes the definitions that cannot be reached from the schema. -/
def prune (b : Bundle) : Bundle :=
  let start := (b.root.references.filter fun id => Entries.contains id b.definitions).eraseDups
  let kept := reachable b.definitions b.definitions.length start
  { b with definitions := b.definitions.filter fun e => kept.contains e.1 }

/-- Removes the definitions that a schema does not need. -/
def reduce (b : Bundle) (inlineSingle : Bool) : Bundle :=
  let b := b.inlineTrivial b.definitions.length
  let b := if inlineSingle then b.inlineSingleUse b.definitions.length else b
  b.prune

end Bundle

end ValueSchema
