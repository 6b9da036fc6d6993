/-
# Intersections

`Schema.intersectionOf` builds an intersection in normal form.  Members of members come up one
level, repeated members and `unknown` go, `never` and then `any` swallow everything, and objects
are merged into one.

Merging objects merges the values under one name.  Two objects are merged in turn, of two concrete
values the later one counts, and anything else is intersected.  Each step goes one object deeper, so
the number of schemas involved bounds the depth.
-/
import ValueSchema.Schema.Union

namespace ValueSchema.Schema

/-- The members of an intersection; any other schema is its own only member. -/
def conjuncts : Schema → List Schema
  | intersection items => items
  | s => [s]

/-- Adds a named value to the properties of an object, merging it with the one that is there. -/
def mergeProperty (merge : Schema → Schema → Schema) (properties : Entries Schema)
    (e : String × Schema) : Entries Schema :=
  match Entries.get? e.1 properties with
  | some existing => Entries.insert e.1 (merge existing e.2) properties
  | none => Entries.insert e.1 e.2 properties

/-- The properties of an object. -/
def properties : Schema → Entries Schema
  | object properties _ => properties
  | _ => []

/-- The open keys of an object, with their values. -/
def indexKeys : Schema → List (Schema × Schema)
  | object _ indexKeys => indexKeys
  | _ => []

/-- Merges objects from left to right; `merge` joins two values under one name. -/
def mergeObjectsWith (merge : Schema → Schema → Schema) (objects : List Schema) : Schema :=
  object ((objects.flatMap properties).foldl (mergeProperty merge) []) (objects.flatMap indexKeys)

/-- The intersection of several schemas; `merge` joins two values under one name. -/
def intersectionWith (merge : Schema → Schema → Schema) (items : List Schema) : Schema :=
  let flat := dedupe (items.flatMap conjuncts)
  if flat.any (isPrimitive .never) then never
  else
    match flat.find? (isPlain .any) with
    | some s => s
    | none =>
      match flat.filter fun s => !s.isPlain .unknown with
      | [] => unknown
      | [s] => s
      | known => if known.all isObject then mergeObjectsWith merge known else intersection known

/-- Joins two values under one name, down to `depth` objects deep. -/
def mergeValues (depth : Nat) (existing incoming : Schema) : Schema :=
  match depth with
  | 0 => incoming
  | depth + 1 =>
    if existing.isObject && incoming.isObject then
      mergeObjectsWith (mergeValues depth) [existing, incoming]
    else if existing.isConcrete && incoming.isConcrete then incoming
    else intersectionWith (mergeValues depth) [existing, incoming]

/-- The number of schemas in several schemas. -/
def totalSize (items : List Schema) : Nat := items.foldr (fun s n => s.size + n) 0

/-- One object with the properties of several, from left to right; what is not an object is left
out. -/
def mergeObjects (objects : List Schema) : Schema :=
  mergeObjectsWith (mergeValues (totalSize objects)) objects

/-- The normal form of the intersection of several schemas. -/
def intersectionOf (items : List Schema) : Schema :=
  intersectionWith (mergeValues (totalSize items)) items

end ValueSchema.Schema
