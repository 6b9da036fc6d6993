/-
# Traversals of schemas

Two traversals that the rest of the library is built from.

* `Schema.transform` goes through a schema from the leaves up.  A schema may be replaced outright
  before its inside is looked at; otherwise its children are transformed and a step is applied to
  the result.
* `Schema.subterms` lists a schema and everything inside it, outside first.
-/
import ValueSchema.Schema.Basic

namespace ValueSchema.Schema

mutual

/-- Replaces a schema by `before?` if that gives something, and otherwise transforms its children
and applies `after`. -/
def transform (before? : Schema → Option Schema) (after : Schema → Schema) (s : Schema) : Schema :=
  match before? s with
  | some t => t
  | none =>
    after <| match s with
      | primitive kind o => primitive kind o
      | literal value => literal value
      | error reason o => error reason o
      | union items => union (transformAll before? after items)
      | intersection items => intersection (transformAll before? after items)
      | tuple items flags => tuple (transformAll before? after items) flags
      | template items => template (transformAll before? after items)
      | array item => array (transform before? after item)
      | object properties indexKeys =>
        object (transformNamed before? after properties) (transformPairs before? after indexKeys)
      | function parameters result =>
        function (transformNamed before? after parameters) (transform before? after result)
      | binary op left right =>
        binary op (transform before? after left) (transform before? after right)
      | keys subject o => keys (transform before? after subject) o
      | access target key o =>
        access (transform before? after target) (transform before? after key) o
      | reference name arguments id => reference name (transformAll before? after arguments) id
  termination_by structural s

/-- Transforms each of several schemas. -/
def transformAll (before? : Schema → Option Schema) (after : Schema → Schema)
    (items : List Schema) : List Schema :=
  match items with
  | [] => []
  | s :: rest => transform before? after s :: transformAll before? after rest
  termination_by structural items

/-- Transforms each of several named schemas. -/
def transformNamed (before? : Schema → Option Schema) (after : Schema → Schema)
    (items : List (String × Schema)) : List (String × Schema) :=
  match items with
  | [] => []
  | (name, s) :: rest => (name, transform before? after s) :: transformNamed before? after rest
  termination_by structural items

/-- Transforms both schemas of each of several pairs. -/
def transformPairs (before? : Schema → Option Schema) (after : Schema → Schema)
    (items : List (Schema × Schema)) : List (Schema × Schema) :=
  match items with
  | [] => []
  | (key, value) :: rest =>
    (transform before? after key, transform before? after value) ::
      transformPairs before? after rest
  termination_by structural items

end

mutual

/-- A schema and everything inside it, outside first. -/
def subterms (s : Schema) : List Schema :=
  s :: match s with
    | primitive .. | literal .. | error .. => []
    | union items | intersection items | tuple items _ | template items => subtermsAll items
    | array item => subterms item
    | object properties indexKeys => subtermsNamed properties ++ subtermsPairs indexKeys
    | function parameters result => subtermsNamed parameters ++ subterms result
    | binary _ left right => subterms left ++ subterms right
    | keys subject _ => subterms subject
    | access target key _ => subterms target ++ subterms key
    | reference _ arguments _ => subtermsAll arguments
  termination_by structural s

/-- The subterms of each of several schemas. -/
def subtermsAll (items : List Schema) : List Schema :=
  match items with
  | [] => []
  | s :: rest => subterms s ++ subtermsAll rest
  termination_by structural items

/-- The subterms of each of several named schemas. -/
def subtermsNamed (items : List (String × Schema)) : List Schema :=
  match items with
  | [] => []
  | (_, s) :: rest => subterms s ++ subtermsNamed rest
  termination_by structural items

/-- The subterms of each of several pairs. -/
def subtermsPairs (items : List (Schema × Schema)) : List Schema :=
  match items with
  | [] => []
  | (key, value) :: rest => subterms key ++ subterms value ++ subtermsPairs rest
  termination_by structural items

end

/-- The number of schemas in a schema, itself included. -/
def size (s : Schema) : Nat := s.subterms.length

theorem transformAll_eq_map (before? : Schema → Option Schema) (after : Schema → Schema)
    (items : List Schema) :
    transformAll before? after items = items.map (transform before? after) := by
  induction items with
  | nil => rfl
  | cons s rest ih => simp [transformAll, ih]

theorem transformNamed_eq_map (before? : Schema → Option Schema) (after : Schema → Schema)
    (items : List (String × Schema)) :
    transformNamed before? after items = items.map fun e => (e.1, transform before? after e.2) := by
  induction items with
  | nil => rfl
  | cons e rest ih => simp [transformNamed, ih]

theorem transformPairs_eq_map (before? : Schema → Option Schema) (after : Schema → Schema)
    (items : List (Schema × Schema)) :
    transformPairs before? after items =
      items.map fun e => (transform before? after e.1, transform before? after e.2) := by
  induction items with
  | nil => rfl
  | cons e rest ih => simp [transformPairs, ih]

/-- The transformation goes through the children of a schema. -/
theorem transform_eq (before? : Schema → Option Schema) (after : Schema → Schema) (s : Schema) :
    s.transform before? after =
      (before? s).getD (after (s.mapChildren (transform before? after))) := by
  rw [transform.eq_def]
  cases before? s with
  | some t => rfl
  | none =>
    cases s <;>
      simp [mapChildren, transformAll_eq_map, transformNamed_eq_map, transformPairs_eq_map]

theorem subtermsAll_eq_flatMap (items : List Schema) :
    subtermsAll items = items.flatMap subterms := by
  induction items with
  | nil => rfl
  | cons s rest ih => simp [subtermsAll, ih]

theorem subtermsNamed_eq_flatMap (items : List (String × Schema)) :
    subtermsNamed items = items.flatMap fun e => subterms e.2 := by
  induction items with
  | nil => rfl
  | cons e rest ih => simp [subtermsNamed, ih]

theorem subtermsPairs_eq_flatMap (items : List (Schema × Schema)) :
    subtermsPairs items = items.flatMap fun e => subterms e.1 ++ subterms e.2 := by
  induction items with
  | nil => rfl
  | cons e rest ih => simp [subtermsPairs, ih]

/-- The subterms of a schema are the schema and the subterms of its children. -/
theorem subterms_eq (s : Schema) : s.subterms = s :: s.children.flatMap subterms := by
  cases s <;>
    simp [subterms, children, subtermsAll_eq_flatMap, subtermsNamed_eq_flatMap,
      subtermsPairs_eq_flatMap, List.flatMap_append, List.flatMap_assoc, List.flatMap_map]

end ValueSchema.Schema
