/-
# Structural equality of schemas

Two schemas are equal if they describe the same values in the same way.  The order of the properties
of an object does not matter, and neither do origins or the displayed name of a reference; literals
are compared by `Literal.same`.
-/
import ValueSchema.Schema.Basic

namespace ValueSchema.Schema

mutual

/-- Structural equality. -/
def equal (s t : Schema) : Bool :=
  match s, t with
  | primitive a _, primitive b _ => a == b
  | literal a, literal b => a.same b
  | union a, union b => equalAll a b
  | intersection a, intersection b => equalAll a b
  | template a, template b => equalAll a b
  | tuple a f, tuple b g => f == g && equalAll a b
  | array a, array b => equal a b
  | object a k, object b l => a.length == b.length && equalIn a b && equalPairs k l
  | function a r, function b u => equalNamed a b && equal r u
  | binary o a b, binary p c d => o == p && equal a c && equal b d
  | keys a _, keys b _ => equal a b
  | access a b _, access c d _ => equal a c && equal b d
  | reference _ a i, reference _ b j => i == j && equalAll a b
  | error a _, error b _ => a == b
  | _, _ => false
  termination_by structural s

/-- Equality of lists, item by item. -/
def equalAll (s t : List Schema) : Bool :=
  match s, t with
  | [], [] => true
  | a :: s, b :: t => equal a b && equalAll s t
  | _, _ => false
  termination_by structural s

/-- Whether each named schema has an equal one of the same name in `t`. -/
def equalIn (s t : List (String × Schema)) : Bool :=
  match s with
  | [] => true
  | (name, a) :: s =>
    (match Entries.get? name t with
      | some b => equal a b
      | none => false) && equalIn s t
  termination_by structural s

/-- Equality of lists of named schemas, in order. -/
def equalNamed (s t : List (String × Schema)) : Bool :=
  match s, t with
  | [], [] => true
  | (m, a) :: s, (n, b) :: t => m == n && equal a b && equalNamed s t
  | _, _ => false
  termination_by structural s

/-- Equality of lists of pairs, in order. -/
def equalPairs (s t : List (Schema × Schema)) : Bool :=
  match s, t with
  | [], [] => true
  | (a, b) :: s, (c, d) :: t => equal a c && equal b d && equalPairs s t
  | _, _ => false
  termination_by structural s

end

end ValueSchema.Schema
