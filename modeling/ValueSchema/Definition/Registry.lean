/-
# The registry of definitions

An instance of a generic type is not converted where it occurs.  It is registered here under an id,
and a reference with that id takes its place; its body is converted once, later.  A definition that
refers to itself therefore needs no special care.

The id is the text of the instance.  If another generic type already took that id, a number is
appended to it.
-/
import ValueSchema.Entries
import ValueSchema.Schema.Basic

namespace ValueSchema

/-- How far a definition has come. -/
inductive Definition.State where
  /-- Registered; the type of its body is not converted yet. -/
  | pending (body : TypeId)
  /-- Its body is being converted. -/
  | resolving
  /-- Converted. -/
  | ready (schema : Schema)
deriving Inhabited

/-- A registered definition. -/
structure Definition where
  /-- The name of the generic type. -/
  name : String
  /-- The generic type that it is an instance of. -/
  target : TypeId
  /-- How far it has come. -/
  state : Definition.State
deriving Inhabited

/-- The registered definitions by their ids, in the order of registration. -/
structure Registry where
  /-- All definitions. -/
  entries : Entries Definition := []
deriving Inhabited

namespace Registry

/-- The id of the `n`-th generic type that has the same text. -/
def numbered (display : String) (n : Nat) : String :=
  if n = 1 then display else display ++ "#" ++ toString n

/-- Whether an id is free, or taken by an instance of the same generic type. -/
def admits (r : Registry) (target : TypeId) (id : String) : Bool :=
  match Entries.get? id r.entries with
  | some d => d.target == target
  | none => true

/-- The first admissible id among those numbered from `n` on; one more than there are definitions is
enough. -/
def findId (r : Registry) (display : String) (target : TypeId) (n fuel : Nat) : String :=
  match fuel with
  | 0 => numbered display n
  | fuel + 1 =>
    if r.admits target (numbered display n) then numbered display n
    else r.findId display target (n + 1) fuel

/-- Registers an instance of a generic type and gives its id.  The same instance keeps its id. -/
def register (r : Registry) (name display : String) (target body : TypeId) : String × Registry :=
  let id := r.findId display target 1 (r.entries.length + 1)
  if Entries.contains id r.entries then (id, r)
  else (id, ⟨r.entries ++ [(id, ⟨name, target, .pending body⟩)]⟩)

/-- The definition with a given id. -/
def get? (r : Registry) (id : String) : Option Definition := Entries.get? id r.entries

/-- Sets the state of a definition. -/
def setState (r : Registry) (id : String) (state : Definition.State) : Registry :=
  ⟨r.entries.map fun e => if e.1 = id then (e.1, { e.2 with state }) else e⟩

/-- Claims a pending definition for conversion, and gives the type of its body. -/
def begin? (r : Registry) (id : String) : Option (TypeId × Registry) :=
  match (r.get? id).map Definition.state with
  | some (.pending body) => some (body, r.setState id .resolving)
  | _ => none

/-- Stores the body of a definition. -/
def complete (r : Registry) (id : String) (schema : Schema) : Registry :=
  r.setState id (.ready schema)

/-- The body of a definition that has been converted. -/
def ready? (r : Registry) (id : String) : Option Schema :=
  match (r.get? id).map Definition.state with
  | some (.ready schema) => some schema
  | _ => none

/-- The ids of the definitions that wait for conversion. -/
def pending (r : Registry) : List String :=
  r.entries.filterMap fun e =>
    match e.2.state with
    | .pending _ => some e.1
    | _ => none

/-- The definitions that have been converted. -/
def readyDefinitions (r : Registry) : Entries Schema :=
  r.entries.filterMap fun e =>
    match e.2.state with
    | .ready schema => some (e.1, schema)
    | _ => none

end Registry

end ValueSchema
