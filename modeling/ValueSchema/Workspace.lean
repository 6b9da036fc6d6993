/-
# Workspaces

Several sessions over one program, and contexts in them by name.  A context that is derived from
another one belongs to the same session.
-/
import ValueSchema.Evaluation.Context

namespace ValueSchema

/-- Sessions and named contexts. -/
structure Workspace where
  /-- The sessions, in the order in which they were started. -/
  sessions : Array Session := #[]
  /-- The contexts by name, each with the number of its session. -/
  contexts : Table String (Nat × Context) := []
deriving Inhabited

namespace Workspace

/-- The context with a name. -/
def context? (w : Workspace) (name : String) : Option Context := (w.contexts.get? name).map (·.2)

/-- The session of the context with a name. -/
def session? (w : Workspace) (name : String) : Option Session :=
  (w.contexts.get? name).bind fun e => w.sessions[e.1]?

/-- Starts a session, with a context at its start. -/
def start (w : Workspace) (name : String) (options : Options) : Workspace :=
  { sessions := w.sessions.push { options }
    contexts := w.contexts.put name (w.sessions.size, Context.start options) }

/-- Gives the name `target` to a context made from the one with the name `source`. -/
def derive (w : Workspace) (source target : String) (f : Context → Context) : Option Workspace :=
  (w.contexts.get? source).map fun e =>
    { w with contexts := w.contexts.put target (e.1, f e.2) }

/-- Runs a computation in the context with a name. -/
def run {α : Type} (w : Workspace) (name : String) (f : Context → Eval α) :
    Option (Except Stop α × Workspace) := do
  let (number, context) ← w.contexts.get? name
  let session ← w.sessions[number]?
  let (outcome, session) := f context session
  return (outcome, { w with sessions := w.sessions.setIfInBounds number session })

/-- Whether two contexts belong to the same session. -/
def shareSession (w : Workspace) (a b : String) : Option Bool := do
  let (first, _) ← w.contexts.get? a
  let (second, _) ← w.contexts.get? b
  return first == second

end Workspace

end ValueSchema
