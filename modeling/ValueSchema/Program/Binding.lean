/-
# Binding

Binding finds the declaration that each name of a program refers to.  Source files, functions and
blocks have scopes.  The functions and variables declared directly in the statements of a scope
can be used anywhere in it; the parameters of a function can be used in the initial values of
later ones and in the body.  A name refers to the symbol that the innermost scope with that name
gives it; declaring a name again in one scope replaces it.

A symbol has a path: the names of the functions it is declared in, and its own name.
-/
import ValueSchema.Syntax.Tree

namespace ValueSchema

/-- A declared symbol. -/
structure Symbol where
  /-- The name of the symbol. -/
  name : String
  /-- The node that declares it. -/
  declaration : NodeId
  /-- The names of the functions around it and its own name, joined by dots. -/
  path : String
  /-- The name of the file it is declared in. -/
  file : String
deriving DecidableEq, Repr, Inhabited

/-- The symbols of a program and the names that refer to them. -/
structure Binding where
  /-- The symbols, in the order of declaration. -/
  symbols : List Symbol := []
  /-- The names that refer to a symbol, in the order of the source. -/
  uses : List (NodeId × SymbolId) := []
deriving Inhabited

namespace Binding

/-- The symbol with a given number. -/
def symbol? (b : Binding) (id : SymbolId) : Option Symbol := b.symbols[id.index]?

/-- The symbols with their numbers. -/
def numbered (b : Binding) : List (Symbol × SymbolId) :=
  b.symbols.zipIdx.map fun e => (e.1, ⟨e.2⟩)

/-- The symbol that a name refers to. -/
def symbolOfUse? (b : Binding) (n : NodeId) : Option SymbolId :=
  (b.uses.reverse.find? fun u => u.1 = n).map (·.2)

/-- The symbol that a node declares. -/
def symbolOfDeclaration? (b : Binding) (n : NodeId) : Option SymbolId :=
  (b.numbered.reverse.find? fun e => e.1.declaration = n).map (·.2)

/-- The names that refer to a symbol. -/
def references (b : Binding) (id : SymbolId) : List NodeId :=
  (b.uses.filter fun u => u.2 = id).map (·.1)

/-- The first symbol with a path in a file. -/
def symbolAt? (b : Binding) (file path : String) : Option SymbolId :=
  (b.numbered.find? fun e => e.1.file = file ∧ e.1.path = path).map (·.2)

/-- The first symbol with a path in any file. -/
def symbolNamed? (b : Binding) (path : String) : Option SymbolId :=
  (b.numbered.find? fun e => e.1.path = path).map (·.2)

/-! ## Listings -/

/-- The symbols that some name refers to. -/
def usedSymbols (b : Binding) : List SymbolId :=
  (b.numbered.map (·.2)).filter fun id => !(b.references id).isEmpty

/-- The symbols of nodes, in the order of the nodes, each node once. -/
def byNode (nodes : List NodeId) (symbol? : NodeId → Option SymbolId) :
    List (NodeId × SymbolId) :=
  (nodes.eraseDups.mergeSort fun m n => m.index ≤ n.index).filterMap fun n =>
    (symbol? n).map ((n, ·))

/-- The names that refer to a symbol, by node. -/
def usesByNode (b : Binding) : List (NodeId × SymbolId) :=
  byNode (b.uses.map (·.1)) b.symbolOfUse?

/-- The declarations, by node. -/
def declarationsByNode (b : Binding) : List (NodeId × SymbolId) :=
  byNode (b.symbols.map (·.declaration)) b.symbolOfDeclaration?

/-- The first symbol of each file and path, in the order of files and then of paths. -/
def symbolsByPath (b : Binding) : List (String × String × SymbolId) :=
  let keys := (b.symbols.map fun s => (s.file, s.path)).eraseDups
  let sorted := keys.mergeSort fun k l => k.1 < l.1 || (k.1 == l.1 && k.2 ≤ l.2)
  sorted.filterMap fun (file, path) => (b.symbolAt? file path).map (file, path, ·)

/-! ## Scopes -/

/-- The names of one scope; the latest declaration of a name stands first. -/
abbrev Scope := List (String × SymbolId)

/-- Where a binding pass stands in the program. -/
structure Place where
  /-- The scopes, the innermost first. -/
  scopes : List Scope := []
  /-- The names of the functions around, the outermost first. -/
  path : List String := []
deriving Inhabited

/-- The symbol that a name refers to at a place. -/
def Place.resolve? (p : Place) (name : String) : Option SymbolId :=
  p.scopes.findSome? fun scope => scope.lookup name

/-- A place inside a new scope. -/
def Place.enter (p : Place) : Place := { p with scopes := [] :: p.scopes }

/-- The path of a symbol declared at a place. -/
def Place.pathOf (p : Place) (name : String) : String :=
  let outer := String.intercalate "." p.path
  if outer = "" then name else outer ++ "." ++ name

/-- A place with one more name in the innermost scope. -/
def Place.withName (p : Place) (name : String) (id : SymbolId) : Place :=
  match p.scopes with
  | [] => p
  | scope :: outer => { p with scopes := ((name, id) :: scope) :: outer }

/-- What a binding pass has found so far. -/
structure Pass where
  /-- The symbols and names. -/
  found : Binding := {}
  /-- The name of the source file that was entered last. -/
  file : String := ""
deriving Inhabited

/-- Declares a symbol in the innermost scope. -/
def declare (b : Pass) (p : Place) (name : String) (declaration : NodeId) : Pass × Place :=
  let id : SymbolId := ⟨b.found.symbols.length⟩
  let symbol : Symbol := ⟨name, declaration, p.pathOf name, b.file⟩
  ({ b with found.symbols := b.found.symbols ++ [symbol] }, p.withName name id)

/-- Declares a symbol if there is a name for it. -/
def declareNamed (name? : Option String) (declaration : NodeId) (s : Pass × Place) : Pass × Place :=
  match name? with
  | some name => declare s.1 s.2 name declaration
  | none => s

/-- Declares what a statement declares. -/
def declareStatement (t : Tree) (s : Pass × Place) (statement : NodeId) : Pass × Place :=
  match t.form? statement with
  | some (.functionDeclaration f) => declareNamed (f.name.bind t.identifier?) statement s
  | some (.variableStatement declarations) =>
    declarations.foldl (fun s d => declareNamed (t.declarationName? d) d s) s
  | _ => s

/-- Declares what the statements of a scope declare. -/
def hoist (t : Tree) (statements : List NodeId) (s : Pass × Place) : Pass × Place :=
  statements.foldl (declareStatement t) s

/-- The place inside a function: a new scope, and its name at the end of the path if it is a
declaration or an expression with a name. -/
def enterFunction (t : Tree) (n : NodeId) (f : FunctionForm) (p : Place) : Place :=
  let name? := match t.form? n with
    | some (.functionDeclaration _) | some (.functionExpression _) => f.name.bind t.identifier?
    | _ => none
  { p.enter with path := p.path ++ name?.toList }

/-- Records that a name refers to a symbol. -/
def Pass.use (b : Pass) (n : NodeId) (id : SymbolId) : Pass :=
  { b with found.uses := b.found.uses ++ [(n, id)] }

/-- Binds the names inside the statements of a scope, after declaring what they declare. -/
def bindStatements (t : Tree) (bind : Place → Pass → NodeId → Pass) (b : Pass) (p : Place)
    (statements : List NodeId) : Pass :=
  let (b, p) := hoist t statements (b, p)
  statements.foldl (bind p) b

/-- Declares a parameter and binds the names inside its initial value. -/
def bindParameter (t : Tree) (bind : Place → Pass → NodeId → Pass) (s : Pass × Place)
    (parameter : NodeId) : Pass × Place :=
  let (b, p) := declareNamed (t.declarationName? parameter) parameter s
  match t.form? parameter with
  | some (.parameter _ (some value) _) => (bind p b value, p)
  | _ => (b, p)

/-- Binds the names inside a function.  The statements of its body are in the scope of its
parameters. -/
def bindFunction (t : Tree) (bind : Place → Pass → NodeId → Pass) (p : Place) (b : Pass)
    (n : NodeId) (f : FunctionForm) : Pass :=
  let (b, p) := f.parameters.foldl (bindParameter t bind) (b, enterFunction t n f p)
  match f.body with
  | none => b
  | some body =>
    match t.form? body with
    | some (.block statements) => bindStatements t bind b p statements
    | _ => bind p b body

/-- Binds the names inside a node, going at most `fuel` nodes deep. -/
def bindNode (t : Tree) (fuel : Nat) (p : Place) (b : Pass) (n : NodeId) : Pass :=
  match fuel with
  | 0 => b
  | fuel + 1 =>
    match t.form? n with
    | none => b
    | some (.sourceFile file statements) =>
      bindStatements t (bindNode t fuel) { b with file } p.enter statements
    | some (.block statements) => bindStatements t (bindNode t fuel) b p.enter statements
    | some (.variableDeclaration _ value _) => value.toList.foldl (bindNode t fuel p) b
    | some (.functionDeclaration f) | some (.functionExpression f) | some (.arrowFunction f)
    | some (.methodDeclaration f) => bindFunction t (bindNode t fuel) p b n f
    | some (.identifier text) =>
      match p.resolve? text with
      | some id => b.use n id
      | none => b
    | some (.propertyAccess expression _) => bindNode t fuel p b expression
    | some (.propertyAssignment name value) =>
      match t.form? name with
      | some (.computedName _) => [name, value].foldl (bindNode t fuel p) b
      | _ => bindNode t fuel p b value
    | some form => form.children.foldl (bindNode t fuel p) b

/-- Binds the names of several source files. -/
def ofFiles (t : Tree) (files : List NodeId) : Binding :=
  (files.foldl (bindNode t (t.size + 1) {}) {}).found

end Binding

end ValueSchema
