/-
# Programs

A program is put together node by node and type by type.  Once it is complete, its names are bound
and nodes without a type get the type that their form implies.
-/
import ValueSchema.Program.Binding
import ValueSchema.Program.Host

namespace ValueSchema

/-- A program under construction. -/
structure Draft where
  /-- The nodes so far. -/
  tree : Tree := {}
  /-- The types so far. -/
  types : TypeTable := {}
  /-- The types given to nodes. -/
  nodeTypes : Table NodeId TypeId := []
  /-- The signatures given to calls. -/
  signatures : Table NodeId Signature := []
  /-- The source files, in order. -/
  files : List NodeId := []
deriving Inhabited

namespace Draft

/-- Adds a node.  Nodes stand one after the other in the order of their creation. -/
def add (d : Draft) (form : Form) : NodeId × Draft :=
  let (id, tree) := d.tree.add form ⟨d.tree.size, d.tree.size + 1⟩
  let files := if Tree.isSourceFile form then d.files ++ [id] else d.files
  (id, { d with tree, files })

/-- Adds a name, and then a node made with it. -/
def addNamed (d : Draft) (name : String) (form : NodeId → Form) : NodeId × Draft :=
  let (name, d) := d.add (.identifier name)
  d.add (form name)

/-- Adds a block, and then a function made with it. -/
def addFunction (d : Draft) (kind : FunctionForm → Form) (name : Option NodeId)
    (parameters body : List NodeId) (isAsync isGenerator : Bool) : NodeId × Draft :=
  let (block, d) := d.add (.block body)
  d.add (kind ⟨name, parameters, some block, isAsync, isGenerator⟩)

/-- Adds a name and a block, and then a function made with them. -/
def addNamedFunction (d : Draft) (kind : FunctionForm → Form) (name : String)
    (parameters body : List NodeId) (isAsync isGenerator : Bool) : NodeId × Draft :=
  let (name, d) := d.add (.identifier name)
  d.addFunction kind (some name) parameters body isAsync isGenerator

/-- Adds an expression in brackets, and then a property with that name. -/
def addComputedProperty (d : Draft) (key value : NodeId) : NodeId × Draft :=
  let (name, d) := d.add (.computedName key)
  d.add (.propertyAssignment name value)

/-- Adds a variable, and then a statement that declares it. -/
def addVariable (d : Draft) (kind : VariableKind) (name : String) (value : Option NodeId) :
    NodeId × Draft :=
  let (declaration, d) := d.addNamed name fun name => .variableDeclaration name value kind
  d.add (.variableStatement [declaration])

/-- Adds a type. -/
def addType (d : Draft) (form : TypeForm) : TypeId × Draft :=
  let (id, types) := d.types.add form
  (id, { d with types })

/-- The type that the form of a node implies: that of a literal, texts for templates, and anything
for parameters. -/
def impliedType? : Form → Option TypeForm
  | .numericLiteral x => some (.literal (.number x))
  | .stringLiteral s => some (.literal (.string s))
  | .bigIntLiteral s => some (.literal (.bigint s))
  | .trueKeyword => some (.literal (.boolean true))
  | .falseKeyword => some (.literal (.boolean false))
  | .nullKeyword => some (.intrinsic .null)
  | .templateExpression .. => some (.intrinsic .string)
  | .parameter .. => some (.intrinsic .any)
  | _ => none

/-- Gives a node the type that its form implies, unless it has a type.  Literal types are added to
the table, one for each node. -/
def giveType (d : Draft) (n : NodeId) : Draft :=
  if (d.nodeTypes.get? n).isSome then d
  else
    match (d.tree.form? n).bind impliedType? with
    | none => d
    | some (.intrinsic kind) => { d with nodeTypes := d.nodeTypes.put n kind.id }
    | some form =>
      let (id, d) := d.addType form
      { d with nodeTypes := d.nodeTypes.put n id }

end Draft

/-- A complete program. -/
structure Program where
  /-- The nodes, types and source files. -/
  draft : Draft
  /-- The symbols, and the names that refer to them. -/
  binding : Binding
deriving Inhabited

/-- Completes a program. -/
def Draft.finish (d : Draft) : Program :=
  let typed := (List.range d.tree.size).foldl (fun d i => d.giveType ⟨i⟩) d
  ⟨typed, Binding.ofFiles d.tree d.files⟩

namespace Program

/-- The node that declares a symbol. -/
def declaration? (p : Program) (id : SymbolId) : Option NodeId :=
  (p.binding.symbol? id).map (·.declaration)

/-- What an evaluation sees of a program. -/
def host (p : Program) : Host where
  tree := p.draft.tree
  types := p.draft.types
  typeOfNode := p.draft.nodeTypes.get?
  typeOfSymbol id := (p.declaration? id).bind p.draft.nodeTypes.get?
  signatureOfCall := p.draft.signatures.get?
  resolve n := do
    let symbol ← p.binding.symbolOfUse? n
    return ⟨symbol, ← p.declaration? symbol⟩
  symbolOfDeclaration := p.binding.symbolOfDeclaration?
  declarationOfSymbol := p.declaration?
  references := p.binding.references
  symbolAt := p.binding.symbolAt?

end Program

end ValueSchema
