/-
# Lexical scopes

What a name at a place of a program refers to can be read off the nodes around the place.  Going up
from it, each source file, each function and each block that is not the body of one is a scope, and
the innermost one that declares the name counts.  What a scope declares depends on where in it the
place is: inside the initial value of a parameter only that parameter and the ones before it.

Not every identifier stands for a value.  The name of a declaration, the name behind the dot of a
property access and the name of a property stand for themselves.
-/
import ValueSchema.Proofs.Program.Forest

namespace ValueSchema.Tree

/-! ## Declarations of scopes -/

/-- The functions and variables that a statement declares. -/
def declaredBy (t : Tree) (statement : NodeId) : List NodeId :=
  match t.form? statement with
  | some (.functionDeclaration _) => [statement]
  | some (.variableStatement declarations) => declarations
  | _ => []

/-- The functions and variables that are declared directly in a list of statements. -/
def hoisted (t : Tree) (statements : List NodeId) : List NodeId := statements.flatMap t.declaredBy

/-- Whether a node is the body of a function. -/
def isBody (t : Tree) (n : NodeId) : Bool :=
  ((t.parent? n).bind t.function?).any fun f => f.body == some n

/-- Whether a node is a parameter of a function. -/
def isParameterOfFunction (t : Tree) (n : NodeId) : Bool :=
  ((t.parent? n).bind t.function?).any fun f => f.parameters.contains n

/-- What a function declares for one of its children.  Its body is inside of all parameters and its
own declarations, and a parameter inside of itself and the ones before it. -/
def visibleInFunction (t : Tree) (f : FunctionForm) (child : NodeId) : List NodeId :=
  if f.body = some child then
    f.parameters ++ match t.form? child with
      | some (.block statements) => t.hoisted statements
      | _ => []
  else f.parameters.take (f.parameters.idxOf child + 1)

/-- What a node declares for one of its children, in the order of declaration. -/
def visible (t : Tree) (n child : NodeId) : List NodeId :=
  match t.form? n with
  | some (.sourceFile _ statements) => t.hoisted statements
  | some (.block statements) => if t.isBody n then [] else t.hoisted statements
  | some (.functionDeclaration f) | some (.functionExpression f) | some (.arrowFunction f)
  | some (.methodDeclaration f) => t.visibleInFunction f child
  | _ => []

/-- The last of several nodes that declares a name. -/
def lastNamed (t : Tree) (name : String) (nodes : List NodeId) : Option NodeId :=
  nodes.reverse.find? fun d => t.declarationName? d = some name

/-- The steps from a node up: each node on the way, with its parent. -/
def stepsUp (t : Tree) (n : NodeId) : List (NodeId × NodeId) :=
  (n :: t.ancestors n).zip (t.ancestors n)

/-- The declaration that a name refers to at a node: the last one in the innermost scope around it
that declares the name. -/
def lexical? (t : Tree) (n : NodeId) (name : String) : Option NodeId :=
  (t.stepsUp n).findSome? fun step => t.lastNamed name (t.visible step.2 step.1)

/-! ## Places of values -/

/-- Whether a node has the form of a parameter. -/
def hasParameterForm (t : Tree) (n : NodeId) : Bool :=
  match t.form? n with
  | some (.parameter ..) => true
  | _ => false

/-- The initial value of a parameter. -/
def initialValue? (t : Tree) (n : NodeId) : Option NodeId :=
  match t.form? n with
  | some (.parameter _ value _) => value
  | _ => none

/-- Whether a node is a property name that is computed. -/
def isComputedName (t : Tree) (n : NodeId) : Bool :=
  match t.form? n with
  | some (.computedName _) => true
  | _ => false

/-- Whether a child of a node is evaluated with it.  That is not so for names of declarations,
functions and properties, and for what stands in the place of a parameter and is none. -/
def evaluates (t : Tree) (n child : NodeId) : Bool :=
  match t.form? n with
  | some (.variableDeclaration _ value _) => value == some child
  | some (.parameter _ value _) => value == some child || !t.isParameterOfFunction n
  | some (.functionDeclaration f) | some (.functionExpression f) | some (.arrowFunction f)
  | some (.methodDeclaration f) =>
    f.body == some child || (f.parameters.contains child && t.hasParameterForm child)
  | some (.propertyAccess expression _) => expression == child
  | some (.propertyAssignment _ value) => value == child || t.isComputedName child
  | _ => true

/-- Whether a node stands where values stand: each step up from it comes from a child that is
evaluated. -/
def inValuePosition (t : Tree) (n : NodeId) : Bool :=
  (t.stepsUp n).all fun step => t.evaluates step.2 step.1

/-- The nodes of source files that stand where values stand, in the order of the source. -/
def valueNodes (t : Tree) (files : List NodeId) : List NodeId :=
  (files.flatMap t.preorder).filter t.inValuePosition

/-! ## One step -/

variable {t : Tree} {files : List NodeId} {n c d : NodeId} {name : String}

lemma lastNamed_append (first rest : List NodeId) :
    t.lastNamed name (first ++ rest) = (t.lastNamed name rest).or (t.lastNamed name first) := by
  rw [lastNamed, List.reverse_append, List.find?_append]
  rfl

lemma declarationName?_of_lastNamed {nodes : List NodeId} (h : t.lastNamed name nodes = some d) :
    t.declarationName? d = some name := by
  simpa using List.find?_some h

lemma mem_children_of_initialValue {value : NodeId} (h : t.initialValue? n = some value) :
    value ∈ t.children n := by
  rcases hform : t.form? n with _ | form
  · simp [initialValue?, hform] at h
  · rw [initialValue?, hform] at h
    rw [children_of_form hform]
    cases form <;> simp_all [Form.children]

lemma declarationName?_of_lexical (h : t.lexical? n name = some d) :
    t.declarationName? d = some name := by
  obtain ⟨_, _, hlast⟩ := List.exists_of_findSome?_eq_some h
  exact declarationName?_of_lastNamed hlast

section

variable {f : FunctionForm} (hf : t.function? n = some f)

include hf

lemma form?_of_function :
    t.form? n = some (.functionDeclaration f) ∨ t.form? n = some (.functionExpression f) ∨
      t.form? n = some (.arrowFunction f) ∨ t.form? n = some (.methodDeclaration f) := by
  rw [function?, Option.bind_eq_some_iff] at hf
  obtain ⟨form, hform, hf⟩ := hf
  rw [hform]
  cases form <;> simp_all [Form.function?]

lemma children_of_function : t.children n = Form.functionChildren f := by
  rcases form?_of_function hf with hform | hform | hform | hform <;>
    exact children_of_form hform

lemma identifier?_of_function : t.identifier? n = none := by
  rcases form?_of_function hf with hform | hform | hform | hform <;> rw [identifier?, hform]

lemma visible_of_function (c : NodeId) : t.visible n c = t.visibleInFunction f c := by
  rcases form?_of_function hf with hform | hform | hform | hform <;> rw [visible, hform]

lemma evaluates_of_function (c : NodeId) :
    t.evaluates n c = (f.body == some c || (f.parameters.contains c && t.hasParameterForm c)) := by
  rcases form?_of_function hf with hform | hform | hform | hform <;> rw [evaluates, hform]

lemma evaluates_of_body (hc : f.body = some c) : t.evaluates n c = true := by
  rw [evaluates_of_function hf]
  simp [hc]

end

namespace Forest

variable (h : t.Forest files)

include h

lemma stepsUp_root (hroot : t.parent? n = none) : t.stepsUp n = [] := by
  rw [stepsUp, h.tidy.ancestors_eq, hroot]
  rfl

lemma stepsUp_child (hc : t.parent? c = some n) : t.stepsUp c = (c, n) :: t.stepsUp n := by
  rw [stepsUp, h.tidy.ancestors_eq, hc]
  rfl

lemma lexical?_root (hroot : t.parent? n = none) (name : String) : t.lexical? n name = none := by
  rw [lexical?, h.stepsUp_root hroot]
  rfl

lemma lexical?_child (hc : t.parent? c = some n) (name : String) :
    t.lexical? c name = (t.lastNamed name (t.visible n c)).or (t.lexical? n name) := by
  rw [lexical?, h.stepsUp_child hc, List.findSome?_cons, lexical?]
  cases t.lastNamed name (t.visible n c) <;> rfl

/-- A node that declares nothing for a child is passed on the way up. -/
lemma lexical?_of_visible_eq_nil (hc : t.parent? c = some n) (hvisible : t.visible n c = [])
    (name : String) : t.lexical? c name = t.lexical? n name := by
  rw [h.lexical?_child hc, hvisible]
  rfl

lemma inValuePosition_root (hroot : t.parent? n = none) : t.inValuePosition n = true := by
  rw [inValuePosition, h.stepsUp_root hroot]
  rfl

lemma inValuePosition_child (hc : t.parent? c = some n) :
    t.inValuePosition c = (t.evaluates n c && t.inValuePosition n) := by
  rw [inValuePosition, h.stepsUp_child hc, List.all_cons]
  rfl

/-- Inside of what is not evaluated nothing is. -/
lemma inValuePosition_of_under {m : NodeId} (hm : t.Under m n)
    (hvalue : t.inValuePosition m = true) : t.inValuePosition n = true := by
  induction hm with
  | refl => exact hvalue
  | tail _ hp ih =>
    rw [h.inValuePosition_child hp, Bool.and_eq_true] at ih
    exact ih.2

/-! ## The parts of a function -/

section

variable {f : FunctionForm} (hf : t.function? n = some f)

include hf

lemma nodup_function : (f.name.toList ++ f.parameters ++ f.body.toList).Nodup := by
  have hnodup := h.nodup_children n
  rwa [children_of_function hf] at hnodup

lemma parent_of_parameter (hc : c ∈ f.parameters) : t.parent? c = some n := by
  rw [h.parent_iff, children_of_function hf]
  exact List.mem_append_left _ (List.mem_append_right _ hc)

lemma parent_of_body (hc : f.body = some c) : t.parent? c = some n := by
  rw [h.parent_iff, children_of_function hf, Form.functionChildren, hc]
  exact List.mem_append_right _ (List.mem_singleton_self c)

lemma body_ne_of_parameter (hc : c ∈ f.parameters) : f.body ≠ some c := by
  intro hbody
  have hnodup := h.nodup_function hf
  rw [hbody] at hnodup
  exact (List.nodup_append.1 hnodup).2.2 c (List.mem_append_right _ hc) c
    (List.mem_singleton_self c) rfl

/-- The name of a function is not evaluated with it. -/
lemma evaluates_of_name (hc : f.name = some c) : t.evaluates n c = false := by
  have hnodup := h.nodup_function hf
  rw [hc, List.append_assoc, List.nodup_append] at hnodup
  have hother : c ∉ f.parameters ++ f.body.toList := fun hmem =>
    hnodup.2.2 c (List.mem_singleton_self c) c hmem rfl
  rw [List.mem_append, not_or, Option.mem_toList] at hother
  rw [evaluates_of_function hf]
  simp [hother.1, hother.2]

/-- A parameter is inside of itself and those before it. -/
lemma visible_parameter {done rest : List NodeId} (hsplit : f.parameters = done ++ c :: rest) :
    t.visible n c = done ++ [c] := by
  have hc : c ∈ f.parameters := by simp [hsplit]
  have hfresh : c ∉ done := by
    have hnodup := (List.nodup_append.1 (List.nodup_append.1 (h.nodup_function hf)).1).2.1
    rw [hsplit] at hnodup
    exact fun hmem => (List.nodup_append.1 hnodup).2.2 c hmem c (List.mem_cons_self ..) rfl
  have hassoc : done ++ c :: rest = (done ++ [c]) ++ rest := by simp
  rw [visible_of_function hf, visibleInFunction, if_neg (h.body_ne_of_parameter hf hc), hsplit,
    List.idxOf_append_of_notMem hfresh, List.idxOf_cons_self, hassoc]
  exact List.take_left' (by simp)

lemma evaluates_parameter (hc : c ∈ f.parameters) : t.evaluates n c = t.hasParameterForm c := by
  rw [evaluates_of_function hf]
  simp [h.body_ne_of_parameter hf hc, hc]

lemma isParameterOfFunction_of_mem (hc : c ∈ f.parameters) : t.isParameterOfFunction c = true := by
  rw [isParameterOfFunction, h.parent_of_parameter hf hc, Option.bind_some, hf]
  simpa using hc

lemma isParameterOfFunction_of_body (hc : f.body = some c) :
    t.isParameterOfFunction c = false := by
  have hmem : c ∉ f.parameters := fun hmem => h.body_ne_of_parameter hf hmem hc
  rw [isParameterOfFunction, h.parent_of_body hf hc, Option.bind_some, hf]
  simpa using hmem

lemma isBody_of_body (hc : f.body = some c) : t.isBody c = true := by
  rw [isBody, h.parent_of_body hf hc, Option.bind_some, hf]
  simpa using hc

end

end Forest

end ValueSchema.Tree
