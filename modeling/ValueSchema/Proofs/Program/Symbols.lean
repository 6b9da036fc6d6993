/-
# Symbols and their declarations

A binding pass makes at most one symbol for each node.  The nodes that it declares inside of a node
are in that node, and those that the statements of a scope declare are not declared again when the
statements are bound: `Pass.Grows`.  So the symbol of a declaration is known from the declaration.
-/
import Mathlib.Data.List.Flatten
import Mathlib.Data.List.Perm.Subperm
import ValueSchema.Proofs.Program.Declaration
import ValueSchema.Proofs.Program.Scope

namespace ValueSchema

namespace Tree

variable {t : Tree} {files : List NodeId} {n c : NodeId}

/-! ## What can be declared inside of a node -/

/-- Everything in a node. -/
def below (t : Tree) (n : NodeId) : List NodeId := (t.children n).flatMap t.preorder

/-- The nodes that can be declared when a node is bound.  The declarations of a variable statement
are declared before, with the scope that they are in. -/
def enclosed (t : Tree) (n : NodeId) : List NodeId :=
  match t.form? n with
  | some (.variableStatement declarations) => declarations.flatMap t.below
  | _ => t.below n

lemma flatMap_subperm {α β : Type} {items : List α} {f g : α → List β}
    (h : ∀ a ∈ items, (f a).Subperm (g a)) : (items.flatMap f).Subperm (items.flatMap g) := by
  induction items with
  | nil => exact List.Subperm.refl _
  | cons a rest ih =>
    rw [List.flatMap_cons, List.flatMap_cons]
    exact (h a (List.mem_cons_self ..)).append (ih fun b hb => h b (List.mem_cons_of_mem _ hb))

lemma preorder_subperm_below (hc : c ∈ t.children n) : (t.preorder c).Subperm (t.below n) := by
  obtain ⟨before, after, hsplit⟩ := List.append_of_mem hc
  rw [below, hsplit, List.flatMap_append, List.flatMap_cons]
  exact ((List.sublist_append_left _ _).trans (List.sublist_append_right _ _)).subperm

namespace Forest

variable (h : t.Forest files)

include h

lemma below_subperm_preorder (n : NodeId) : (t.below n).Subperm (t.preorder n) := by
  rw [h.tidy.preorder_eq]
  exact (List.sublist_cons_self n _).subperm

lemma enclosed_subperm_below (n : NodeId) : (t.enclosed n).Subperm (t.below n) := by
  rw [enclosed]
  split
  · rename_i declarations hform
    rw [below, children_of_form hform]
    exact flatMap_subperm fun d _ => h.below_subperm_preorder d
  · exact List.Subperm.refl _

lemma enclosed_subperm_preorder (n : NodeId) : (t.enclosed n).Subperm (t.preorder n) :=
  (h.enclosed_subperm_below n).trans (h.below_subperm_preorder n)

lemma children_enclosed_subperm (n : NodeId) :
    ((t.children n).flatMap t.enclosed).Subperm (t.enclosed n) := by
  rw [enclosed]
  split
  · rename_i declarations hform
    rw [children_of_form hform]
    exact flatMap_subperm fun d _ => h.enclosed_subperm_below d
  · exact flatMap_subperm fun c _ => h.enclosed_subperm_preorder c

/-- What a statement declares in its scope and what is declared inside of it are different nodes. -/
lemma declaredBy_enclosed_subperm (n : NodeId) :
    (t.declaredBy n ++ t.enclosed n).Subperm (t.preorder n) := by
  rw [declaredBy, enclosed]
  split
  · rename_i f hform
    rw [hform, h.tidy.preorder_eq]
    exact List.Subperm.refl _
  · rename_i declarations hform
    rw [hform]
    have hperm : (declarations ++ declarations.flatMap t.below).Perm
        (declarations.flatMap t.preorder) := by
      have hsplit := List.flatMap_append_perm declarations (fun d => [d]) t.below
      rw [List.flatMap_singleton'] at hsplit
      refine hsplit.trans (List.Perm.of_eq (List.flatMap_congr fun d _ => ?_))
      rw [h.tidy.preorder_eq]
      rfl
    have hbelow : declarations.flatMap t.preorder = t.below n := by
      rw [below, children_of_form hform]
      rfl
    exact (hperm.trans (List.Perm.of_eq hbelow)).subperm.trans (h.below_subperm_preorder n)
  · rw [List.nil_append]
    exact h.enclosed_subperm_preorder n

lemma hoisted_enclosed_subperm (statements : List NodeId) :
    (t.hoisted statements ++ statements.flatMap t.enclosed).Subperm
      (statements.flatMap t.preorder) :=
  (List.flatMap_append_perm statements t.declaredBy t.enclosed).subperm.trans
    (flatMap_subperm fun s _ => h.declaredBy_enclosed_subperm s)

end Forest

end Tree

namespace Binding

variable {t : Tree} {files : List NodeId} {b b' b'' : Pass} {p : Place} {n : NodeId}

/-! ## Declaring nodes in turn -/

/-- Declares a node under its name, if it has one. -/
def declareNode (t : Tree) (s : Pass × Place) (d : NodeId) : Pass × Place :=
  declareNamed (t.declarationName? d) d s

lemma declareStatement_eq (t : Tree) (s : Pass × Place) (statement : NodeId) :
    declareStatement t s statement = (t.declaredBy statement).foldl (declareNode t) s := by
  rw [declareStatement.eq_def, Tree.declaredBy]
  rcases hform : t.form? statement with _ | form
  · rfl
  · cases form with
    | functionDeclaration f =>
      have hname : t.declarationName? statement = f.name.bind t.identifier? := by
        rw [Tree.declarationName?, hform]
      rw [List.foldl_cons, List.foldl_nil, declareNode, hname]
    | _ => rfl

/-- A scope declares the functions and variables of its statements in their order. -/
lemma hoist_eq (t : Tree) (statements : List NodeId) (s : Pass × Place) :
    hoist t statements s = (t.hoisted statements).foldl (declareNode t) s := by
  rw [hoist, Tree.hoisted, List.foldl_flatMap]
  exact List.foldl_ext _ _ _ fun s statement _ => declareStatement_eq t s statement

/-- A parameter is declared, and then its initial value is bound. -/
lemma bindParameter_eq (t : Tree) (bind : Place → Pass → NodeId → Pass) (s : Pass × Place)
    (parameter : NodeId) :
    bindParameter t bind s parameter =
      (t.initialValue? parameter).elim (declareNode t s parameter) fun value =>
        (bind (declareNode t s parameter).2 (declareNode t s parameter).1 value,
          (declareNode t s parameter).2) := by
  rw [bindParameter.eq_def, Tree.initialValue?]
  rcases t.form? parameter with _ | form
  · rfl
  · cases form with
    | parameter name value isRest => cases value <;> rfl
    | _ => rfl

/-! ## Symbols that are found -/

/-- A pass has come further: it has found symbols for some of the given nodes, each under the name
that the node declares. -/
def Pass.Grows (t : Tree) (b b' : Pass) (nodes : List NodeId) : Prop :=
  ∃ new, b'.found.symbols = b.found.symbols ++ new ∧
    (new.map Symbol.declaration).Subperm nodes ∧
    ∀ symbol ∈ new, t.declarationName? symbol.declaration = some symbol.name

namespace Pass.Grows

lemma refl (t : Tree) (b : Pass) : b.Grows t b [] :=
  ⟨[], by simp, List.Subperm.refl _, by simp⟩

lemma trans {nodes more : List NodeId} (hg : b.Grows t b' nodes) (hg' : b'.Grows t b'' more) :
    b.Grows t b'' (nodes ++ more) := by
  obtain ⟨new, hnew, hnodes, hnamed⟩ := hg
  obtain ⟨new', hnew', hnodes', hnamed'⟩ := hg'
  refine ⟨new ++ new', by rw [hnew', hnew, List.append_assoc], ?_,
    List.forall_mem_append.2 ⟨hnamed, hnamed'⟩⟩
  rw [List.map_append]
  exact hnodes.append hnodes'

lemma mono {nodes more : List NodeId} (hg : b.Grows t b' nodes) (hsub : nodes.Subperm more) :
    b.Grows t b' more := by
  obtain ⟨new, hnew, hnodes, hnamed⟩ := hg
  exact ⟨new, hnew, hnodes.trans hsub, hnamed⟩

lemma symbols_le {nodes : List NodeId} (hg : b.Grows t b' nodes) :
    b.found.symbols <+: b'.found.symbols := by
  obtain ⟨new, hnew, -⟩ := hg
  exact ⟨new, hnew.symm⟩

/-- What every step adds, a fold over the steps adds. -/
lemma foldl {α : Type} {items : List α} {f : Pass × Place → α → Pass × Place}
    {nodes : α → List NodeId}
    (hf : ∀ a ∈ items, ∀ s : Pass × Place, s.1.Grows t (f s a).1 (nodes a))
    (s : Pass × Place) : s.1.Grows t (items.foldl f s).1 (items.flatMap nodes) := by
  induction items generalizing s with
  | nil => exact refl t s.1
  | cons a rest ih =>
    exact (hf a (List.mem_cons_self ..) s).trans
      (ih (fun a' ha' => hf a' (List.mem_cons_of_mem _ ha')) _)

end Pass.Grows

lemma grows_declareNode (t : Tree) (s : Pass × Place) (d : NodeId) :
    s.1.Grows t (declareNode t s d).1 [d] := by
  rw [declareNode]
  cases hname : t.declarationName? d with
  | none => exact (Pass.Grows.refl t s.1).mono (List.nil_subperm)
  | some name =>
    refine ⟨_, rfl, List.Subperm.refl _, fun symbol hsymbol => ?_⟩
    obtain rfl := List.mem_singleton.1 hsymbol
    exact hname

lemma grows_declareNodes (t : Tree) (s : Pass × Place) (nodes : List NodeId) :
    s.1.Grows t (nodes.foldl (declareNode t) s).1 nodes := by
  have hfold : s.1.Grows t (nodes.foldl (declareNode t) s).1 (nodes.flatMap fun d => [d]) :=
    Pass.Grows.foldl (fun d _ s => grows_declareNode t s d) s
  rwa [List.flatMap_singleton'] at hfold

section

variable {bind : Place → Pass → NodeId → Pass}

variable (h : t.Forest files)
  (hbind : ∀ (p : Place) (b : Pass) (n : NodeId), b.Grows t (bind p b n) (t.enclosed n))

include hbind

lemma grows_bindAll (p : Place) (b : Pass) (nodes : List NodeId) :
    b.Grows t (nodes.foldl (bind p) b) (nodes.flatMap t.enclosed) := by
  induction nodes generalizing b with
  | nil => exact .refl t b
  | cons n rest ih => exact (hbind p b n).trans (ih _)

include h

lemma grows_bindStatements (b : Pass) (p : Place) (statements : List NodeId) :
    b.Grows t (bindStatements t bind b p statements) (statements.flatMap t.preorder) := by
  have hhoist : b.Grows t (hoist t statements (b, p)).1 (t.hoisted statements) := by
    rw [hoist_eq]
    exact grows_declareNodes t (b, p) _
  exact (hhoist.trans (grows_bindAll hbind _ _ _)).mono (h.hoisted_enclosed_subperm statements)

lemma grows_bindParameter (s : Pass × Place) (parameter : NodeId) :
    s.1.Grows t (bindParameter t bind s parameter).1 (t.preorder parameter) := by
  have hdeclared := grows_declareNode t s parameter
  rw [h.tidy.preorder_eq, bindParameter_eq]
  cases hvalue : t.initialValue? parameter with
  | none => exact hdeclared.mono (List.sublist_append_left [parameter] _).subperm
  | some value =>
    have hbelow := Tree.preorder_subperm_below (Tree.mem_children_of_initialValue hvalue)
    exact (hdeclared.trans (hbind _ _ value)).mono (List.Subperm.append
      (List.Subperm.refl [parameter]) ((h.enclosed_subperm_preorder value).trans hbelow))

lemma grows_bindFunction (p : Place) (b : Pass) {f : FunctionForm}
    (hchildren : t.children n = Form.functionChildren f) :
    b.Grows t (bindFunction t bind p b n f) (t.below n) := by
  have hbelow : (f.parameters.flatMap t.preorder ++ f.body.toList.flatMap t.preorder).Subperm
      (t.below n) := by
    rw [Tree.below, hchildren, Form.functionChildren, List.append_assoc, List.flatMap_append,
      ← List.flatMap_append]
    exact (List.sublist_append_right _ _).subperm
  have hparameters : b.Grows t
      (f.parameters.foldl (bindParameter t bind) (b, enterFunction t n f p)).1
      (f.parameters.flatMap t.preorder) :=
    Pass.Grows.foldl (fun q _ s => grows_bindParameter h hbind s q) (b, enterFunction t n f p)
  rw [bindFunction.eq_def]
  dsimp only
  split
  · exact hparameters.mono ((List.sublist_append_left _ _).subperm.trans hbelow)
  · rename_i body hbody
    rw [hbody, Option.toList_some, List.flatMap_singleton] at hbelow
    refine Pass.Grows.mono (hparameters.trans ?_) hbelow
    split
    · rename_i statements hform
      have hstatements := h.below_subperm_preorder body
      rw [Tree.below, Tree.children_of_form hform] at hstatements
      exact (grows_bindStatements h hbind _ _ statements).mono hstatements
    · exact (hbind _ _ body).mono (h.enclosed_subperm_preorder body)

end

/-- Binding a node finds symbols for nodes in it only. -/
lemma grows_bindNode (h : t.Forest files) (fuel : Nat) (p : Place) (b : Pass) (n : NodeId) :
    b.Grows t (bindNode t fuel p b n) (t.enclosed n) := by
  induction fuel generalizing p b n with
  | zero => exact (Pass.Grows.refl t b).mono (List.nil_subperm)
  | succ fuel ih =>
    have hnone : b.Grows t b (t.enclosed n) := (Pass.Grows.refl t b).mono (List.nil_subperm)
    -- most nodes declare nothing: what is found is found in children
    have hsome : ∀ nodes : List NodeId, nodes.Sublist (t.children n) →
        b.Grows t (nodes.foldl (bindNode t fuel p) b) (t.enclosed n) := fun nodes hnodes =>
      (grows_bindAll ih p b nodes).mono
        ((hnodes.flatMap _).subperm.trans (h.children_enclosed_subperm n))
    rcases hform : t.form? n with _ | form
    · rw [bindNode, hform]
      exact hnone
    · have hchildren := Tree.children_of_form hform
      rw [hchildren] at hsome
      have hbelow : (∀ declarations, form ≠ .variableStatement declarations) →
          t.enclosed n = t.below n := fun hne => by
        rw [Tree.enclosed, hform]
        cases form <;> first | rfl | exact absurd rfl (hne _)
      rw [bindNode, hform]
      cases form with
      | sourceFile file statements =>
        have hfile : b.Grows t { b with file } [] := ⟨[], by simp, List.nil_subperm, by simp⟩
        have hstatements :=
          hfile.trans (grows_bindStatements h ih { b with file } p.enter statements)
        rw [hbelow (by simp), Tree.below, hchildren]
        exact hstatements
      | block statements =>
        rw [hbelow (by simp), Tree.below, hchildren]
        exact grows_bindStatements h ih b p.enter statements
      | variableDeclaration name value kind => exact hsome _ (List.sublist_cons_self _ _)
      | functionDeclaration f | functionExpression f | arrowFunction f | methodDeclaration f =>
        rw [hbelow (by simp)]
        exact grows_bindFunction h ih p b hchildren
      | identifier text =>
        dsimp only
        cases p.resolve? text with
        | none => exact hnone
        | some id => exact ⟨[], by simp [Pass.use], List.nil_subperm, by simp⟩
      | propertyAccess expression name =>
        exact hsome [expression] (by simp [Form.children])
      | propertyAssignment name value =>
        dsimp only
        split
        · exact hsome [name, value] (List.Sublist.refl _)
        · exact hsome [value] (by simp [Form.children])
      | _ => exact hsome _ (List.Sublist.refl _)

end Binding

end ValueSchema
