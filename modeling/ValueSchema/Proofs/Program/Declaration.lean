/-
# Declarations of names

The symbols that binding finds are declared by nodes of the program: binding makes a symbol only
for a node whose name it has read, and a node that has a name is there.  So whatever a name of a
complete program refers to has a declaration: `Draft.declares_finish`.
-/
import Mathlib.Tactic.Common
import ValueSchema.Program.Basic

namespace ValueSchema

namespace Tree

lemma form?_isSome_of_declarationName {t : Tree} {n : NodeId} {name : String}
    (h : t.declarationName? n = some name) : (t.form? n).isSome = true := by
  rcases hform : t.form? n with _ | form
  · simp [declarationName?, hform] at h
  · rfl

end Tree

namespace Binding

variable {t : Tree}

/-- The symbols that a pass has found are declared by nodes of the tree. -/
def Pass.Declared (t : Tree) (b : Pass) : Prop :=
  ∀ symbol ∈ b.found.symbols, (t.form? symbol.declaration).isSome = true

lemma declared_declareNamed {name? : Option String} {n : NodeId} {s : Pass × Place}
    (hs : s.1.Declared t) (hn : name?.isSome = true → (t.form? n).isSome = true) :
    (declareNamed name? n s).1.Declared t := by
  cases name? with
  | none => exact hs
  | some name =>
    intro symbol hsymbol
    rcases List.mem_append.1 hsymbol with hin | hnew
    · exact hs symbol hin
    · obtain rfl := List.mem_singleton.1 hnew
      exact hn rfl

lemma declared_declareDeclaration {n : NodeId} {s : Pass × Place} (hs : s.1.Declared t) :
    (declareNamed (t.declarationName? n) n s).1.Declared t := by
  refine declared_declareNamed hs fun hname => ?_
  obtain ⟨name, hname⟩ := Option.isSome_iff_exists.1 hname
  exact Tree.form?_isSome_of_declarationName hname

/-- What every step keeps, a fold over the steps keeps. -/
lemma declared_foldl {α : Type} {items : List α} {f : Pass × Place → α → Pass × Place}
    {s : Pass × Place} (hs : s.1.Declared t)
    (hf : ∀ s a, s.1.Declared t → (f s a).1.Declared t) : (items.foldl f s).1.Declared t := by
  induction items generalizing s with
  | nil => exact hs
  | cons a rest ih => exact ih (hf s a hs)

lemma declared_declareStatement {s : Pass × Place} (hs : s.1.Declared t) (statement : NodeId) :
    (declareStatement t s statement).1.Declared t := by
  rw [declareStatement.eq_def]
  split
  · rename_i f hform
    exact declared_declareNamed hs fun _ => by rw [hform]; rfl
  · exact declared_foldl hs fun _ _ hs => declared_declareDeclaration hs
  · exact hs

lemma declared_hoist {s : Pass × Place} (hs : s.1.Declared t) (statements : List NodeId) :
    (hoist t statements s).1.Declared t :=
  declared_foldl hs fun _ statement hs => declared_declareStatement hs statement

section

variable {bind : Place → Pass → NodeId → Pass}

lemma declared_bindAll (hbind : ∀ p b n, b.Declared t → (bind p b n).Declared t) (p : Place)
    {b : Pass} (hb : b.Declared t) (nodes : List NodeId) :
    (nodes.foldl (bind p) b).Declared t := by
  induction nodes generalizing b with
  | nil => exact hb
  | cons n rest ih => exact ih (hbind p b n hb)

lemma declared_bindStatements (hbind : ∀ p b n, b.Declared t → (bind p b n).Declared t)
    {b : Pass} (hb : b.Declared t) (p : Place) (statements : List NodeId) :
    (bindStatements t bind b p statements).Declared t :=
  declared_bindAll hbind _ (declared_hoist hb statements) statements

lemma declared_bindParameter (hbind : ∀ p b n, b.Declared t → (bind p b n).Declared t)
    {s : Pass × Place} (hs : s.1.Declared t) (parameter : NodeId) :
    (bindParameter t bind s parameter).1.Declared t := by
  have hdeclared : (declareNamed (t.declarationName? parameter) parameter s).1.Declared t :=
    declared_declareDeclaration hs
  rw [bindParameter.eq_def]
  dsimp only
  split
  · exact hbind _ _ _ hdeclared
  · exact hdeclared

lemma declared_bindFunction (hbind : ∀ p b n, b.Declared t → (bind p b n).Declared t) (p : Place)
    {b : Pass} (hb : b.Declared t) (n : NodeId) (f : FunctionForm) :
    (bindFunction t bind p b n f).Declared t := by
  have hparameters : (f.parameters.foldl (bindParameter t bind)
      (b, enterFunction t n f p)).1.Declared t :=
    declared_foldl hb fun _ parameter hs => declared_bindParameter hbind hs parameter
  rw [bindFunction.eq_def]
  dsimp only
  split
  · exact hparameters
  · split
    · exact declared_bindStatements hbind hparameters _ _
    · exact hbind _ _ _ hparameters

end

/-- Binding the names inside a node finds only symbols that are declared. -/
lemma declared_bindNode (fuel : Nat) (p : Place) (b : Pass) (n : NodeId) (hb : b.Declared t) :
    (bindNode t fuel p b n).Declared t := by
  induction fuel generalizing p b n with
  | zero => exact hb
  | succ fuel ih =>
    rw [bindNode]
    split
    · exact hb
    · rename_i file statements _
      have hfile : Pass.Declared t { b with file } := hb
      exact declared_bindStatements ih hfile _ _
    · exact declared_bindStatements ih hb _ _
    · exact declared_bindAll ih _ hb _
    · exact declared_bindFunction ih _ hb _ _
    · exact declared_bindFunction ih _ hb _ _
    · exact declared_bindFunction ih _ hb _ _
    · exact declared_bindFunction ih _ hb _ _
    · split <;> exact hb
    · exact ih _ _ _ hb
    · split
      · exact declared_bindAll ih _ hb _
      · exact ih _ _ _ hb
    · exact declared_bindAll ih _ hb _

lemma declared_ofFiles (t : Tree) (files : List NodeId) :
    ∀ symbol ∈ (ofFiles t files).symbols, (t.form? symbol.declaration).isSome = true :=
  declared_bindAll (declared_bindNode (t.size + 1)) {} (by simp [Pass.Declared]) files

end Binding

namespace Draft

/-- Giving types to nodes leaves the tree as it is. -/
lemma tree_giveType (d : Draft) (n : NodeId) : (d.giveType n).tree = d.tree := by
  rw [giveType.eq_def]
  split
  · rfl
  · split <;> rfl

lemma tree_finish (d : Draft) : d.finish.draft.tree = d.tree := by
  have hfold : ∀ (items : List Nat) (d : Draft),
      (items.foldl (fun d i => d.giveType ⟨i⟩) d).tree = d.tree := by
    intro items
    induction items with
    | nil => exact fun _ => rfl
    | cons i rest ih => exact fun d => (ih _).trans (tree_giveType d _)
  exact hfold _ d

/-- What a name of a complete program refers to is declared by a node of the program. -/
theorem declares_finish (d : Draft) {n : NodeId} {resolved : Resolved}
    (h : d.finish.host.resolve n = some resolved) :
    (d.finish.host.tree.form? resolved.declaration).isSome = true := by
  obtain ⟨symbol, -, h⟩ := Option.bind_eq_some_iff.1 h
  obtain ⟨declaration, hdeclaration, h⟩ := Option.bind_eq_some_iff.1 h
  obtain rfl := Option.some.inj h
  obtain ⟨entry, hentry, rfl⟩ := Option.map_eq_some_iff.1 hdeclaration
  show (d.finish.draft.tree.form? entry.declaration).isSome = true
  rw [tree_finish]
  exact Binding.declared_ofFiles d.tree d.files entry (List.mem_of_getElem? hentry)

end Draft

end ValueSchema
