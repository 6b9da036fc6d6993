/-
# Binding is lexical

A binding pass walks through a program with the scopes that it is in.  At every node that it comes
to, these scopes resolve a name as the nodes around it say: `Place.Agrees`.  The uses that the pass
records for a node are therefore those of the identifiers in it that stand where values stand, in
the order of the source: `Binding.records_bindNode`.
-/
import ValueSchema.Program.Basic
import ValueSchema.Proofs.Program.Symbols

namespace ValueSchema

namespace Binding

variable {t : Tree} {files : List NodeId} {F : Binding} {b : Pass} {p : Place} {n c : NodeId}

/-! ## The numbers of symbols -/

/-- If no two items have the same key, an item is found by its key. -/
lemma find?_key_eq_some_iff {α κ : Type} [DecidableEq κ] (key : α → κ) {items : List α}
    (hnodup : (items.map key).Nodup) {k : κ} {a : α} :
    (items.reverse.find? fun b => key b = k) = some a ↔ a ∈ items ∧ key a = k := by
  constructor
  · intro hfind
    exact ⟨List.mem_reverse.1 (List.mem_of_find?_eq_some hfind),
      by simpa using List.find?_some hfind⟩
  · rintro ⟨ha, rfl⟩
    cases hfind : items.reverse.find? fun b => key b = key a with
    | none =>
      exact absurd (decide_eq_true rfl) (List.find?_eq_none.1 hfind a (List.mem_reverse.2 ha))
    | some b =>
      have hb := List.mem_reverse.1 (List.mem_of_find?_eq_some hfind)
      have hkey : key b = key a := by simpa using List.find?_some hfind
      rw [List.inj_on_of_nodup_map hnodup hb ha hkey]

/-- Each symbol is that of the node that declares it. -/
def Numbers (F : Binding) : Prop :=
  ∀ i symbol, F.symbols[i]? = some symbol → F.symbolOfDeclaration? symbol.declaration = some ⟨i⟩

lemma mem_numbered {i : Nat} {symbol : Symbol} :
    (symbol, (⟨i⟩ : SymbolId)) ∈ F.numbered ↔ F.symbols[i]? = some symbol := by
  simp [numbered, List.mem_zipIdx_iff_getElem?]

/-- So it is if no node declares two symbols. -/
lemma numbers_of_nodup (hnodup : (F.symbols.map Symbol.declaration).Nodup) : F.Numbers := by
  intro i symbol hsymbol
  have hkeys : F.numbered.map (fun e => e.1.declaration) = F.symbols.map Symbol.declaration := by
    rw [numbered, List.map_map]
    conv_rhs => rw [← List.zipIdx_map_fst 0 F.symbols, List.map_map]
    rfl
  rw [symbolOfDeclaration?,
    (find?_key_eq_some_iff _ (hkeys ▸ hnodup)).2 ⟨mem_numbered.2 hsymbol, rfl⟩]
  rfl

/-- The uses that a pass has recorded. -/
def Pass.recorded (b : Pass) : List (NodeId × Option SymbolId) :=
  b.found.uses.map fun u => (u.1, some u.2)

/-! ## Scopes -/

/-- The scopes of a place resolve names to the symbols of the declarations that are given. -/
def Place.Agrees (F : Binding) (p : Place) (find? : String → Option NodeId) : Prop :=
  ∀ name, (p.resolve? name).map some = (find? name).map F.symbolOfDeclaration?

/-- The innermost scope of a place declares some nodes; outside of it names are found as given. -/
structure Place.Declares (t : Tree) (F : Binding) (p : Place) (nodes : List NodeId)
    (outer? : String → Option NodeId) : Prop where
  scopes_ne : p.scopes ≠ []
  agrees : p.Agrees F fun name => (t.lastNamed name nodes).or (outer? name)

lemma Place.Agrees.enter {outer? : String → Option NodeId} (hp : p.Agrees F outer?) :
    p.enter.Declares t F [] outer? where
  scopes_ne := List.cons_ne_nil _ _
  agrees := hp

/-- A name that is declared is found before all others. -/
lemma resolve?_withName (hp : p.scopes ≠ []) (name : String) (id : SymbolId) (other : String) :
    (p.withName name id).resolve? other = if other = name then some id else p.resolve? other := by
  rw [Place.resolve?, Place.withName, Place.resolve?]
  cases hscopes : p.scopes with
  | nil => exact absurd hscopes hp
  | cons scope outer =>
    simp only [List.findSome?_cons, List.lookup_cons]
    by_cases hother : other = name
    · simp [hother]
    · simp [hother, beq_eq_false_iff_ne.2 hother]

lemma Place.Declares.declareNode (hF : F.Numbers) {s : Pass × Place} {d : NodeId}
    {nodes : List NodeId} {outer? : String → Option NodeId} (hs : s.2.Declares t F nodes outer?)
    (hle : (declareNode t s d).1.found.symbols <+: F.symbols) :
    (declareNode t s d).2.Declares t F (nodes ++ [d]) outer? := by
  have hlast : ∀ name, t.lastNamed name (nodes ++ [d]) =
      if t.declarationName? d = some name then some d else t.lastNamed name nodes := by
    intro name
    rw [Tree.lastNamed_append, Tree.lastNamed, List.reverse_singleton, List.find?_singleton]
    split <;> simp_all
  rw [Binding.declareNode] at hle ⊢
  cases hname : t.declarationName? d with
  | none =>
    refine ⟨hs.scopes_ne, fun name => (hs.agrees name).trans ?_⟩
    dsimp only
    rw [hlast, hname]
    rfl
  | some name =>
    rw [hname] at hle
    have hid : F.symbolOfDeclaration? d = some ⟨s.1.found.symbols.length⟩ := by
      obtain ⟨rest, hrest⟩ := hle
      refine hF _ ⟨name, d, s.2.pathOf name, s.1.file⟩ ?_
      rw [← hrest]
      simp [declareNamed, declare]
    refine ⟨?_, fun other => ?_⟩
    · show (s.2.withName name _).scopes ≠ []
      rw [Place.withName]
      cases hscopes : s.2.scopes with
      | nil => exact absurd hscopes hs.scopes_ne
      | cons scope outer => exact List.cons_ne_nil _ _
    · show ((s.2.withName name _).resolve? other).map some =
        ((t.lastNamed other (nodes ++ [d])).or (outer? other)).map F.symbolOfDeclaration?
      rw [resolve?_withName hs.scopes_ne, hlast, hname]
      by_cases hother : other = name
      · rw [if_pos hother, if_pos (by rw [hother]), Option.some_or, Option.map_some,
          Option.map_some, hid]
      · rw [if_neg hother, if_neg fun heq => hother (Option.some.inj heq).symm]
        exact hs.agrees other

lemma Place.Declares.declareNodes (hF : F.Numbers) {s : Pass × Place} {nodes more : List NodeId}
    {outer? : String → Option NodeId} (hs : s.2.Declares t F nodes outer?)
    (hle : (more.foldl (Binding.declareNode t) s).1.found.symbols <+: F.symbols) :
    (more.foldl (Binding.declareNode t) s).2.Declares t F (nodes ++ more) outer? := by
  induction more generalizing s nodes with
  | nil => rwa [List.append_nil]
  | cons d rest ih =>
    rw [List.foldl_cons] at hle ⊢
    have hrest := (grows_declareNodes t (Binding.declareNode t s d) rest).symbols_le
    have hd := hs.declareNode hF (hrest.trans hle)
    have hall := ih hd hle
    rwa [List.append_assoc] at hall

lemma uses_declareNode (s : Pass × Place) (d : NodeId) :
    (declareNode t s d).1.recorded = s.1.recorded := by
  rw [declareNode]
  cases t.declarationName? d <;> rfl

lemma uses_declareNodes (s : Pass × Place) (nodes : List NodeId) :
    (nodes.foldl (declareNode t) s).1.recorded = s.1.recorded := by
  induction nodes generalizing s with
  | nil => rfl
  | cons d rest ih => rw [List.foldl_cons, ih, uses_declareNode]

/-! ## Uses -/

/-- The use that a node is, if it is an identifier that stands where values stand and whose name has
a declaration around it: one of the symbol of this declaration. -/
def use? (t : Tree) (F : Binding) (n : NodeId) : Option (NodeId × Option SymbolId) :=
  if t.inValuePosition n then do
    let text ← t.identifier? n
    let declaration ← t.lexical? n text
    return (n, F.symbolOfDeclaration? declaration)
  else none

/-- The uses in a node, in the order of the source. -/
def usesIn (t : Tree) (F : Binding) (n : NodeId) : List (NodeId × Option SymbolId) :=
  (t.preorder n).filterMap (use? t F)

lemma use?_eq_none_of_identifier (hn : t.identifier? n = none) : use? t F n = none := by
  rw [use?, hn]
  split <;> rfl

section

variable (h : t.Forest files)

include h

lemma usesIn_eq (n : NodeId) :
    usesIn t F n = (use? t F n).toList ++ (t.children n).flatMap (usesIn t F) := by
  rw [usesIn, h.tidy.preorder_eq, List.filterMap_cons, List.filterMap_flatMap]
  cases use? t F n <;> rfl

/-- A node that is no identifier is used nowhere itself. -/
lemma usesIn_of_identifier (hn : t.identifier? n = none) :
    usesIn t F n = (t.children n).flatMap (usesIn t F) := by
  rw [usesIn_eq h, use?_eq_none_of_identifier hn]
  rfl

/-- In a place where values do not stand nothing is used. -/
lemma usesIn_eq_nil (hn : t.inValuePosition n = false) : usesIn t F n = [] := by
  refine List.filterMap_eq_nil_iff.2 fun m hm => ?_
  have hm : t.inValuePosition m = false := by
    by_contra hvalue
    have := h.inValuePosition_of_under (h.tidy.under_of_mem_preorder hm) (by simpa using hvalue)
    rw [hn] at this
    cases this
  rw [use?, hm]
  rfl

lemma usesIn_of_evaluates (hc : t.parent? c = some n) (hn : t.evaluates n c = false) :
    usesIn t F c = [] := by
  refine usesIn_eq_nil h ?_
  rw [h.inValuePosition_child hc, hn]
  rfl

/-- What is used in a node is used in the children that are evaluated with it. -/
lemma usesIn_eq_flatMap_filter (hidentifier : t.identifier? n = none) :
    usesIn t F n = ((t.children n).filter (t.evaluates n)).flatMap (usesIn t F) := by
  rw [usesIn_of_identifier h hidentifier]
  have hall : ∀ children : List NodeId, children ⊆ t.children n →
      children.flatMap (usesIn t F) =
        (children.filter (t.evaluates n)).flatMap (usesIn t F) := by
    intro children hsub
    induction children with
    | nil => rfl
    | cons c rest ih =>
      obtain ⟨hc, hrest⟩ := List.cons_subset.1 hsub
      rw [List.flatMap_cons, ih hrest]
      cases hevaluates : t.evaluates n c with
      | true => rw [List.filter_cons_of_pos hevaluates, List.flatMap_cons]
      | false =>
        rw [List.filter_cons_of_neg (by simp [hevaluates]),
          usesIn_of_evaluates h (h.parent_iff.2 hc) hevaluates]
        rfl
  exact hall _ (List.Subset.refl _)

end

/-! ## Binding nodes that use names -/

/-- A node that is bound on its own: it is no parameter of a function, and no block that is the body
of one. -/
structure Enters (t : Tree) (n : NodeId) : Prop where
  not_parameter : t.isParameterOfFunction n = false
  not_body : ∀ statements, t.form? n = some (.block statements) → t.isBody n = false

/-- The children of all nodes but functions are bound on their own. -/
lemma enters_of_function (hc : t.parent? c = some n) (hn : t.function? n = none) : Enters t c where
  not_parameter := by
    rw [Tree.isParameterOfFunction, hc, Option.bind_some, hn]
    rfl
  not_body _ _ := by
    rw [Tree.isBody, hc, Option.bind_some, hn]
    rfl

lemma enters_root (hc : t.parent? c = none) : Enters t c where
  not_parameter := by
    rw [Tree.isParameterOfFunction, hc]
    rfl
  not_body _ _ := by
    rw [Tree.isBody, hc]
    rfl

/-- Binding a node that stands where values stand, with the scopes around it, records the uses in
it. -/
def Records (t : Tree) (F : Binding) (bind : Place → Pass → NodeId → Pass) (n : NodeId) : Prop :=
  ∀ p b, Enters t n → t.inValuePosition n = true → p.Agrees F (t.lexical? n) →
    (bind p b n).found.symbols <+: F.symbols →
    (bind p b n).recorded = b.recorded ++ usesIn t F n

section

variable {bind : Place → Pass → NodeId → Pass} (h : t.Forest files)
  (hgrows : ∀ (p : Place) (b : Pass) (n : NodeId), b.Grows t (bind p b n) (t.enclosed n))

include hgrows

lemma uses_bindAll {nodes : List NodeId}
    (hnodes : ∀ n ∈ nodes, ∀ b, (bind p b n).found.symbols <+: F.symbols →
      (bind p b n).recorded = b.recorded ++ usesIn t F n)
    (hle : (nodes.foldl (bind p) b).found.symbols <+: F.symbols) :
    (nodes.foldl (bind p) b).recorded = b.recorded ++ nodes.flatMap (usesIn t F) := by
  induction nodes generalizing b with
  | nil => simp
  | cons n rest ih =>
    rw [List.foldl_cons] at hle ⊢
    have hrest := (grows_bindAll hgrows p (bind p b n) rest).symbols_le
    have hn := hnodes n (List.mem_cons_self ..) b (hrest.trans hle)
    rw [ih (fun m hm => hnodes m (List.mem_cons_of_mem _ hm)) hle, hn, List.flatMap_cons,
      List.append_assoc]

/-- The statements of a scope, which is the innermost one and declares some nodes already. -/
lemma uses_bindStatements (hF : F.Numbers) {statements declared : List NodeId}
    {outer? : String → Option NodeId}
    (hrecords : ∀ s ∈ statements, Records t F bind s)
    (hvalue : ∀ s ∈ statements, Enters t s ∧ t.inValuePosition s = true)
    (hlexical : ∀ s ∈ statements, ∀ name, t.lexical? s name =
      (t.lastNamed name (declared ++ t.hoisted statements)).or (outer? name))
    (hp : p.Declares t F declared outer?)
    (hle : (bindStatements t bind b p statements).found.symbols <+: F.symbols) :
    (bindStatements t bind b p statements).recorded =
      b.recorded ++ statements.flatMap (usesIn t F) := by
  -- all declarations come first, so that each statement is bound with the same scopes
  rw [bindStatements, hoist_eq] at hle ⊢
  dsimp only at hle ⊢
  have hgrown := (grows_bindAll hgrows ((t.hoisted statements).foldl (declareNode t) (b, p)).2
    ((t.hoisted statements).foldl (declareNode t) (b, p)).1 statements).symbols_le
  have hdeclares := Place.Declares.declareNodes hF (s := (b, p)) hp (hgrown.trans hle)
  rw [uses_bindAll hgrows (fun s hs b hle => ?_) hle, uses_declareNodes]
  obtain ⟨henters, hposition⟩ := hvalue s hs
  refine hrecords s hs _ b henters hposition (fun name => ?_) hle
  rw [hlexical s hs]
  exact hdeclares.agrees name

include h

/-- The children of a node that declares nothing and is no identifier. -/
lemma uses_bindChildren (hrecords : ∀ c ∈ t.children n, Records t F bind c)
    (hvalue : t.inValuePosition n = true) (hp : p.Agrees F (t.lexical? n))
    (hfunction : t.function? n = none) (hidentifier : t.identifier? n = none)
    (hvisible : ∀ c, t.visible n c = [])
    (hle : (((t.children n).filter (t.evaluates n)).foldl (bind p) b).found.symbols <+:
      F.symbols) :
    (((t.children n).filter (t.evaluates n)).foldl (bind p) b).recorded =
      b.recorded ++ usesIn t F n := by
  rw [usesIn_eq_flatMap_filter h hidentifier]
  refine uses_bindAll hgrows (fun c hc b hle => ?_) hle
  rw [List.mem_filter] at hc
  have hparent := h.parent_iff.2 hc.1
  refine hrecords c hc.1 p b (enters_of_function hparent hfunction) ?_ (fun name => ?_) hle
  · rw [h.inValuePosition_child hparent, hc.2, hvalue]
    rfl
  · rw [h.lexical?_of_visible_eq_nil hparent (hvisible c)]
    exact hp name

/-- A node that is a scope of its own declares what its statements declare. -/
lemma uses_bindScope (hF : F.Numbers) {statements : List NodeId}
    (hrecords : ∀ c ∈ t.children n, Records t F bind c) (hvalue : t.inValuePosition n = true)
    (hp : p.Agrees F (t.lexical? n)) (hchildren : t.children n = statements)
    (hfunction : t.function? n = none) (hidentifier : t.identifier? n = none)
    (hvisible : ∀ c, t.visible n c = t.hoisted statements)
    (hevaluates : ∀ c, t.evaluates n c = true)
    (hle : (bindStatements t bind b p.enter statements).found.symbols <+: F.symbols) :
    (bindStatements t bind b p.enter statements).recorded = b.recorded ++ usesIn t F n := by
  subst hchildren
  rw [usesIn_of_identifier h hidentifier]
  refine uses_bindStatements hgrows hF hrecords (fun s hs => ⟨?_, ?_⟩) (fun s hs name => ?_)
    hp.enter hle
  · exact enters_of_function (h.parent_iff.2 hs) hfunction
  · rw [h.inValuePosition_child (h.parent_iff.2 hs), hevaluates, hvalue]
    rfl
  · rw [h.lexical?_child (h.parent_iff.2 hs), hvisible, List.nil_append]

/-! ## Functions -/

section

variable {f : FunctionForm} (hf : t.function? n = some f) (hF : F.Numbers)
  (hrecords : ∀ m : NodeId, m.index < n.index → Records t F bind m)
  (hvalue : t.inValuePosition n = true)

include hf hF hrecords hvalue

/-- A parameter is declared with those before it, and then its initial value is bound. -/
lemma uses_bindParameter {q : NodeId} {done rest : List NodeId}
    (hsplit : f.parameters = done ++ q :: rest) {s : Pass × Place}
    (hs : s.2.Declares t F done (t.lexical? n))
    (hle : (bindParameter t bind s q).1.found.symbols <+: F.symbols) :
    (bindParameter t bind s q).1.recorded = s.1.recorded ++ usesIn t F q ∧
      (bindParameter t bind s q).2.Declares t F (done ++ [q]) (t.lexical? n) := by
  have hmem : q ∈ f.parameters := by simp [hsplit]
  have hq := h.parent_of_parameter hf hmem
  have hevaluates := h.evaluates_parameter hf hmem
  have hlexical : ∀ name, t.lexical? q name =
      (t.lastNamed name (done ++ [q])).or (t.lexical? n name) := fun name => by
    rw [h.lexical?_child hq, h.visible_parameter hf hsplit]
  -- what is no parameter is declared, but not evaluated
  have hdeclared : (declareNode t s q).1.found.symbols <+: F.symbols →
      usesIn t F q = [] → (declareNode t s q).1.recorded = s.1.recorded ++ usesIn t F q ∧
        (declareNode t s q).2.Declares t F (done ++ [q]) (t.lexical? n) := fun hle huses => by
    rw [huses, List.append_nil]
    exact ⟨uses_declareNode s q, hs.declareNode hF hle⟩
  rw [bindParameter_eq, Tree.initialValue?] at hle ⊢
  rcases hform : t.form? q with _ | form
  · rw [hform] at hle
    refine hdeclared hle (usesIn_of_evaluates h hq ?_)
    rw [hevaluates, Tree.hasParameterForm, hform]
  · rw [hform] at hle
    cases form with
    | parameter name value isRest =>
      have hchildren := Tree.children_of_form hform
      have hposition : t.inValuePosition q = true := by
        rw [h.inValuePosition_child hq, hevaluates, Tree.hasParameterForm, hform, hvalue]
        rfl
      have hstep : ∀ c, t.evaluates q c = (value == some c) := fun c => by
        rw [Tree.evaluates, hform, h.isParameterOfFunction_of_mem hf hmem]
        simp
      -- the name is no use, as it is another node than the initial value
      have hname : usesIn t F name = [] := by
        have hparent : t.parent? name = some q := by
          rw [h.parent_iff, hchildren]
          simp [Form.children]
        refine usesIn_of_evaluates h hparent ?_
        have hnodup := h.nodup_children q
        rw [hchildren, Form.children, List.nodup_cons, Option.mem_toList] at hnodup
        rw [hstep]
        simpa using hnodup.1
      have huses : usesIn t F q = value.toList.flatMap (usesIn t F) := by
        rw [usesIn_of_identifier h (by rw [Tree.identifier?, hform]), hchildren, Form.children,
          List.flatMap_cons, hname, List.nil_append]
      cases value with
      | none => exact hdeclared hle huses
      | some value =>
        dsimp only [Option.elim_some] at hle ⊢
        have hparent : t.parent? value = some q := by
          rw [h.parent_iff, hchildren]
          simp [Form.children]
        have hgrown := (hgrows (declareNode t s q).2 (declareNode t s q).1 value).symbols_le
        have hdeclares := hs.declareNode hF (hgrown.trans hle)
        have hindex : value.index < n.index := by
          have := h.tidy.index_lt_of_parent hparent
          have := h.tidy.index_lt_of_parent hq
          omega
        refine ⟨?_, hdeclares⟩
        rw [hrecords value hindex _ _ (enters_of_function hparent ?_) ?_ (fun name => ?_) hle,
          uses_declareNode, huses, Option.toList_some, List.flatMap_singleton]
        · rw [Tree.function?, hform]
          rfl
        · rw [h.inValuePosition_child hparent, hstep, hposition]
          simp
        · rw [h.lexical?_of_visible_eq_nil hparent (by rw [Tree.visible, hform]), hlexical]
          exact hdeclares.agrees name
    | _ =>
      refine hdeclared hle (usesIn_of_evaluates h hq ?_)
      rw [hevaluates, Tree.hasParameterForm, hform]

lemma uses_bindParameters {done rest : List NodeId} (hsplit : f.parameters = done ++ rest)
    {s : Pass × Place} (hs : s.2.Declares t F done (t.lexical? n))
    (hle : (rest.foldl (bindParameter t bind) s).1.found.symbols <+: F.symbols) :
    (rest.foldl (bindParameter t bind) s).1.recorded =
        s.1.recorded ++ rest.flatMap (usesIn t F) ∧
      (rest.foldl (bindParameter t bind) s).2.Declares t F f.parameters (t.lexical? n) := by
  induction rest generalizing done s with
  | nil =>
    rw [List.append_nil] at hsplit
    rw [hsplit]
    exact ⟨by simp, hs⟩
  | cons q rest ih =>
    rw [List.foldl_cons] at hle ⊢
    have hgrown := (Pass.Grows.foldl (fun q _ s => grows_bindParameter h hgrows s q)
      (bindParameter t bind s q) : Pass.Grows t _
        (rest.foldl (bindParameter t bind) (bindParameter t bind s q)).1
        (rest.flatMap t.preorder)).symbols_le
    obtain ⟨huses, hdeclares⟩ := uses_bindParameter h hgrows hf hF hrecords hvalue hsplit hs
      (hgrown.trans hle)
    have hsplit' : f.parameters = (done ++ [q]) ++ rest := by simp [hsplit]
    obtain ⟨hrest, hall⟩ := ih hsplit' hdeclares hle
    refine ⟨?_, hall⟩
    rw [hrest, huses, List.flatMap_cons, List.append_assoc]

/-- The body of a function is inside of all its parameters, and if it is a block, so are its
statements. -/
lemma uses_bindBody {body : NodeId} (hbody : f.body = some body)
    (hp : b.found.symbols <+: F.symbols → p.Declares t F f.parameters (t.lexical? n))
    (hle : (match t.form? body with
      | some (.block statements) => bindStatements t bind b p statements
      | _ => bind p b body).found.symbols <+: F.symbols) :
    b.found.symbols <+: F.symbols ∧
      (match t.form? body with
      | some (.block statements) => bindStatements t bind b p statements
      | _ => bind p b body).recorded = b.recorded ++ usesIn t F body := by
  have hparent := h.parent_of_body hf hbody
  have hindex := h.tidy.index_lt_of_parent hparent
  have hposition : t.inValuePosition body = true := by
    rw [h.inValuePosition_child hparent, Tree.evaluates_of_body hf hbody, hvalue]
    rfl
  have hlexical : ∀ name, t.lexical? body name =
      (t.lastNamed name (t.visibleInFunction f body)).or (t.lexical? n name) := fun name => by
    rw [h.lexical?_child hparent, Tree.visible_of_function hf]
  rw [Tree.visibleInFunction, if_pos hbody] at hlexical
  -- a body that is no block is bound like any other node
  have hplain : (∀ statements, t.form? body ≠ some (.block statements)) →
      (∀ name, t.lexical? body name =
        (t.lastNamed name (f.parameters ++ [])).or (t.lexical? n name)) →
      (bind p b body).found.symbols <+: F.symbols → b.found.symbols <+: F.symbols ∧
        (bind p b body).recorded = b.recorded ++ usesIn t F body := by
    intro hblock hlexical hle
    have hbefore := (hgrows p b body).symbols_le.trans hle
    have henters : Enters t body := ⟨h.isParameterOfFunction_of_body hf hbody,
      fun statements hform => absurd hform (hblock statements)⟩
    refine ⟨hbefore, hrecords body hindex p b henters hposition (fun name => ?_) hle⟩
    rw [hlexical, List.append_nil]
    exact (hp hbefore).agrees name
  rcases hform : t.form? body with _ | form
  · rw [hform] at hle hlexical
    exact hplain (by simp [hform]) hlexical hle
  · rw [hform] at hle hlexical
    cases form with
    | block statements =>
      have hchild : ∀ s ∈ statements, t.parent? s = some body := fun s hs => by
        rw [h.parent_iff, Tree.children_of_form hform]
        exact hs
      have hvisible : ∀ s, t.visible body s = [] := fun s => by
        rw [Tree.visible, hform]
        exact if_pos (h.isBody_of_body hf hbody)
      have hbefore := (grows_bindStatements h hgrows b p statements).symbols_le.trans hle
      have huses : usesIn t F body = statements.flatMap (usesIn t F) := by
        rw [usesIn_of_identifier h (by rw [Tree.identifier?, hform]), Tree.children_of_form hform]
        rfl
      refine ⟨hbefore, ?_⟩
      rw [huses]
      refine uses_bindStatements hgrows hF (fun s hs => hrecords s ?_) (fun s hs => ⟨?_, ?_⟩)
        (fun s hs name => ?_) (hp hbefore) hle
      · have := h.tidy.index_lt_of_parent (hchild s hs)
        omega
      · exact enters_of_function (hchild s hs) (by rw [Tree.function?, hform]; rfl)
      · rw [h.inValuePosition_child (hchild s hs), Tree.evaluates, hform, hposition]
        rfl
      · rw [h.lexical?_of_visible_eq_nil (hchild s hs) (hvisible s), hlexical]
    | _ => exact hplain (by simp [hform]) hlexical hle

lemma uses_bindFunction (hp : p.Agrees F (t.lexical? n))
    (hle : (bindFunction t bind p b n f).found.symbols <+: F.symbols) :
    (bindFunction t bind p b n f).recorded = b.recorded ++ usesIn t F n := by
  have hname : f.name.toList.flatMap (usesIn t F) = [] := by
    cases hname : f.name with
    | none => rfl
    | some name =>
      have hparent : t.parent? name = some n := by
        rw [h.parent_iff, Tree.children_of_function hf, Form.functionChildren, hname]
        simp
      rw [Option.toList_some, List.flatMap_singleton]
      exact usesIn_of_evaluates h hparent (h.evaluates_of_name hf hname)
  have huses : usesIn t F n =
      f.parameters.flatMap (usesIn t F) ++ f.body.toList.flatMap (usesIn t F) := by
    rw [usesIn_of_identifier h (Tree.identifier?_of_function hf), Tree.children_of_function hf,
      Form.functionChildren, List.append_assoc, List.flatMap_append, List.flatMap_append, hname,
      List.nil_append]
  have hentered : (enterFunction t n f p).Declares t F [] (t.lexical? n) :=
    ⟨List.cons_ne_nil _ _, hp⟩
  have hparameters := uses_bindParameters h hgrows hf hF hrecords hvalue
    (List.nil_append f.parameters).symm (s := (b, enterFunction t n f p)) hentered
  rw [huses, ← List.append_assoc]
  rw [bindFunction.eq_def] at hle ⊢
  generalize f.parameters.foldl (bindParameter t bind) (b, enterFunction t n f p) = s
    at hparameters hle ⊢
  obtain ⟨b', p'⟩ := s
  dsimp only at hparameters hle ⊢
  cases hbody : f.body with
  | none =>
    rw [hbody] at hle
    rw [(hparameters hle).1]
    simp
  | some body =>
    rw [hbody] at hle
    obtain ⟨hbefore, hall⟩ := uses_bindBody h hgrows hf hF hrecords hvalue hbody
      (fun hle => (hparameters hle).2) hle
    rw [Option.toList_some, List.flatMap_singleton, ← (hparameters hbefore).1]
    exact hall

end

end

/-! ## Nodes that pass on -/

/-- Whether a form is no scope, no function and no name: such a node passes its scopes on to its
children. -/
def passesOn : Form → Bool
  | .sourceFile .. | .block _ | .functionDeclaration _ | .functionExpression _ | .arrowFunction _
  | .methodDeclaration _ | .identifier _ => false
  | _ => true

section

variable {form : Form} (hform : t.form? n = some form) (hpasses : passesOn form = true)

include hform hpasses

lemma function?_of_passesOn : t.function? n = none := by
  rw [Tree.function?, hform]
  cases form <;> first | rfl | cases hpasses

lemma identifier?_of_passesOn : t.identifier? n = none := by
  rw [Tree.identifier?, hform]
  cases form <;> first | rfl | cases hpasses

lemma visible_of_passesOn (c : NodeId) : t.visible n c = [] := by
  rw [Tree.visible, hform]
  cases form <;> first | rfl | cases hpasses

/-- The children that are bound are those that are evaluated. -/
lemma bindNode_of_passesOn (h : t.Forest files) (hparameter : t.isParameterOfFunction n = false)
    (fuel : Nat) (p : Place) (b : Pass) :
    bindNode t (fuel + 1) p b n =
      ((t.children n).filter (t.evaluates n)).foldl (bindNode t fuel p) b := by
  have hchildren := Tree.children_of_form hform
  have hnodup := h.nodup_children n
  have hall : (∀ c, t.evaluates n c = true) →
      (t.children n).filter (t.evaluates n) = form.children := fun hall => by
    rw [hchildren, List.filter_eq_self]
    exact fun c _ => hall c
  rw [hchildren] at hnodup
  rw [bindNode, hform]
  cases form with
  | sourceFile | block | functionDeclaration | functionExpression | arrowFunction
  | methodDeclaration | identifier => cases hpasses
  | variableDeclaration name value kind =>
    have hstep : ∀ c, t.evaluates n c = (value == some c) := fun c => by
      rw [Tree.evaluates, hform]
    rw [hchildren]
    cases value with
    | none => simp [Form.children, hstep]
    | some value =>
      have hne : value ≠ name := fun heq => by simp [Form.children, heq] at hnodup
      simp [Form.children, hstep, hne]
  | propertyAccess expression name =>
    have hne : expression ≠ name := fun heq => by simp [Form.children, heq] at hnodup
    have hstep : ∀ c, t.evaluates n c = (expression == c) := fun c => by
      rw [Tree.evaluates, hform]
    rw [hchildren]
    simp [Form.children, hstep, hne]
  | propertyAssignment name value =>
    have hne : value ≠ name := fun heq => by simp [Form.children, heq] at hnodup
    have hstep : ∀ c, t.evaluates n c = (value == c || t.isComputedName c) := fun c => by
      rw [Tree.evaluates, hform]
    have hnodes : Form.children (.propertyAssignment name value) = [name, value] := rfl
    rw [hchildren, hnodes, List.filter_cons, hstep name, Tree.isComputedName]
    -- the name is bound only if it is computed
    dsimp only
    rcases t.form? name with _ | form
    · simp [hstep, hne]
    · cases form <;> simp [hstep, hne]
  | parameter name value isRest =>
    rw [hall fun c => by rw [Tree.evaluates, hform, hparameter]; simp]
  | _ => rw [hall fun c => by rw [Tree.evaluates, hform]]

end

/-! ## All nodes -/

/-- An identifier is the only thing that is used in it. -/
lemma usesIn_identifier (h : t.Forest files) {text : String}
    (hform : t.form? n = some (.identifier text)) (hvalue : t.inValuePosition n = true)
    (hp : p.Agrees F (t.lexical? n)) :
    usesIn t F n = (((p.resolve? text).map some).map fun id => (n, id)).toList := by
  rw [usesIn_eq h, Tree.children_of_form hform, use?, if_pos hvalue, Tree.identifier?, hform,
    hp text, Option.map_map, Option.map_eq_bind]
  exact List.append_nil _

/-- Binding a node records the uses in it.  The induction is on the depth; the scopes are carried
down by `Place.Agrees`. -/
lemma records_bindNode (h : t.Forest files) (hF : F.Numbers) (fuel : Nat) (n : NodeId)
    (hfuel : n.index < fuel) : Records t F (bindNode t fuel) n := by
  induction fuel generalizing n with
  | zero => exact absurd hfuel (Nat.not_lt_zero _)
  | succ fuel ih =>
    intro p b henters hvalue hp hle
    have hgrows := grows_bindNode h fuel
    have hbelow : ∀ m : NodeId, m.index < n.index → Records t F (bindNode t fuel) m :=
      fun m hm => ih m (by omega)
    have hrecords : ∀ c ∈ t.children n, Records t F (bindNode t fuel) c :=
      fun c hc => hbelow c (h.older hc)
    rcases hform : t.form? n with _ | form
    · rw [bindNode, hform]
      rw [usesIn_of_identifier h (by rw [Tree.identifier?, hform]), Tree.children, hform]
      exact (List.append_nil _).symm
    by_cases hpasses : passesOn form = true
    · rw [bindNode_of_passesOn hform hpasses h henters.not_parameter] at hle ⊢
      exact uses_bindChildren h hgrows hrecords hvalue hp (function?_of_passesOn hform hpasses)
        (identifier?_of_passesOn hform hpasses) (visible_of_passesOn hform hpasses) hle
    have hchildren := Tree.children_of_form hform
    rw [bindNode, hform] at hle ⊢
    cases form with
    | sourceFile file statements =>
      exact uses_bindScope h hgrows hF hrecords hvalue hp hchildren
        (by rw [Tree.function?, hform]; rfl) (by rw [Tree.identifier?, hform])
        (fun c => by rw [Tree.visible, hform]) (fun c => by rw [Tree.evaluates, hform]) hle
    | block statements =>
      have hbody := henters.not_body statements hform
      exact uses_bindScope h hgrows hF hrecords hvalue hp hchildren
        (by rw [Tree.function?, hform]; rfl) (by rw [Tree.identifier?, hform])
        (fun c => by rw [Tree.visible, hform]; simp [hbody])
        (fun c => by rw [Tree.evaluates, hform]) hle
    | functionDeclaration f | functionExpression f | arrowFunction f | methodDeclaration f =>
      have hf : t.function? n = some f := by
        rw [Tree.function?, hform]
        rfl
      exact uses_bindFunction h hgrows hf hF hbelow hvalue hp hle
    | identifier text =>
      rw [usesIn_identifier h hform hvalue hp]
      dsimp only
      cases p.resolve? text with
      | none => exact (List.append_nil _).symm
      | some id => exact List.map_append
    | _ => exact absurd rfl hpasses

end Binding

end ValueSchema
