/-
# What names refer to

The binding of a complete program is lexical.  An identifier that stands where values stand refers
to the symbol of the last declaration of its name in the innermost scope around it that has one, and
to nothing if no scope around it has one; nothing else refers to a symbol.  The references of a
symbol are the identifiers that refer to it, each once and in the order of the source:
`Draft.lexical_finish`.
-/
import Mathlib.Data.List.Induction
import ValueSchema.Proofs.Program.Lexical

namespace ValueSchema

namespace Binding

variable {t : Tree} {files : List NodeId} {F : Binding} {n : NodeId} {id : SymbolId}

/-- A binding of source files finds the declarations that are visible from the identifiers. -/
structure Lexical (t : Tree) (files : List NodeId) (F : Binding) : Prop where
  /-- A name that a scope around it declares refers to the last declaration in the innermost one. -/
  resolves : ∀ n ∈ t.valueNodes files, ∀ name declaration, t.identifier? n = some name →
    t.lexical? n name = some declaration → ∃ id symbol, F.symbolOfUse? n = some id ∧
      F.symbol? id = some symbol ∧ symbol.declaration = declaration ∧ symbol.name = name
  /-- A name that no scope around it declares refers to nothing. -/
  unresolved : ∀ n ∈ t.valueNodes files, ∀ name, t.identifier? n = some name →
    t.lexical? n name = none → F.symbolOfUse? n = none
  /-- Only identifiers that stand where values stand refer to symbols. -/
  position : ∀ n id, F.symbolOfUse? n = some id →
    n ∈ t.valueNodes files ∧ ∃ name, t.identifier? n = some name
  /-- No node declares two symbols. -/
  nodup_declarations : (F.symbols.map Symbol.declaration).Nodup
  /-- The references of a symbol stand in the order of the source. -/
  references_eq : ∀ id, F.references id =
    (t.valueNodes files).filter fun n => F.symbolOfUse? n = some id
  /-- They are what refers to the symbol. -/
  mem_references : ∀ n id, n ∈ F.references id ↔ F.symbolOfUse? n = some id
  /-- Each of them is listed once. -/
  nodup_references : ∀ id, (F.references id).Nodup

/-! ## Symbols and uses -/

lemma exists_symbol_of_declaration (h : F.symbolOfDeclaration? n = some id) :
    ∃ symbol, F.symbol? id = some symbol ∧ symbol.declaration = n := by
  rw [symbolOfDeclaration?, Option.map_eq_some_iff] at h
  obtain ⟨⟨symbol, _⟩, hfind, rfl⟩ := h
  refine ⟨symbol, mem_numbered.1 (List.mem_reverse.1 (List.mem_of_find?_eq_some hfind)), ?_⟩
  simpa using List.find?_some hfind

/-- If no identifier is used twice, it refers to what it is used for. -/
lemma symbolOfUse?_eq_some_iff (hnodup : (F.uses.map Prod.fst).Nodup) :
    F.symbolOfUse? n = some id ↔ (n, id) ∈ F.uses := by
  rw [symbolOfUse?, Option.map_eq_some_iff]
  simp only [find?_key_eq_some_iff Prod.fst hnodup]
  constructor
  · rintro ⟨u, ⟨hu, rfl⟩, rfl⟩
    exact hu
  · exact fun h => ⟨(n, id), ⟨h, rfl⟩, rfl⟩

lemma use?_eq_some_iff {u : NodeId × Option SymbolId} :
    use? t F n = some u ↔ t.inValuePosition n = true ∧ ∃ name declaration,
      t.identifier? n = some name ∧ t.lexical? n name = some declaration ∧
        u = (n, F.symbolOfDeclaration? declaration) := by
  rw [use?]
  split
  · rename_i hvalue
    simp only [hvalue, true_and, Option.bind_eq_bind, Option.bind_eq_some_iff, Option.pure_def,
      Option.some.injEq, eq_comm (b := u)]
    tauto
  · rename_i hvalue
    simp [hvalue]

/-! ## Binding source files -/

section

variable (h : t.Forest files)

include h

lemma grows_files :
    ({} : Pass).Grows t (files.foldl (bindNode t (t.size + 1) {}) {}) (files.flatMap t.preorder) :=
  (grows_bindAll (grows_bindNode h (t.size + 1)) {} {} files).mono
    (Tree.flatMap_subperm fun n _ => h.enclosed_subperm_preorder n)

lemma nodup_declarations_ofFiles : ((ofFiles t files).symbols.map Symbol.declaration).Nodup := by
  obtain ⟨new, hnew, ⟨ordered, hperm, hsub⟩, -⟩ := grows_files h
  rw [ofFiles, hnew]
  exact hperm.nodup_iff.1 (hsub.nodup h.nodup_preorder_files)

lemma declarationName?_of_mem_ofFiles {symbol : Symbol}
    (hmem : symbol ∈ (ofFiles t files).symbols) :
    t.declarationName? symbol.declaration = some symbol.name := by
  obtain ⟨new, hnew, -, hnamed⟩ := grows_files h
  rw [ofFiles, hnew] at hmem
  exact hnamed symbol (by simpa using hmem)

/-- The uses in source files, in the order of the source. -/
lemma uses_ofFiles : (ofFiles t files).uses.map (fun u => (u.1, some u.2)) =
    (t.valueNodes files).filterMap (use? t (ofFiles t files)) := by
  have hF : (ofFiles t files).Numbers := numbers_of_nodup (nodup_declarations_ofFiles h)
  have hfile : ∀ n ∈ files, ∀ b : Pass,
      (bindNode t (t.size + 1) {} b n).found.symbols <+: (ofFiles t files).symbols →
      (bindNode t (t.size + 1) {} b n).recorded =
        b.recorded ++ usesIn t (ofFiles t files) n := by
    intro n hn b hle
    -- no scope is around a file, and binding it starts without one
    have hroot := h.parent_of_mem_files hn
    obtain ⟨form, hform, -⟩ := h.form_of_mem_files n hn
    have hfuel : n.index < t.size + 1 := Nat.lt_succ_of_lt (Tree.index_lt_of_form hform)
    refine records_bindNode h hF _ n hfuel {} b (enters_root hroot)
      (h.inValuePosition_root hroot) (fun name => ?_) hle
    rw [h.lexical?_root hroot]
    rfl
  have hall := uses_bindAll (grows_bindNode h (t.size + 1)) (b := {}) hfile (List.prefix_refl _)
  refine hall.trans ?_
  -- uses stand where values stand only, so that leaving out the other nodes changes nothing
  have hguard : ∀ n, (if t.inValuePosition n then use? t (ofFiles t files) n else none) =
      use? t (ofFiles t files) n := fun n => by
    rw [use?]
    split <;> rfl
  rw [Tree.valueNodes, List.filterMap_filter, List.filterMap_flatMap]
  simp only [hguard]
  rfl

/-- Each identifier is used at most once. -/
lemma nodup_uses_ofFiles : ((ofFiles t files).uses.map Prod.fst).Nodup := by
  have hnodup : (t.valueNodes files).Nodup := h.nodup_preorder_files.filter _
  have hfst : ∀ n, (use? t (ofFiles t files) n).map Prod.fst =
      Option.guard (fun n => (use? t (ofFiles t files) n).isSome) n := by
    intro n
    cases huse : use? t (ofFiles t files) n with
    | none => simp [Option.guard, huse]
    | some u =>
      obtain ⟨-, _, _, -, -, rfl⟩ := use?_eq_some_iff.1 huse
      simp [Option.guard, huse]
  have huses : (ofFiles t files).uses.map Prod.fst =
      (t.valueNodes files).filter fun n => (use? t (ofFiles t files) n).isSome := by
    rw [← List.filterMap_eq_filter, ← funext hfst, ← List.map_filterMap, ← uses_ofFiles h,
      List.map_map]
    rfl
  rw [huses]
  exact hnodup.filter _

/-- Where values stand, an identifier refers to the symbol that it is used for. -/
lemma mem_uses_ofFiles_iff {o : Option SymbolId} :
    (∃ id, o = some id ∧ (ofFiles t files).symbolOfUse? n = some id) ↔
      n ∈ t.valueNodes files ∧ use? t (ofFiles t files) n = some (n, o) := by
  have hmem : (n, o) ∈ (ofFiles t files).uses.map (fun u => (u.1, some u.2)) ↔
      ∃ id, o = some id ∧ (ofFiles t files).symbolOfUse? n = some id := by
    simp only [symbolOfUse?_eq_some_iff (nodup_uses_ofFiles h), List.mem_map, Prod.mk.injEq]
    constructor
    · rintro ⟨⟨_, id⟩, hu, rfl, rfl⟩
      exact ⟨id, rfl, hu⟩
    · rintro ⟨id, rfl, hu⟩
      exact ⟨(n, id), hu, rfl, rfl⟩
  rw [← hmem, uses_ofFiles h, List.mem_filterMap]
  constructor
  · rintro ⟨m, hm, huse⟩
    obtain ⟨-, _, _, -, -, hu⟩ := use?_eq_some_iff.1 huse
    obtain rfl := (Prod.mk.inj hu).1
    exact ⟨hm, huse⟩
  · exact fun ⟨hn, huse⟩ => ⟨n, hn, huse⟩

/-- The uses are those of the nodes where values stand, in the order of the source. -/
lemma uses_ofFiles_eq : (ofFiles t files).uses =
    (t.valueNodes files).filterMap fun n => ((ofFiles t files).symbolOfUse? n).map (n, ·) := by
  have huse : ∀ n ∈ t.valueNodes files, use? t (ofFiles t files) n =
      ((ofFiles t files).symbolOfUse? n).map fun id => (n, some id) := by
    intro n hn
    cases huse : use? t (ofFiles t files) n with
    | none =>
      cases hsymbol : (ofFiles t files).symbolOfUse? n with
      | none => rfl
      | some id =>
        rw [((mem_uses_ofFiles_iff h).1 ⟨id, rfl, hsymbol⟩).2] at huse
        cases huse
    | some u =>
      obtain ⟨-, _, _, -, -, rfl⟩ := use?_eq_some_iff.1 huse
      obtain ⟨id, hid, hsymbol⟩ := (mem_uses_ofFiles_iff h).2 ⟨hn, huse⟩
      rw [hsymbol, hid]
      rfl
  have hinjective : Function.Injective fun u : NodeId × SymbolId => (u.1, some u.2) := by
    rintro ⟨_, _⟩ ⟨_, _⟩ heq
    simpa using heq
  refine (List.map_injective_iff.2 hinjective) ?_
  rw [uses_ofFiles h, List.filterMap_congr huse, List.map_filterMap]
  exact List.filterMap_congr fun n _ => by rw [Option.map_map]; rfl

lemma references_ofFiles (id : SymbolId) : (ofFiles t files).references id =
    (t.valueNodes files).filter fun n => (ofFiles t files).symbolOfUse? n = some id := by
  have hguard : ∀ n, (((((ofFiles t files).symbolOfUse? n).map (n, ·)).filter fun u =>
      decide (u.2 = id)).map Prod.fst) =
      Option.guard (fun n => decide ((ofFiles t files).symbolOfUse? n = some id)) n := by
    intro n
    cases hsymbol : (ofFiles t files).symbolOfUse? n with
    | none => simp [Option.guard, hsymbol]
    | some other => by_cases hid : other = id <;> simp [Option.guard, hsymbol, hid]
  conv_lhs => rw [references, uses_ofFiles_eq h, List.filter_filterMap, List.map_filterMap]
  conv_rhs => rw [← List.filterMap_eq_filter, ← funext hguard]

/-- Binding the source files of a forest is lexical. -/
lemma lexical_ofFiles : (ofFiles t files).Lexical t files where
  resolves n hn name declaration hname hlexical := by
    have hvalue := (List.mem_filter.1 hn).2
    obtain ⟨id, hid, hsymbol⟩ := (mem_uses_ofFiles_iff h).2
      ⟨hn, use?_eq_some_iff.2 ⟨hvalue, name, declaration, hname, hlexical, rfl⟩⟩
    obtain ⟨symbol, hfound, rfl⟩ := exists_symbol_of_declaration hid
    have hdeclared := declarationName?_of_mem_ofFiles h (List.mem_of_getElem? hfound)
    rw [Tree.declarationName?_of_lexical hlexical] at hdeclared
    exact ⟨id, symbol, hsymbol, hfound, rfl, (Option.some.inj hdeclared).symm⟩
  unresolved n _ name hname hlexical := by
    cases hsymbol : (ofFiles t files).symbolOfUse? n with
    | none => rfl
    | some id =>
      have huse := ((mem_uses_ofFiles_iff h).1 ⟨id, rfl, hsymbol⟩).2
      obtain ⟨-, other, declaration, hother, hfound, -⟩ := use?_eq_some_iff.1 huse
      obtain rfl := Option.some.inj (hname.symm.trans hother)
      rw [hlexical] at hfound
      cases hfound
  position n id hsymbol := by
    obtain ⟨hn, huse⟩ := (mem_uses_ofFiles_iff h).1 ⟨id, rfl, hsymbol⟩
    obtain ⟨-, name, _, hname, -⟩ := use?_eq_some_iff.1 huse
    exact ⟨hn, name, hname⟩
  nodup_declarations := nodup_declarations_ofFiles h
  references_eq := references_ofFiles h
  mem_references n id := by
    rw [references_ofFiles h, List.mem_filter, decide_eq_true_iff, and_iff_right_iff_imp]
    exact fun hsymbol => ((mem_uses_ofFiles_iff h).1 ⟨id, rfl, hsymbol⟩).1
  nodup_references id := by
    rw [references_ofFiles h]
    exact (h.nodup_preorder_files.filter _).filter _

end

end Binding

namespace Draft

/-! ## Programs -/

lemma orderly_add {d : Draft} (h : d.tree.Orderly d.files) {form : Form}
    (hfree : ∀ c ∈ form.children, d.tree.IsFree c) (hnodup : form.children.Nodup) :
    (d.add form).2.tree.Orderly (d.add form).2.files :=
  h.add hfree hnodup

/-- The draft of some nodes that are added one after the other. -/
def ofForms (forms : List Form) : Draft := forms.foldl (fun d form => (d.add form).2) {}

/-- Each node is a child at most once and is created before its parent, and source files are no
children. -/
structure BottomUp (forms : List Form) : Prop where
  before : ∀ e ∈ forms.zipIdx, ∀ c ∈ e.1.children, c.index < e.2
  nodup : (forms.flatMap Form.children).Nodup
  no_file : ∀ c ∈ forms.flatMap Form.children, forms[c.index]?.any Tree.isSourceFile = false

variable {forms : List Form} {form : Form}

lemma ofForms_concat (forms : List Form) (form : Form) :
    ofForms (forms ++ [form]) = ((ofForms forms).add form).2 := by
  rw [ofForms, List.foldl_append]
  rfl

lemma size_ofForms (forms : List Form) : (ofForms forms).tree.size = forms.length := by
  induction forms using List.reverseRecOn with
  | nil => rfl
  | append_singleton forms form ih =>
    rw [ofForms_concat, List.length_append, ← ih]
    exact Tree.size_add ..

lemma form?_ofForms (forms : List Form) (n : NodeId) :
    (ofForms forms).tree.form? n = forms[n.index]? := by
  induction forms using List.reverseRecOn with
  | nil => rfl
  | append_singleton forms form ih =>
    rw [ofForms_concat]
    refine (Tree.form?_add ..).trans ?_
    rw [ih, size_ofForms]
    by_cases hn : n = ⟨forms.length⟩
    · rw [if_pos hn, hn, List.getElem?_concat_length]
    · have hindex : n.index ≠ forms.length := fun heq => hn (congrArg NodeId.mk heq)
      rw [if_neg hn]
      rcases Nat.lt_or_gt_of_ne hindex with hlt | hgt
      · rw [List.getElem?_append_left hlt]
      · rw [List.getElem?_eq_none (Nat.le_of_lt hgt), List.getElem?_eq_none]
        rw [List.length_append]
        exact hgt

/-- What a child of a bottom-up list of forms is, is known from the forms before. -/
lemma BottomUp.before_last (h : BottomUp (forms ++ [form])) {c : NodeId} (hc : c ∈ form.children) :
    c.index < forms.length := by
  refine h.before (form, forms.length) ?_ c hc
  rw [List.zipIdx_append]
  simp

lemma BottomUp.init (h : BottomUp (forms ++ [form])) : BottomUp forms where
  before e he := h.before e (by rw [List.zipIdx_append]; exact List.mem_append_left _ he)
  nodup := by
    have hnodup := h.nodup
    rw [List.flatMap_append] at hnodup
    exact (List.nodup_append.1 hnodup).1
  no_file c hc := by
    have hfile := h.no_file c (by rw [List.flatMap_append]; exact List.mem_append_left _ hc)
    by_cases hlt : c.index < forms.length
    · rwa [List.getElem?_append_left hlt] at hfile
    · rw [List.getElem?_eq_none (Nat.le_of_not_lt hlt)]
      rfl

/-- Nodes that are added in such an order make an orderly tree. -/
lemma orderly_ofForms (h : BottomUp forms) :
    (ofForms forms).tree.Orderly (ofForms forms).files := by
  induction forms using List.reverseRecOn with
  | nil => exact .empty
  | append_singleton forms form ih =>
    have hnodup := h.nodup
    rw [List.flatMap_append, List.flatMap_singleton, List.nodup_append] at hnodup
    rw [ofForms_concat]
    refine orderly_add (ih h.init) (fun c hc => ⟨?_, ?_⟩) hnodup.2.1
    · have hlt := h.before_last hc
      have hfile := h.no_file c (List.mem_flatMap.2 ⟨form, by simp, hc⟩)
      rw [List.getElem?_append_left hlt, List.getElem?_eq_getElem hlt] at hfile
      rw [form?_ofForms, List.getElem?_eq_getElem hlt]
      simpa using hfile
    -- a parent would be among the forms before, of which none has the child
    · cases hparent : (ofForms forms).tree.parent? c with
      | none => rfl
      | some p =>
        rw [(ih h.init).forest.parent_iff, Tree.children, form?_ofForms] at hparent
        cases hform : forms[p.index]? with
        | none =>
          rw [hform] at hparent
          cases hparent
        | some other =>
          rw [hform] at hparent
          have hother : c ∈ forms.flatMap Form.children :=
            List.mem_flatMap.2 ⟨other, List.mem_of_getElem? hform, hparent⟩
          exact absurd rfl (hnodup.2.2 c hother c hc)

/-- The binding of a complete program is lexical. -/
theorem lexical_finish {d : Draft} (h : d.tree.Orderly d.files) :
    d.finish.binding.Lexical d.tree d.files :=
  Binding.lexical_ofFiles h.forest

/-- A function `f` with parameters `a` and `b`, of which the second one is `a` if it is not given.
Its body declares `a` again and uses `b` and `a.b`.  After the function there is an unknown `c`. -/
def redeclaring : List Form :=
  [.identifier "a", .parameter ⟨0⟩ none false, .identifier "b", .identifier "a",
    .parameter ⟨2⟩ (some ⟨3⟩) false, .identifier "a", .variableDeclaration ⟨5⟩ none .block,
    .variableStatement [⟨6⟩], .identifier "b", .expressionStatement ⟨8⟩, .identifier "a",
    .identifier "b", .propertyAccess ⟨10⟩ ⟨11⟩, .expressionStatement ⟨12⟩,
    .block [⟨7⟩, ⟨9⟩, ⟨13⟩], .identifier "f",
    .functionDeclaration ⟨some ⟨15⟩, [⟨1⟩, ⟨4⟩], some ⟨14⟩, false, false⟩, .identifier "c",
    .expressionStatement ⟨17⟩, .sourceFile "main.ts" [⟨16⟩, ⟨18⟩]]

/-- The `a` that `b` is by default is the parameter, and the one in the body is the variable. -/
theorem lexical_redeclaring :
    (ofForms redeclaring).tree.Orderly (ofForms redeclaring).files ∧
      (ofForms redeclaring).finish.binding.Lexical (ofForms redeclaring).tree
        (ofForms redeclaring).files ∧
      (ofForms redeclaring).finish.binding.uses.map (fun u =>
          (u.1, (ofForms redeclaring).finish.declaration? u.2)) =
        [(⟨3⟩, some ⟨1⟩), (⟨8⟩, some ⟨4⟩), (⟨10⟩, some ⟨6⟩)] := by
  have horderly : (ofForms redeclaring).tree.Orderly (ofForms redeclaring).files :=
    orderly_ofForms ⟨by decide, by decide, by decide⟩
  exact ⟨horderly, lexical_finish horderly, by decide +kernel⟩

end Draft

end ValueSchema
