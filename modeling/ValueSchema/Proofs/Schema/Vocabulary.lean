/-
# What a schema is about

A schema is about the definitions that its references name and about the nodes that its unresolved
parts stand for.  A vocabulary says which of these may occur, and a schema is within it if no other
one does and if the properties of its objects have different names.

The operations on schemas move, drop and combine parts of their arguments, but they make up neither
references nor origins, and they put properties under their names: if the arguments are within a
vocabulary, so is the result.  There is one lemma of this kind for each operation.
-/
import ValueSchema.Proofs.Schema.Throughout

namespace ValueSchema

/-- The references and origins that schemas may use. -/
structure Vocabulary where
  /-- The names and ids of references. -/
  reference : String → String → Prop
  /-- The nodes that placeholders stand for. -/
  origin : NodeId → Prop
  /-- The nodes that errors come from. -/
  fault : NodeId → Prop

/-- Some references, and all origins. -/
def Vocabulary.ofReferences (reference : String → String → Prop) : Vocabulary :=
  ⟨reference, fun _ => True, fun _ => True⟩

namespace Schema

/-- Whether a schema, apart from its children, keeps to a vocabulary. -/
def Speaks (v : Vocabulary) : Schema → Prop
  | reference name _ id => v.reference name id
  | primitive _ o | keys _ o | access _ _ o => ∀ n ∈ o, v.origin n
  | error _ o => ∀ n ∈ o, v.fault n
  | object properties _ => (Entries.names properties).Nodup
  | _ => True

/-- Everything inside a schema keeps to a vocabulary. -/
def Within (v : Vocabulary) (s : Schema) : Prop := ∀ t ∈ s.subterms, t.Speaks v

variable {v : Vocabulary}

lemma within_iff {s : Schema} : s.Within v ↔ s.Speaks v ∧ ∀ t ∈ s.children, t.Within v :=
  throughout_iff

/-- Unions, intersections and templates say nothing of their own, and objects are merged under
different names. -/
lemma composable_speaks (v : Vocabulary) : Composable (Speaks v) where
  plain _ := by simp [plain, Speaks]
  literal _ := trivial
  union _ := trivial
  intersection _ := trivial
  template _ := trivial
  object _ _ hnames := hnames

lemma Within.of_mem_children {s t : Schema} (h : s.Within v) (ht : t ∈ s.children) : t.Within v :=
  (within_iff.1 h).2 t ht

/-- A larger vocabulary allows more. -/
lemma Within.mono {w : Vocabulary} {s : Schema} (h : s.Within v)
    (href : ∀ name id, v.reference name id → w.reference name id)
    (horigin : ∀ n, v.origin n → w.origin n) (hfault : ∀ n, v.fault n → w.fault n) :
    s.Within w := by
  intro t ht
  have hspeaks := h t ht
  cases t with
  | reference name arguments id => exact href name id hspeaks
  | primitive | keys | access => exact fun n hn => horigin n (hspeaks n hn)
  | error => exact fun n hn => hfault n (hspeaks n hn)
  | object => exact hspeaks
  | _ => trivial

/-! ## The kinds of schemas -/

lemma within_of_children_eq_nil {s : Schema} (h : s.children = []) : s.Within v ↔ s.Speaks v :=
  throughout_of_children_eq_nil h

/-- A schema that says nothing by itself is about what its children are about. -/
lemma within_of_speaks {s : Schema} (h : s.Speaks v) :
    s.Within v ↔ ∀ t ∈ s.children, t.Within v := by
  rw [within_iff]
  exact and_iff_right h

lemma forall_mem_pair {p : Schema → Prop} {s t : Schema} : (∀ u ∈ [s, t], p u) ↔ p s ∧ p t := by
  simp

@[simp] lemma within_primitive {kind : Primitive} {o : Option NodeId} :
    (primitive kind o).Within v ↔ ∀ n ∈ o, v.origin n :=
  within_of_children_eq_nil rfl

@[simp] lemma within_literal (value : Literal) : (literal value).Within v :=
  (within_of_children_eq_nil rfl).2 trivial

@[simp] lemma within_error {reason : String} {o : Option NodeId} :
    (error reason o).Within v ↔ ∀ n ∈ o, v.fault n :=
  within_of_children_eq_nil rfl

@[simp] lemma within_union {items : List Schema} :
    (union items).Within v ↔ ∀ s ∈ items, s.Within v :=
  within_of_speaks trivial

@[simp] lemma within_intersection {items : List Schema} :
    (intersection items).Within v ↔ ∀ s ∈ items, s.Within v :=
  within_of_speaks trivial

@[simp] lemma within_tuple {items : List Schema} {flags : List ElementFlag} :
    (tuple items flags).Within v ↔ ∀ s ∈ items, s.Within v :=
  within_of_speaks trivial

@[simp] lemma within_array {item : Schema} : (array item).Within v ↔ item.Within v :=
  (within_of_speaks (s := array item) trivial).trans List.forall_mem_singleton

@[simp] lemma within_object {properties : List (String × Schema)}
    {indexKeys : List (Schema × Schema)} :
    (object properties indexKeys).Within v ↔ (Entries.names properties).Nodup ∧
      (∀ e ∈ properties, e.2.Within v) ∧ ∀ e ∈ indexKeys, e.1.Within v ∧ e.2.Within v := by
  refine within_iff.trans (and_congr_right fun _ => ?_)
  refine List.forall_mem_append.trans (and_congr List.forall_mem_map ?_)
  constructor
  · intro h e he
    exact forall_mem_pair.1 fun t ht => h t (List.mem_flatMap.2 ⟨e, he, ht⟩)
  · intro h t ht
    obtain ⟨e, he, hte⟩ := List.mem_flatMap.1 ht
    exact forall_mem_pair.2 (h e he) t hte

@[simp] lemma within_function {parameters : List (String × Schema)} {result : Schema} :
    (function parameters result).Within v ↔
      (∀ e ∈ parameters, e.2.Within v) ∧ result.Within v :=
  (within_of_speaks (s := function parameters result) trivial).trans
    (List.forall_mem_append.trans (and_congr List.forall_mem_map List.forall_mem_singleton))

@[simp] lemma within_binary {op : BinaryOperator} {left right : Schema} :
    (binary op left right).Within v ↔ left.Within v ∧ right.Within v :=
  (within_of_speaks (s := binary op left right) trivial).trans forall_mem_pair

@[simp] lemma within_keys {subject : Schema} {o : Option NodeId} :
    (keys subject o).Within v ↔ (∀ n ∈ o, v.origin n) ∧ subject.Within v :=
  within_iff.trans (and_congr_right fun _ => List.forall_mem_singleton)

@[simp] lemma within_access {target key : Schema} {o : Option NodeId} :
    (access target key o).Within v ↔ (∀ n ∈ o, v.origin n) ∧ target.Within v ∧ key.Within v :=
  within_iff.trans (and_congr_right fun _ => forall_mem_pair)

@[simp] lemma within_reference {name id : String} {arguments : List Schema} :
    (reference name arguments id).Within v ↔
      v.reference name id ∧ ∀ s ∈ arguments, s.Within v :=
  within_iff

@[simp] lemma within_plain (kind : Primitive) : (plain kind).Within v := by simp [plain]

@[simp] lemma within_unknown : unknown.Within v := within_plain _

@[simp] lemma within_any : any.Within v := within_plain _

@[simp] lemma within_never : never.Within v := within_plain _

@[simp] lemma within_string (value : String) : (string value).Within v := within_literal _

@[simp] lemma within_number (value : Float) : (number value).Within v := within_literal _

@[simp] lemma within_boolean (value : Bool) : (boolean value).Within v := within_literal _

@[simp] lemma within_null : null.Within v := within_literal _

@[simp] lemma within_undefined : undefined.Within v := within_literal _

@[simp] lemma within_failure (reason : String) : (failure reason).Within v := by simp [failure]

@[simp] lemma within_tupleOf {items : List Schema} :
    (tupleOf items).Within v ↔ ∀ s ∈ items, s.Within v := within_tuple

@[simp] lemma within_wellKnown {name : String} {arguments : List Schema} :
    (wellKnown name arguments).Within v ↔
      v.reference name name ∧ ∀ s ∈ arguments, s.Within v := within_reference

lemma Within.origin {s : Schema} (h : s.Within v) (hv : ∀ n, v.fault n → v.origin n) {n : NodeId}
    (hn : s.origin? = some n) : v.origin n := by
  have hspeaks := (within_iff.1 h).1
  cases s with
  | primitive | keys | access => exact hspeaks n hn
  | error => exact hv n (hspeaks n hn)
  | _ => simp [origin?] at hn

/-! ## Traversals -/

lemma Speaks.mapChildren {s : Schema} (h : s.Speaks v) (f : Schema → Schema) :
    (s.mapChildren f).Speaks v := by
  cases s with
  | object properties indexKeys =>
    show (Entries.names (Entries.mapValues f properties)).Nodup
    rw [Entries.names_mapValues]
    exact h
  | _ => exact h

lemma Within.transform {before? : Schema → Option Schema} {after : Schema → Schema} {s : Schema}
    (hbefore : ∀ s t, before? s = some t → t.Within v)
    (hafter : ∀ s, s.Within v → (after s).Within v) (h : s.Within v) :
    (s.transform before? after).Within v :=
  Throughout.transform (fun _ f hs => hs.mapChildren f) hbefore hafter h

lemma Within.mapOrigin {s : Schema} {f : Option NodeId → Option NodeId} (h : s.Within v)
    (hf : ∀ o, (∀ n ∈ o, v.origin n) → ∀ n ∈ f o, v.origin n)
    (hfault : ∀ o, (∀ n ∈ o, v.fault n) → ∀ n ∈ f o, v.fault n) : (s.mapOrigin f).Within v := by
  cases s with
  | primitive kind o => exact within_primitive.2 (hf o (within_primitive.1 h))
  | error reason o => exact within_error.2 (hfault o (within_error.1 h))
  | keys subject o =>
    obtain ⟨ho, hsubject⟩ := within_keys.1 h
    exact within_keys.2 ⟨hf o ho, hsubject⟩
  | access target key o =>
    obtain ⟨ho, hparts⟩ := within_access.1 h
    exact within_access.2 ⟨hf o ho, hparts⟩
  | _ => exact h

lemma Within.withOrigin {s : Schema} (h : s.Within v) {o : NodeId} (ho : v.origin o)
    (hfault : v.fault o) : (s.withOrigin o).Within v := by
  have hor : ∀ P : NodeId → Prop, P o → ∀ old : Option NodeId, (∀ n ∈ old, P n) →
      ∀ n ∈ old.or (some o), P n := by
    intro P hP old hold n hn
    cases old with
    | none =>
      obtain rfl : o = n := by simpa using hn
      exact hP
    | some m => exact hold n (by simpa using hn)
  exact h.transform (by simp) fun t ht => ht.mapOrigin (hor _ ho) (hor _ hfault)

lemma Within.overrideOrigin {s : Schema} (h : s.Within v) {o : NodeId} (ho : v.origin o)
    (hfault : v.fault o) : (s.overrideOrigin o).Within v := by
  have hsome : ∀ P : NodeId → Prop, P o → ∀ n ∈ some o, P n := by
    intro P hP n hn
    obtain rfl : o = n := by simpa using hn
    exact hP
  exact h.transform (by simp) fun t ht =>
    ht.mapOrigin (fun _ _ => hsome _ ho) fun _ _ => hsome _ hfault

/-- Values in the place of what stands for nodes. -/
lemma Within.substitute {s : Schema} (h : s.Within v) {value? : NodeId → Option Schema}
    (hvalue : ∀ n t, value? n = some t → t.Within v) : (s.substitute value?).Within v := by
  refine h.transform (fun s t ht => ?_) fun t ht => ht
  obtain ⟨n, -, hn⟩ := Option.bind_eq_some_iff.1 ht
  exact hvalue n t hn

/-! ## Unions and intersections -/

lemma mem_alternatives_within {s t : Schema} (h : s.Within v) (ht : t ∈ s.alternatives) :
    t.Within v := Throughout.of_mem_alternatives h ht

lemma mem_conjuncts_within {s t : Schema} (h : s.Within v) (ht : t ∈ s.conjuncts) :
    t.Within v := Throughout.of_mem_conjuncts h ht

lemma within_unionOf {items : List Schema} (h : ∀ s ∈ items, s.Within v) :
    (unionOf items).Within v := throughout_unionOf (composable_speaks v) h

lemma within_intersectionOf {items : List Schema} (h : ∀ s ∈ items, s.Within v) :
    (intersectionOf items).Within v := throughout_intersectionOf (composable_speaks v) h

/-! ## Operators and templates -/

lemma within_foldBinary {op : BinaryOperator} {left right : Schema} {cap : Nat}
    (hl : left.Within v) (hr : right.Within v) : (foldBinary op left right cap).Within v :=
  throughout_foldBinary (composable_speaks v) (fun _ _ _ => trivial) hl hr cap

lemma within_foldUnaryLiteral (op : UnaryOperator) (fixity : Fixity) (value : Literal) :
    (foldUnaryLiteral op fixity value).Within v := by
  rw [foldUnaryLiteral]
  split <;> simp

lemma within_foldUnaryObject (op : UnaryOperator) (fixity : Fixity) (typeName : String) :
    (foldUnaryObject op fixity typeName).Within v := by
  rw [foldUnaryObject.eq_def]
  split <;> simp [within_foldUnaryLiteral]

/-- An operation on an error may stand for the node that the error comes from. -/
lemma within_reexpressUnary {op : UnaryOperator} {fixity : Fixity} {operand : Schema}
    (hv : ∀ n, v.fault n → v.origin n) (h : operand.Within v) :
    (reexpressUnary op fixity operand).Within v := by
  have horigin : ∀ n ∈ operand.origin?, v.origin n := fun n hn => h.origin hv hn
  rw [reexpressUnary.eq_def]
  split <;> try simp [h]
  · exact fun n hn => horigin n hn
  · split
    · split
      · simp
      · exact within_primitive.2 horigin
    · exact within_primitive.2 horigin

lemma foldUnaryAll_eq_map (op : UnaryOperator) (fixity : Fixity) (items : List Schema) :
    foldUnaryAll op fixity items = items.map (foldUnary op fixity) := by
  induction items with
  | nil => rfl
  | cons s rest ih => simp [foldUnaryAll, ih]

lemma within_foldUnary {op : UnaryOperator} {fixity : Fixity} {operand : Schema}
    (hv : ∀ n, v.fault n → v.origin n) (h : operand.Within v) :
    (foldUnary op fixity operand).Within v := by
  induction operand using induction with
  | step s ih =>
    have hall : ∀ items : List Schema, (∀ t ∈ items, t ∈ s.children) →
        ∀ t ∈ foldUnaryAll op fixity items, t.Within v := by
      intro items hitems t ht
      rw [foldUnaryAll_eq_map] at ht
      obtain ⟨u, hu, rfl⟩ := List.mem_map.1 ht
      exact ih u (hitems u hu) (h.of_mem_children (hitems u hu))
    cases s with
    | union items => exact within_unionOf (hall items fun _ ht => ht)
    | intersection items => exact within_intersectionOf (hall items fun _ ht => ht)
    | literal value => exact within_foldUnaryLiteral _ _ _
    | object | array | tuple | function => exact within_foldUnaryObject _ _ _
    | _ => exact within_reexpressUnary hv h

lemma within_templateOf {items : List Schema} {cap : Nat} (h : ∀ s ∈ items, s.Within v) :
    (templateOf items cap).Within v := throughout_templateOf (composable_speaks v) h cap

lemma Within.refold {s : Schema} (h : s.Within v) (cap : Nat) : (s.refold cap).Within v :=
  Throughout.refold (composable_speaks v) (fun _ _ _ => trivial) (fun _ f hs => hs.mapChildren f) h
    cap

end Schema

end ValueSchema
