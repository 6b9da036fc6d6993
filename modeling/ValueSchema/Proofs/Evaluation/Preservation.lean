/-
# Evaluations keep contracts

Operators, functions, calls, types and nodes, and with them the evaluation as a whole.  Each step
keeps a contract if the levels below do, so by induction on the depth every evaluation does:
`Contract.keeps_evaluator`, and `Contract.meets_evaluate` for a complete evaluation.
-/
import ValueSchema.Proofs.Evaluation.Collection
import ValueSchema.Proofs.Program.Table

namespace ValueSchema

lemma Tree.kindName_of_form {t : Tree} {n : NodeId} {form : Form} (h : t.form? n = some form) :
    t.kindName n = form.kindName := by
  simp [kindName, h]

namespace Evaluation

/-! ## One level of the evaluation -/

lemma schemaOfNode_succ (host : Host) (depth : Nat) (b : Branch) (n : NodeId) :
    schemaOfNode host (depth + 1) b n = node host (evaluator host depth) b n := by
  cases depth <;> rfl

lemma convertType_succ (host : Host) (depth : Nat) (b : Branch) (id : TypeId)
    (node : Option NodeId) :
    convertType host (depth + 1) b id node = convert host (evaluator host depth) b id node := by
  cases depth <;> rfl

end Evaluation

namespace Contract

variable {host : Host} {c : Contract host} {e : Evaluator} {b : Branch} {s t : Session}

/-! ## Operators, conditions and templates -/

lemma meets_binary (h : c.Keeps e) (hb : c.Admits s b) (op : BinaryOperator)
    (left right : NodeId) : c.Meets c.Err s (Evaluation.binary e b op left right) c.Allows := by
  refine (h.node s b _ hb).bind fun t l _ hst hl => ?_
  split
  · exact .pure fun _ => hl
  · exact h.node t b _ (hb.ext hst)
  · refine (h.node t b _ (hb.ext hst)).bind fun u r _ htu hr => ?_
    exact Meets.cap.map fun w _ huw _ =>
      Schema.within_foldBinary (hl.ext (c.ext_trans htu huw)) (hr.ext huw)

lemma meets_unary (h : c.Keeps e) (hb : c.Admits s b) (op : UnaryOperator) (fixity : Fixity)
    (operand : NodeId) : c.Meets c.Err s (Evaluation.unary e b op fixity operand) c.Allows :=
  (h.node s b _ hb).map fun _ _ _ hr => Schema.within_foldUnary (fun _ _ => trivial) hr

lemma meets_conditional (h : c.Keeps e) (hb : c.Admits s b)
    (condition whenTrue whenFalse : NodeId) :
    c.Meets c.Err s (Evaluation.conditional e b condition whenTrue whenFalse) c.Allows := by
  refine (h.node s b _ hb).bind fun t decided _ hst _ => ?_
  split
  · exact h.node t b _ (hb.ext hst)
  · exact h.node t b _ (hb.ext hst)
  · refine (h.node t b _ (hb.ext hst)).bind fun u yes _ htu hyes => ?_
    refine (h.node u b _ (hb.ext (c.ext_trans hst htu))).map fun w no huw hno => ?_
    exact Schema.within_unionOf (by simp [hyes.ext huw, hno])

lemma meets_templateParts (h : c.Keeps e) (hb : c.Admits s b) (spans : List (NodeId × String)) :
    c.Meets c.Err s (Evaluation.templateParts e b spans) c.AllowsAll := by
  induction spans generalizing s with
  | nil => exact .pure fun _ => List.forall_mem_nil _
  | cons span rest ih =>
    rw [Evaluation.templateParts]
    refine (h.node s b _ hb).bind fun t value _ hst hvalue => ?_
    refine (ih (hb.ext hst)).map fun u parts htu hparts => ?_
    exact List.forall_mem_cons.2 ⟨hvalue.ext htu,
      List.forall_mem_cons.2 ⟨Schema.within_string _, hparts⟩⟩

lemma meets_template (h : c.Keeps e) (hb : c.Admits s b) (head : String)
    (spans : List (NodeId × String)) :
    c.Meets c.Err s (Evaluation.template e b head spans) c.Allows := by
  refine (meets_templateParts h hb spans).bind fun t parts _ _ hparts => ?_
  refine Meets.cap.map fun u _ htu _ => Schema.within_templateOf ?_
  exact List.forall_mem_cons.2 ⟨Schema.within_string _, AllowsAll.ext hparts htu⟩

/-! ## Functions -/

lemma allows_awaited {r : Schema} (h : c.Allows s r) : c.Allows s r.awaited := by
  rw [Schema.awaited.eq_def]
  split
  · split
    · exact (Schema.within_reference.1 h).2 _ (List.mem_singleton_self _)
    · exact h
  · exact h

lemma allows_settled {r : Schema} (h : c.Allows s r) : c.Allows s r.settled := by
  refine Schema.within_unionOf fun t ht => ?_
  obtain ⟨u, hu, rfl⟩ := List.mem_map.1 ht
  exact allows_awaited (Schema.mem_alternatives_within h hu)

lemma allows_promise {r : Schema} (hs : c.Inv s) (h : c.Allows s r) :
    c.Allows s (.wellKnown "Promise" [r]) := by
  refine Schema.within_wellKnown.2 ⟨c.known_wellKnown hs ?_, allowsAll_singleton h⟩
  simp [Options.isWellKnown, wellKnownNames]

section

variable {eval : NodeId → Eval Schema}

lemma meets_bodyResult (heval : ∀ t n, c.Ext s t → c.Meets c.Err t (eval n) c.Allows)
    (body : NodeId) : c.Meets c.Err s (Evaluation.bodyResult host eval body) c.Allows := by
  rw [Evaluation.bodyResult]
  split
  · split
    · exact .pure fun _ => Schema.within_plain _
    · have hall : c.Meets c.Err s ((Evaluation.returns host.tree body).mapM eval) c.AllowsAll :=
        .mapM (fun _ _ _ htu hr => Allows.ext hr htu) fun n _ t hst => heval t n hst
      exact hall.map fun _ _ _ hitems => Schema.within_unionOf hitems
  · exact heval s body (c.ext_refl s)

lemma meets_returnType (heval : ∀ t n, c.Ext s t → c.Meets c.Err t (eval n) c.Allows)
    (f : FunctionForm) : c.Meets c.Err s (Evaluation.returnType host eval f) c.AllowsSome := by
  rw [Evaluation.returnType]
  split
  · exact .pure fun _ => allowsSome_none
  · refine (meets_bodyResult heval _).bind fun t result _ _ hresult => ?_
    split
    · exact .pure fun ht => allowsSome_some (allows_promise ht (allows_settled hresult))
    · exact .pure fun _ => allowsSome_some hresult

end

lemma meets_function (h : c.Keeps e) (hb : c.Admits s b) (n : NodeId) :
    c.Meets c.Err s (Evaluation.function host e b n) c.AllowsSome := by
  rw [Evaluation.function]
  split
  · exact .pure fun _ => allowsSome_none
  · rename_i f _
    split
    · exact .pure fun _ => allowsSome_none
    · have hall : c.Meets c.Err s (f.parameters.mapM (Evaluation.namedParameter host e b))
          fun t parameters => ∀ p ∈ parameters, c.Allows t p.2 :=
        .mapM (fun _ _ _ htu hp => Allows.ext hp htu) fun p _ t hst =>
          (h.node t b p (hb.ext hst)).map fun _ _ _ hr => hr
      refine hall.bind fun t parameters _ hst hparameters => ?_
      refine (meets_returnType (fun u n htu => h.node u b n (hb.ext (c.ext_trans hst htu)))
        f).map fun u result htu hresult => allowsSome_some ?_
      refine Schema.within_function.2 ⟨fun p hp => Allows.ext (hparameters p hp) htu, ?_⟩
      cases result with
      | none => exact Schema.within_unknown
      | some r => exact hresult r rfl

lemma meets_await (h : c.Keeps e) (hb : c.Admits s b) (expression : NodeId) :
    c.Meets c.Err s (Evaluation.await e b expression) c.Allows :=
  (h.node s b _ hb).map fun _ _ _ hr => allows_settled hr

/-! ## Calls -/

lemma meets_argumentSchemas (h : c.Keeps e) (hb : c.Admits s b) (argument : NodeId) :
    c.Meets c.Err s (Evaluation.argumentSchemas host e b argument) c.AllowsList := by
  rw [Evaluation.argumentSchemas]
  split
  · -- what is spread may be a list as it is written, or something that has a tuple as its schema
    dsimp only
    split
    · rename_i elements _
      have hall : c.Meets c.Err s (elements.mapM (e.node b)) c.AllowsAll :=
        .mapM (fun _ _ _ htu hr => Allows.ext hr htu) fun n _ t hst => h.node t b n (hb.ext hst)
      exact hall.map fun _ _ _ hitems => allowsList_some hitems
    · refine (h.node s b _ hb).bind fun t source _ _ hsource => ?_
      split
      · refine .pure fun _ => ?_
        split
        · exact allowsList_some (Schema.within_tuple.1 hsource)
        · exact allowsList_none
      · exact .pure fun _ => allowsList_none
  · exact (h.node s b _ hb).map fun _ _ _ hr => allowsList_some (allowsAll_singleton hr)

lemma meets_positionalArguments (h : c.Keeps e) (hb : c.Admits s b) (arguments : List NodeId) :
    c.Meets c.Err s (Evaluation.positionalArguments host e b arguments) c.AllowsList := by
  induction arguments generalizing s with
  | nil => exact .pure fun _ => allowsList_some (List.forall_mem_nil _)
  | cons argument rest ih =>
    rw [Evaluation.positionalArguments]
    refine (meets_argumentSchemas h hb argument).bind fun t o _ hst ho => ?_
    cases o with
    | none => exact .pure fun _ => allowsList_none
    | some schemas =>
      refine (ih (hb.ext hst)).map fun u others htu hothers items hitems => ?_
      obtain ⟨more, hmore, rfl⟩ := Option.map_eq_some_iff.1 hitems
      intro r hr
      rcases List.mem_append.1 hr with hin | hin
      · exact Allows.ext (ho schemas rfl r hin) htu
      · exact hothers more hmore r hin

lemma meets_parameterArgument (h : c.Keeps e) (hb : c.Admits s b) {arguments : List Schema}
    (harguments : c.AllowsAll s arguments) (parameter : NodeId) (position : Nat) :
    c.Meets c.Err s (Evaluation.parameterArgument host e b parameter position arguments)
      c.AllowsSome := by
  have hinitial : ∀ value, c.Meets c.Err s (e.node b value >>= fun r => pure (some r))
      c.AllowsSome := fun value => (h.node s b value hb).map fun _ _ _ hr => allowsSome_some hr
  rw [Evaluation.parameterArgument]
  split
  · split
    · -- a rest parameter takes all arguments that are left
      refine .pure fun _ => allowsSome_some (Schema.within_tupleOf.2 fun r hr => ?_)
      exact harguments r (List.mem_of_mem_drop hr)
    · split
      · have hargument := harguments _ (List.mem_of_getElem? ‹arguments[position]? = _›)
        split
        · exact hinitial _
        · exact .pure fun _ => allowsSome_some hargument
      · have hargument := harguments _ (List.mem_of_getElem? ‹arguments[position]? = _›)
        exact .pure fun _ => allowsSome_some hargument
      · exact hinitial _
      · exact .pure fun _ => allowsSome_some Schema.within_undefined
  · exact .pure fun _ => allowsSome_none

lemma meets_boundParameters (h : c.Keeps e) (hb : c.Admits s b) {arguments : List Schema}
    (harguments : c.AllowsAll s arguments) (f : FunctionForm) :
    c.Meets c.Err s (Evaluation.boundParameters host e b f arguments)
      fun t values => ∀ v ∈ values, c.Allows t v.2 := by
  have hall : c.Meets c.Err s
      (f.parameters.zipIdx.mapM (Evaluation.boundParameter host e b arguments))
      fun t values => ∀ o ∈ values, ∀ v ∈ o, c.Allows t v.2 := by
    refine .mapM (fun _ _ _ htu ho v hv => Allows.ext (ho v hv) htu) fun p _ t hst => ?_
    rw [Evaluation.boundParameter]
    split
    · exact .pure fun _ => by simp
    · refine (meets_parameterArgument h (hb.ext hst) (AllowsAll.ext harguments hst) _ _).map
        fun u o _ ho v hv => ?_
      obtain ⟨r, hr, rfl⟩ := Option.map_eq_some_iff.1 hv
      exact ho r hr
  refine hall.map fun t values _ hvalues v hv => ?_
  obtain ⟨o, ho, hv⟩ := List.mem_filterMap.1 hv
  exact hvalues o ho v hv

/-- The values of the parameters of a call may be used in the branch of the call. -/
lemma Admits.withFunction (h : c.Admits s b) (function : NodeId)
    {values : List (SymbolId × Schema)} (hvalues : ∀ v ∈ values, c.Allows s v.2) :
    c.Admits s (b.withFunction function values) := by
  intro e he
  rcases Table.mem_of_mem_foldl_put he with hold | hnew
  · exact h e hold
  · exact hvalues e hnew

lemma meets_call (h : c.Keeps e) (hb : c.Admits s b) (callee : NodeId) (arguments : List NodeId) :
    c.Meets c.Err s (Evaluation.call host e b callee arguments) c.AllowsSome := by
  rw [Evaluation.call]
  split
  · exact .pure fun _ => allowsSome_none
  · split
    · exact .pure fun _ => allowsSome_none
    · split
      · exact .pure fun _ => allowsSome_none
      · refine (meets_positionalArguments h hb arguments).bind fun t o _ hst ho => ?_
        cases o with
        | none => exact .pure fun _ => allowsSome_none
        | some values =>
          refine (meets_boundParameters h (hb.ext hst) (ho values rfl) _).bind
            fun u bound _ htu hbound => ?_
          -- the body is evaluated where the parameters have their values
          refine meets_returnType (fun w n huw => h.called w _ n ?_) _
          exact ((hb.ext (c.ext_trans hst htu)).withFunction _ hbound).ext huw

/-! ## Types -/

/-- The schemas of types may be used in a session. -/
abbrev AllowsTypes (c : Contract host) (s : Session) (items : List Schema) : Prop :=
  ∀ r ∈ items, c.AllowsType s r

lemma AllowsTypes.all {items : List Schema} (h : c.AllowsTypes s items) : c.AllowsAll s items :=
  fun r hr => (h r hr).1

lemma allowsType_simple {r : Schema} (h : c.Allows s r) (hsimple : r.isComposite = false)
    (hoperation : r.isOperation = false) : c.AllowsType s r := ⟨h, .simple hsimple hoperation⟩

lemma allowsType_unionOf {items : List Schema} (h : c.AllowsTypes s items) :
    c.AllowsType s (Schema.unionOf items) :=
  ⟨Schema.within_unionOf h.all, Schema.typelike_unionOf fun r hr => (h r hr).2⟩

lemma allowsType_intersectionOf {items : List Schema} (h : c.AllowsTypes s items) :
    c.AllowsType s (Schema.intersectionOf items) :=
  ⟨Schema.within_intersectionOf h.all, Schema.typelike_intersectionOf fun r hr => (h r hr).2⟩

lemma allowsType_intrinsicSchema (kind : Intrinsic) :
    c.AllowsType s (Evaluation.intrinsicSchema kind) := by
  cases kind <;>
    exact allowsType_simple (by simp [Evaluation.intrinsicSchema]) rfl rfl

lemma allows_optional {r : Schema} (h : c.Allows s r) (isOptional : Bool) :
    c.Allows s (Evaluation.optional isOptional r) := by
  rw [Evaluation.optional]
  split
  · exact Schema.within_unionOf (by simp [h])
  · exact h

lemma meets_convertTypes (h : c.Keeps e) (hb : c.Admits s b) (types : List TypeId) :
    c.Meets c.Err s (types.mapM fun type => e.type b type none) c.AllowsTypes :=
  .mapM (fun _ _ _ htu hr => AllowsType.ext hr htu) fun type _ t hst =>
    h.type t b type none (hb.ext hst)

lemma meets_convertPart (h : c.Keeps e) (hb : c.Admits s b) (part : TemplatePart) :
    c.Meets c.Err s (Evaluation.convertPart e b part) c.Allows := by
  cases part with
  | text value => exact .pure fun _ => Schema.within_string _
  | type id => exact h.typeAllows hb id none

lemma meets_convertElement (h : c.Keeps e) (hb : c.Admits s b) (x : TupleElement) :
    c.Meets c.Err s (Evaluation.convertElement e b x) fun t r => c.Allows t r.1 := by
  refine (h.typeAllows hb _ none).bind fun t r _ _ hr => ?_
  split
  · split
    · exact .pure fun _ => Schema.within_array.1 hr
    · exact .pure fun _ => hr
  · exact .pure fun _ => hr

lemma meets_convertSignature (h : c.Keeps e) (hb : c.Admits s b) (signature : Signature) :
    c.Meets c.Err s (Evaluation.convertSignature e b signature) c.AllowsType := by
  have hall : c.Meets c.Err s (signature.parameters.mapM (Evaluation.convertParameter e b))
      fun t parameters => ∀ p ∈ parameters, c.Allows t p.2 :=
    .mapM (fun _ _ _ htu hp => Allows.ext hp htu) fun p _ t hst =>
      (h.typeAllows (hb.ext hst) _ none).map fun _ _ _ hr => allows_optional hr _
  refine hall.bind fun t parameters _ hst hparameters => ?_
  refine (h.typeAllows (hb.ext hst) _ none).map fun u result htu hresult => ?_
  refine allowsType_simple (Schema.within_function.2 ⟨fun p hp => ?_, hresult⟩) rfl rfl
  exact Allows.ext (hparameters p hp) htu

lemma meets_convertProperty (h : c.Keeps e) (hb : c.Admits s b) (fromLiteral : Bool)
    (p : Property) :
    c.Meets c.Err s (Evaluation.convertProperty host e b fromLiteral p)
      fun t r => c.Allows t r.2 := by
  rw [Evaluation.convertProperty.eq_def]
  split
  · exact (h.node s b _ hb).map fun _ _ _ hr => allows_optional hr _
  · exact (h.typeAllows hb _ none).map fun _ _ _ hr => allows_optional hr _

lemma meets_convertIndex (h : c.Keeps e) (hb : c.Admits s b) (i : IndexSignature) :
    c.Meets c.Err s (Evaluation.convertIndex e b i)
      fun t r => c.Allows t r.1 ∧ c.Allows t r.2 := by
  refine (h.typeAllows hb _ none).bind fun t key _ hst hkey => ?_
  exact (h.typeAllows (hb.ext hst) _ none).map fun u value htu hvalue => ⟨hkey.ext htu, hvalue⟩

lemma meets_convertObject (h : c.Keeps e) (hb : c.Admits s b) (id : TypeId) (type : ObjectType) :
    c.Meets c.Err s (Evaluation.convertObject host e b id type) c.AllowsType := by
  refine Meets.options.bind fun t options _ hst hoptions => ?_
  have hbt := hb.ext hst
  split
  · rename_i name hname
    refine .pure fun ht => allowsType_simple ?_ rfl rfl
    refine Schema.within_wellKnown.2 ⟨c.known_wellKnown ht ?_, by simp⟩
    rw [← hoptions]
    exact (Option.filter_eq_some_iff.1 hname).2
  · split
    · -- a type that is not called has properties and values under open keys
      have hproperties : c.Meets c.Err t ((host.types.properties id).mapM
          (Evaluation.convertProperty host e b type.literal.isSome))
          fun u properties => ∀ p ∈ properties, c.Allows u p.2 :=
        .mapM (fun _ _ _ huw hp => Allows.ext hp huw) fun p _ u htu =>
          meets_convertProperty h (hbt.ext htu) _ p
      refine hproperties.bind fun u properties _ htu hproperties => ?_
      have hindex : c.Meets c.Err u ((host.types.indexSignatures id).mapM
          (Evaluation.convertIndex e b))
          fun w indexKeys => ∀ i ∈ indexKeys, c.Allows w i.1 ∧ c.Allows w i.2 :=
        .mapM (fun _ _ _ huw hi => ⟨Allows.ext hi.1 huw, Allows.ext hi.2 huw⟩) fun i _ w huw =>
          meets_convertIndex h (hbt.ext (c.ext_trans htu huw)) i
      refine hindex.map fun w indexKeys huw hindex => ?_
      refine allowsType_simple (Schema.within_object.2 ⟨Entries.nodup_names_ofList _,
        fun p hp => ?_, hindex⟩) rfl rfl
      exact Allows.ext (hproperties p (Entries.mem_of_mem_ofList hp)) huw
    · have hall : c.Meets c.Err t ((host.types.signatures id).mapM
          (Evaluation.convertSignature e b)) c.AllowsTypes :=
        .mapM (fun _ _ _ huw hr => AllowsType.ext hr huw) fun signature _ u htu =>
          meets_convertSignature h (hbt.ext htu) signature
      exact hall.map fun _ _ _ hitems => allowsType_unionOf hitems

/-- The definition of an instance is registered before the reference to it is used. -/
lemma meets_convertApplication (h : c.Keeps e) (hb : c.Admits s b) (id : TypeId) (name : String)
    (target : TypeId) (arguments : List TypeId) (body : TypeId) :
    c.Meets c.Err s (Evaluation.convertApplication host e b id name target arguments body)
      c.AllowsType := by
  refine (meets_convertTypes h hb arguments).bind fun t arguments _ _ htypes => ?_
  have harguments := htypes.all
  refine .get_bind fun ht => ?_
  split
  · rename_i hwell
    exact .pure fun _ => allowsType_simple
      (Schema.within_wellKnown.2 ⟨c.known_wellKnown ht hwell, harguments⟩) rfl rfl
  · obtain ⟨hinv, hext, hknown⟩ := c.register name (host.types.display id) target body ht
    refine .set_bind (fun _ => ⟨hinv, hext⟩) fun htu => .pure fun _ => ?_
    exact allowsType_simple
      (Schema.within_reference.2 ⟨hknown, AllowsAll.ext harguments htu⟩) rfl rfl

lemma meets_convertForm (h : c.Keeps e) (hb : c.Admits s b) (id : TypeId) (node : Option NodeId)
    (form : TypeForm) :
    c.Meets c.Err s (Evaluation.convertForm host e b id node form) c.AllowsType := by
  cases form with
  | intrinsic kind => exact .pure fun _ => allowsType_intrinsicSchema kind
  | literal value => exact .pure fun _ => allowsType_simple (Schema.within_literal value) rfl rfl
  | template parts =>
    have hall : c.Meets c.Err s (parts.mapM (Evaluation.convertPart e b)) c.AllowsAll :=
      .mapM (fun _ _ _ htu hr => Allows.ext hr htu) fun part _ t hst =>
        meets_convertPart h (hb.ext hst) part
    refine hall.bind fun t items _ _ hitems => ?_
    exact Meets.cap.map fun u _ htu _ =>
      ⟨Schema.within_templateOf (AllowsAll.ext hitems htu), Schema.typelike_templateOf _ _⟩
  | union members =>
    exact (meets_convertTypes h hb members).map fun _ _ _ hitems => allowsType_unionOf hitems
  | intersection members =>
    exact (meets_convertTypes h hb members).map fun _ _ _ hitems =>
      allowsType_intersectionOf hitems
  | tuple elements =>
    have hall : c.Meets c.Err s (elements.mapM (Evaluation.convertElement e b))
        fun t items => ∀ x ∈ items, c.Allows t x.1 :=
      .mapM (fun _ _ _ htu hx => Allows.ext hx htu) fun x _ t hst =>
        meets_convertElement h (hb.ext hst) x
    refine hall.map fun t items _ hitems =>
      allowsType_simple (Schema.within_tuple.2 fun r hr => ?_) rfl rfl
    obtain ⟨x, hx, rfl⟩ := List.mem_map.1 hr
    exact hitems x hx
  | array element =>
    rw [Evaluation.convertForm]
    split
    · exact meets_arrayLiteral h hb _
    · exact (h.typeAllows hb element none).map fun _ _ _ hr =>
        allowsType_simple (Schema.within_array.2 hr) rfl rfl
  | object type => exact meets_convertObject h hb id type
  | keyOf subject =>
    exact (h.typeAllows hb subject none).map fun _ _ _ hr =>
      allowsType_simple (Schema.within_keys.2 ⟨fun _ _ => trivial, hr⟩) rfl rfl
  | access target key =>
    refine (h.typeAllows hb target none).bind fun t r _ hst hr => ?_
    exact (h.typeAllows (hb.ext hst) key none).map fun u r' htu hr' =>
      allowsType_simple (Schema.within_access.2 ⟨fun _ _ => trivial, hr.ext htu, hr'⟩) rfl rfl
  | parameter name constraint =>
    cases constraint with
    | none => exact .pure fun _ => allowsType_simple Schema.within_unknown rfl rfl
    | some constraint => exact h.type s b constraint none hb
  | application name target arguments body =>
    exact meets_convertApplication h hb id name target arguments body

/-- What is remembered of a type is what was found for it. -/
lemma meets_convertCompound (h : c.Keeps e) (hb : c.Admits s b) (id : TypeId)
    (node : Option NodeId) (form : TypeForm) :
    c.Meets c.Err s (Evaluation.convertCompound host e b id node form) c.AllowsType := by
  have hanew : ∀ t, c.Ext s t → c.Meets c.Err t (do
      let before := (← get).degraded
      let schema ← Evaluation.convertForm host e (b.withType id) id node form
      if (node.isNone && !b.hasBindings) && (← get).degraded == before &&
          !schema.containsError then
        Eval.cacheType id schema
      return schema) c.AllowsType := by
    intro t hst
    refine .get_bind fun _ => ?_
    refine (meets_convertForm h ((hb.ext hst).withType id) id node form).bind
      fun u r _ _ hr => ?_
    refine .get_bind fun _ => ?_
    dsimp only
    split
    · -- only the schema of a type is ever put into the memory
      have hcache : c.Meets c.Err u (Eval.cacheType id r) fun w _ => c.Ext u w :=
        .update fun hu => ⟨(c.cache hu hr.1 hr.2).1, (c.cache hu hr.1 hr.2).2,
          (c.cache hu hr.1 hr.2).2⟩
      exact hcache.bind fun w _ _ huw _ => .pure fun _ => hr.ext huw
    · exact .pure fun _ => hr
  rw [Evaluation.convertCompound]
  split
  · exact .pure fun _ => allowsType_simple (Schema.within_failure _) rfl rfl
  · dsimp only
    split
    · have hcached : c.Meets c.Err s (Eval.cachedType? id)
          fun t o => ∀ r ∈ o, c.AllowsType t r :=
        .get_bind fun hs => .pure fun _ r hr => c.cached hs hr
      refine hcached.bind fun t o _ hst ho => ?_
      cases o with
      | some r => exact .pure fun _ => ho r rfl
      | none => exact hanew t hst
    · exact hanew s (c.ext_refl s)

lemma meets_convert (h : c.Keeps e) (hb : c.Admits s b) (id : TypeId) (node : Option NodeId) :
    c.Meets c.Err s (Evaluation.convert host e b id node) c.AllowsType := by
  rw [Evaluation.convert]
  split
  · exact .pure fun _ => allowsType_simple Schema.within_unknown rfl rfl
  · exact .pure fun _ => allowsType_intrinsicSchema _
  · exact .pure fun _ => allowsType_simple (Schema.within_literal _) rfl rfl
  · exact meets_convertCompound h hb id node _

/-! ## Names and declarations -/

lemma Admits.binding (h : c.Admits s b) {symbol : SymbolId} {r : Schema}
    (hr : b.binding? symbol = some r) : c.Allows s r :=
  h (symbol, r) (Table.mem_of_get? hr)

lemma meets_parameter (h : c.Keeps e) (hb : c.Admits s b) (n : NodeId)
    (symbol : Option SymbolId) :
    c.Meets c.Err s (Evaluation.parameter host e b n symbol) c.Allows := by
  rw [Evaluation.parameter]
  split
  · rename_i value hvalue
    obtain ⟨id, -, hbinding⟩ := Option.bind_eq_some_iff.1 hvalue
    exact .pure fun _ => hb.binding hbinding
  · split
    · exact (h.typeAllows hb _ none).map fun _ _ _ hr =>
        Schema.Within.overrideOrigin hr trivial trivial
    · exact .pure fun _ => Schema.Within.overrideOrigin Schema.within_unknown trivial trivial

/-- What a declaration declares may be used, if there is one. -/
lemma meets_declaration (h : c.Keeps e) (hb : c.Admits s b) (n : NodeId)
    (symbol : Option SymbolId)
    (hmissing : host.tree.form? n = none → c.Err (.failed ⟨.missingDeclaration n.text, none⟩)) :
    c.Meets c.Err s (Evaluation.declaration host e b n symbol) c.AllowsSome := by
  rw [Evaluation.declaration.eq_def]
  split
  · exact (h.node s b _ hb).map fun _ _ _ hr => allowsSome_some hr
  · split
    · exact (h.typeAllows hb _ none).map fun _ _ _ hr =>
        allowsSome_some (Schema.Within.withOrigin hr trivial trivial)
    · exact .pure fun _ =>
        allowsSome_some (Schema.Within.withOrigin Schema.within_unknown trivial trivial)
  · exact (meets_parameter h hb n symbol).map fun _ _ _ hr => allowsSome_some hr
  · split
    · exact meets_function h hb n
    · exact (h.node s b _ hb).map fun _ _ _ hr => allowsSome_some hr
  · exact .throw fun _ => hmissing ‹_›

lemma allowsSome_globalValue (text : String) :
    c.AllowsSome s (Evaluation.globalValue? text) := by
  rw [Evaluation.globalValue?.eq_def]
  split
  · exact allowsSome_some Schema.within_undefined
  · exact allowsSome_some (Schema.within_number _)
  · exact allowsSome_some (Schema.within_number _)
  · exact allowsSome_none

lemma meets_identifier (h : c.Keeps e) (hb : c.Admits s b) (n : NodeId) (text : String) :
    c.Meets c.Err s (Evaluation.identifier host e b n text) c.AllowsSome := by
  rw [Evaluation.identifier]
  split
  · exact .pure fun _ => allowsSome_globalValue text
  · rename_i resolved hresolved
    split
    · exact .pure fun _ => allowsSome_some (hb.binding ‹_›)
    · exact meets_declaration h hb _ _ fun hnone => c.err_missing hresolved hnone

/-! ## Nodes -/

/-- How a node may fail before the place of the failure is added. -/
def ErrAt (c : Contract host) (n : NodeId) (stop : Stop) : Prop :=
  c.Err (stop.withContext (host.tree.location n) (host.tree.kindName n))

lemma meets_form (h : c.Keeps e) (hb : c.Admits s b) {n : NodeId} {form : Form}
    (hform : host.tree.form? n = some form) :
    c.Meets (c.ErrAt n) s (Evaluation.form host e b n form) c.AllowsSome := by
  have herr : ∀ stop, c.Err stop → c.ErrAt n stop := fun _ hstop => c.err_context hstop
  have hnode : ∀ inner, c.Meets (c.ErrAt n) s (e.node b inner >>= fun r => pure (some r))
      c.AllowsSome := fun inner =>
    ((h.node s b inner hb).map fun _ _ _ hr => allowsSome_some hr).weaken herr
  have hsome : ∀ {m : Eval Schema}, c.Meets c.Err s m c.Allows →
      c.Meets (c.ErrAt n) s (m >>= fun r => pure (some r)) c.AllowsSome := fun hm =>
    (hm.map fun _ _ _ hr => allowsSome_some hr).weaken herr
  have hreject : form.isRejected = true → c.Meets (c.ErrAt n) s
      (do if (← Eval.options).permissive then return none
          else Eval.fail (.unsupportedNode form.kindName)) c.AllowsSome := by
    intro hrejected
    refine Meets.options.bind fun t options _ _ hoptions => ?_
    split
    · exact .pure fun _ => allowsSome_none
    · rename_i hstrict
      refine .throw fun ht => ?_
      rw [ErrAt, Tree.kindName_of_form hform]
      refine c.err_rejected ht ?_ hform hrejected
      rw [← hoptions]
      simpa using hstrict
  cases form with
  | numericLiteral | stringLiteral | bigIntLiteral | trueKeyword | falseKeyword | nullKeyword
  | omittedExpression | jsxText => exact .pure fun _ => allowsSome_some (Schema.within_literal _)
  | templateExpression head spans => exact hsome (meets_template h hb head spans)
  | identifier text => exact (meets_identifier h hb n text).weaken herr
  | objectLiteral members => exact hsome (meets_objectLiteral h hb members)
  | arrayLiteral elements =>
    exact hsome ((meets_arrayLiteral h hb elements).mono fun _ _ _ hr => hr.1)
  | propertyAssignment _ inner | shorthandProperty inner | spreadAssignment inner
  | computedName inner | parenthesized inner | typeAssertion inner | expressionStatement inner =>
    exact hnode inner
  | binary op left right => exact hsome (meets_binary h hb op left right)
  | unary op fixity operand => exact hsome (meets_unary h hb op fixity operand)
  | conditional condition whenTrue whenFalse =>
    exact hsome (meets_conditional h hb condition whenTrue whenFalse)
  | functionDeclaration | functionExpression | arrowFunction | methodDeclaration =>
    exact (meets_function h hb n).weaken herr
  | parameter => exact hsome (meets_parameter h hb n none)
  | call callee arguments => exact (meets_call h hb callee arguments).weaken herr
  | await expression => exact hsome (meets_await h hb expression)
  | propertyAccess expression name => exact (meets_propertyAccess h hb expression name).weaken herr
  | elementAccess expression argument =>
    exact (meets_elementAccess h hb expression argument).weaken herr
  | variableDeclaration =>
    refine (meets_declaration h hb n _ fun hnone => ?_).weaken herr
    rw [hnone] at hform
    cases hform
  | returnStatement inner | jsxExpression inner =>
    cases inner with
    | none => exact .pure fun _ => allowsSome_some Schema.within_undefined
    | some inner => exact hnode inner
  | jsxAttribute name inner =>
    cases inner with
    | none => exact .pure fun _ => allowsSome_some (Schema.within_boolean true)
    | some inner => exact hnode inner
  | jsxElement tag attributes children => exact hsome (meets_element h hb tag attributes children)
  | jsxFragment children => exact hsome (meets_element h hb "Fragment" [] children)
  | sourceFile | block | variableStatement | ifStatement | spreadElement | jsxSpreadAttribute =>
    exact hreject rfl

lemma meets_fallback (h : c.Keeps e) (hb : c.Admits s b) (n : NodeId) :
    c.Meets c.Err s (Evaluation.fallback host e b n) c.Allows := by
  rw [Evaluation.fallback]
  split
  · exact (h.typeAllows hb _ (some n)).map fun _ _ _ hr =>
      Schema.Within.withOrigin hr trivial trivial
  · exact .pure fun _ => Schema.within_primitive.2 fun _ _ => trivial

lemma meets_node (h : c.Keeps e) (hb : c.Admits s b) (n : NodeId) :
    c.Meets c.Err s (Evaluation.node host e b n) c.Allows := by
  have hfallback : ∀ t, c.Ext s t →
      c.Meets (c.ErrAt n) t (Evaluation.fallback host e (b.withTrace n) n) c.Allows := by
    intro t hst
    exact (meets_fallback h ((hb.withTrace n).ext hst) n).weaken fun _ hstop => c.err_context hstop
  refine Meets.within (F := c.ErrAt n) ?_ fun _ hstop => hstop
  dsimp only
  split
  · rename_i form hform
    refine (meets_form h (hb.withTrace n) hform).bind fun t o _ hst ho => ?_
    cases o with
    | some r => exact .pure fun _ => ho r rfl
    | none => exact hfallback t hst
  · exact hfallback s (c.ext_refl s)

/-! ## Whole evaluations -/

/-- Every evaluator keeps every contract.  The induction is on the depth; what is called lies two
levels below, and keeps the contract as a node of the level between. -/
theorem keeps_evaluator (c : Contract host) (depth : Nat) :
    c.Keeps (Evaluation.evaluator host depth) := by
  induction depth with
  | zero =>
    exact
      { node := fun _ _ _ _ => Meets.degrade.mono fun _ _ _ hr => hr.1
        type := fun _ _ _ _ _ => .degrade
        called := fun _ _ _ _ => Meets.degrade.mono fun _ _ _ hr => hr.1 }
  | succ depth ih =>
    constructor
    · intro s b n hb
      show c.Meets c.Err s (Evaluation.schemaOfNode host (depth + 1) b n) c.Allows
      rw [Evaluation.schemaOfNode_succ]
      exact meets_node ih hb n
    · intro s b id node hb
      show c.Meets c.Err s (Evaluation.convertType host (depth + 1) b id node) c.AllowsType
      rw [Evaluation.convertType_succ]
      exact meets_convert ih hb id node
    · intro s b n hb
      exact ih.node s b n hb

lemma meets_schemaOfEntry (context : Context) (hb : c.Admits s context.branch) (entry : Entry) :
    c.Meets c.Err s (context.schemaOfEntry host entry) c.Allows := by
  have hkeeps := c.keeps_evaluator context.remaining
  cases entry with
  | node n => exact hkeeps.node s _ n hb
  | type id node => exact hkeeps.typeAllows hb id node

lemma meets_convertDefinition (context : Context) (id : String) :
    c.Meets c.Err s (context.convertDefinition host id) fun _ _ => True := by
  have hkeeps := c.keeps_evaluator context.remaining
  refine (meets_materialize (fun t body => ?_) id).map fun _ _ _ _ => trivial
  exact hkeeps.typeAllows (admits_detached _) body none

lemma meets_convertDefinitions (context : Context) (rounds : Nat) :
    c.Meets c.Err s (context.convertDefinitions host rounds) fun _ _ => True := by
  induction rounds generalizing s with
  | zero =>
    rw [Context.convertDefinitions]
    refine .get_bind fun _ => ?_
    split
    · exact .pure fun _ => trivial
    · exact .throw fun _ => c.err_diverged
  | succ rounds ih =>
    rw [Context.convertDefinitions]
    refine .get_bind fun _ => ?_
    split
    · exact .pure fun _ => trivial
    · refine Meets.bind (Q := fun _ _ => True) ?_ fun t _ _ _ _ => ih
      exact .forM fun id _ t _ => meets_convertDefinition context id

/-- A complete evaluation keeps every contract. -/
theorem meets_evaluate (c : Contract host) (context : Context) (hb : c.Admits s context.branch)
    (entry : Entry) : c.Meets c.Err s (context.evaluate host entry) fun _ _ => True := by
  refine (meets_schemaOfEntry context hb entry).bind fun t root _ _ _ => ?_
  refine .get_bind fun _ => ?_
  refine (meets_convertDefinitions context _).bind fun u _ _ _ _ => ?_
  exact .get_bind fun _ => .pure fun _ => trivial

end Contract

end ValueSchema
