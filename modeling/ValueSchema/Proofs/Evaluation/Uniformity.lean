/-
# Evaluations respect simulations

Everything that evaluates is put together from what simulations go through, so from evaluators that
are alike come evaluations that are alike: `Simulation.related_evaluator`, by induction on the
depth, and `Simulation.rel_evaluate` for a complete evaluation.  The second evaluation may go
deeper than the first one, since giving up is like anything that goes on.
-/
import ValueSchema.Proofs.Evaluation.Preservation
import ValueSchema.Proofs.Evaluation.Simulation
import ValueSchema.Proofs.Schema.Subterm

namespace ValueSchema.Simulation

variable {host : Host} {S : Simulation host} {e e' : Evaluator} {b : Branch}

/-! ## Operators, conditions and templates -/

lemma rel_binary (h : S.Related b e e') (op : BinaryOperator) (left right : NodeId) :
    S.Rel (Evaluation.binary e b op left right) (Evaluation.binary e' b op left right) := by
  refine S.bind (h.node left) fun l => ?_
  cases Evaluation.selection? op l with
  | none => exact S.bind (h.node right) fun r => map cap
  | some selection =>
    cases selection with
    | left => exact S.pure l
    | right => exact h.node right

lemma rel_unary (h : S.Related b e e') (op : UnaryOperator) (fixity : Fixity) (operand : NodeId) :
    S.Rel (Evaluation.unary e b op fixity operand) (Evaluation.unary e' b op fixity operand) :=
  map (h.node operand)

lemma rel_conditional (h : S.Related b e e') (condition whenTrue whenFalse : NodeId) :
    S.Rel (Evaluation.conditional e b condition whenTrue whenFalse)
      (Evaluation.conditional e' b condition whenTrue whenFalse) := by
  refine S.bind (h.node condition) fun decided => ?_
  cases decided.truth? with
  | none =>
    exact S.bind (h.node whenTrue) fun yes => map (h.node whenFalse)
  | some truth =>
    cases truth with
    | true => exact h.node whenTrue
    | false => exact h.node whenFalse

lemma rel_templateParts (h : S.Related b e e') (spans : List (NodeId × String)) :
    S.Rel (Evaluation.templateParts e b spans) (Evaluation.templateParts e' b spans) := by
  induction spans with
  | nil => exact S.pure []
  | cons span rest ih =>
    exact S.bind (h.node span.1) fun value => map ih

lemma rel_template (h : S.Related b e e') (head : String) (spans : List (NodeId × String)) :
    S.Rel (Evaluation.template e b head spans) (Evaluation.template e' b head spans) :=
  S.bind (rel_templateParts h spans) fun _ => map cap

/-! ## Functions and calls -/

section

variable {eval eval' : NodeId → Eval Schema}

lemma rel_bodyResult (h : ∀ n, S.Rel (eval n) (eval' n)) (body : NodeId) :
    S.Rel (Evaluation.bodyResult host eval body) (Evaluation.bodyResult host eval' body) := by
  unfold Evaluation.bodyResult
  split
  · split
    · exact S.pure _
    · exact map (mapM h)
  · exact h body

lemma rel_returnType (h : ∀ n, S.Rel (eval n) (eval' n)) (f : FunctionForm) :
    S.Rel (Evaluation.returnType host eval f) (Evaluation.returnType host eval' f) := by
  unfold Evaluation.returnType
  split
  · exact S.pure none
  · refine S.bind (rel_bodyResult h _) fun result => ?_
    split
    · exact S.pure _
    · exact S.pure _

end

lemma rel_function (h : S.Related b e e') (n : NodeId) :
    S.Rel (Evaluation.function host e b n) (Evaluation.function host e' b n) := by
  unfold Evaluation.function
  split
  · exact S.pure none
  · split
    · exact S.pure none
    · exact S.bind (mapM fun p => map (h.node p)) fun _ => map (rel_returnType h.node _)

lemma rel_await (h : S.Related b e e') (expression : NodeId) :
    S.Rel (Evaluation.await e b expression) (Evaluation.await e' b expression) :=
  map (h.node expression)

lemma rel_argumentSchemas (h : S.Related b e e') (argument : NodeId) :
    S.Rel (Evaluation.argumentSchemas host e b argument)
      (Evaluation.argumentSchemas host e' b argument) := by
  unfold Evaluation.argumentSchemas
  split
  · dsimp only
    split
    · exact map (mapM h.node)
    · refine S.bind (h.node _) fun source => ?_
      split
      · exact S.pure _
      · exact S.pure none
  · exact map (h.node argument)

lemma rel_positionalArguments (h : S.Related b e e') (arguments : List NodeId) :
    S.Rel (Evaluation.positionalArguments host e b arguments)
      (Evaluation.positionalArguments host e' b arguments) := by
  induction arguments with
  | nil => exact S.pure (some [])
  | cons argument rest ih =>
    refine S.bind (rel_argumentSchemas h argument) fun o => ?_
    cases o with
    | none => exact S.pure none
    | some schemas => exact map ih

lemma rel_parameterArgument (h : S.Related b e e') (parameter : NodeId) (position : Nat)
    (arguments : List Schema) :
    S.Rel (Evaluation.parameterArgument host e b parameter position arguments)
      (Evaluation.parameterArgument host e' b parameter position arguments) := by
  unfold Evaluation.parameterArgument
  split
  · split
    · exact S.pure _
    · split
      · split
        · exact map (h.node _)
        · exact S.pure _
      · exact S.pure _
      · exact map (h.node _)
      · exact S.pure _
  · exact S.pure none

lemma rel_boundParameters (h : S.Related b e e') (f : FunctionForm) (arguments : List Schema) :
    S.Rel (Evaluation.boundParameters host e b f arguments)
      (Evaluation.boundParameters host e' b f arguments) := by
  refine map (mapM fun p => ?_)
  unfold Evaluation.boundParameter
  split
  · exact S.pure none
  · exact map (rel_parameterArgument h _ _ _)

lemma rel_call (h : S.Related b e e') (callee : NodeId) (arguments : List NodeId) :
    S.Rel (Evaluation.call host e b callee arguments)
      (Evaluation.call host e' b callee arguments) := by
  unfold Evaluation.call
  split
  · exact S.pure none
  · split
    · exact S.pure none
    · split
      · exact S.pure none
      · refine S.bind (rel_positionalArguments h arguments) fun o => ?_
        cases o with
        | none => exact S.pure none
        | some values =>
          refine S.bind (rel_boundParameters h _ values) fun bound => ?_
          exact rel_returnType (h.called _ _) _

/-! ## References -/

lemma rel_resolve (h : S.Related b e e') (schema : Schema) :
    S.Rel (Evaluation.resolve e b schema) (Evaluation.resolve e' b schema) := by
  cases schema with
  | reference name arguments id =>
    refine S.read fun s s' hs => ?_
    rw [hs.definitions, hs.isWellKnown]
    split
    · obtain ⟨depth, depth', rfl, rfl⟩ := h.levels
      exact map (S.materialize id h.body)
    · split
      · exact S.pure _
      · exact S.throw _
  | _ => exact S.pure _

/-! ## Spreading and reading -/

section

variable {at_ at_' : Schema → List ObjectShape → Eval (List ObjectShape)}

lemma rel_spreadEach {items : List Schema} {shapes : List ObjectShape}
    (h : ∀ r ∈ items, S.Rel (Evaluation.spreadWith at_ r shapes)
      (Evaluation.spreadWith at_' r shapes)) :
    S.Rel (Evaluation.spreadEach at_ items shapes) (Evaluation.spreadEach at_' items shapes) := by
  induction items with
  | nil => exact S.pure []
  | cons r rest ih =>
    obtain ⟨hr, hrest⟩ := List.forall_mem_cons.1 h
    rw [Evaluation.spreadEach, Evaluation.spreadEach]
    exact S.bind hr fun first => map (ih hrest)

lemma rel_spreadInTurn {items : List Schema} {shapes : List ObjectShape}
    (h : ∀ r ∈ items, ∀ shapes, S.Rel (Evaluation.spreadWith at_ r shapes)
      (Evaluation.spreadWith at_' r shapes)) :
    S.Rel (Evaluation.spreadInTurn at_ items shapes)
      (Evaluation.spreadInTurn at_' items shapes) := by
  induction items generalizing shapes with
  | nil => exact S.pure shapes
  | cons r rest ih =>
    obtain ⟨hr, hrest⟩ := List.forall_mem_cons.1 h
    rw [Evaluation.spreadInTurn, Evaluation.spreadInTurn]
    exact S.bind (hr shapes) fun next => ih hrest

lemma rel_spreadWith (h : ∀ r shapes, S.Rel (at_ r shapes) (at_' r shapes)) (source : Schema)
    (shapes : List ObjectShape) :
    S.Rel (Evaluation.spreadWith at_ source shapes)
      (Evaluation.spreadWith at_' source shapes) := by
  induction source using Schema.induction generalizing shapes with
  | step source ih =>
    cases source with
    | union items =>
      rw [Evaluation.spreadWith, Evaluation.spreadWith]
      split
      · exact S.pure _
      · exact rel_spreadEach fun r hr => ih r hr shapes
    | intersection items =>
      rw [Evaluation.spreadWith, Evaluation.spreadWith]
      exact rel_spreadInTurn ih
    | reference name arguments id => exact h _ shapes
    | _ => exact S.pure _

end

lemma rel_spreadWithin (h : S.Related b e e') (fuel : Nat) (source : Schema)
    (shapes : List ObjectShape) :
    S.Rel (Evaluation.spreadWithin (Evaluation.resolve e b) fuel source shapes)
      (Evaluation.spreadWithin (Evaluation.resolve e' b) fuel source shapes) := by
  induction fuel generalizing source shapes with
  | zero => exact S.throw _
  | succ fuel ih =>
    refine rel_spreadWith (fun r shapes => ?_) source shapes
    refine S.bind (rel_resolve h r) fun resolved => ?_
    split
    · exact S.pure _
    · exact ih _ _

lemma rel_spreadInto (h : S.Related b e e') (source : Schema) (shapes : List ObjectShape) :
    S.Rel (Evaluation.spreadInto host e b source shapes)
      (Evaluation.spreadInto host e' b source shapes) :=
  S.bind unfoldings fun fuel => rel_spreadWithin h fuel source shapes

section

variable {follow follow' : Schema → Eval (Option Schema)}

lemma rel_readWith (h : ∀ r, S.Rel (follow r) (follow' r)) (name : String) (source : Schema) :
    S.Rel (Evaluation.readWith follow name source) (Evaluation.readWith follow' name source) := by
  induction source using Schema.induction with
  | step source ih =>
    cases source with
    | union items =>
      have heach : ∀ rest, rest ⊆ items → S.Rel (Evaluation.readEach follow name rest)
          (Evaluation.readEach follow' name rest) := by
        intro rest
        induction rest with
        | nil =>
          intro _
          simp only [Evaluation.readEach]
          exact S.pure (some [])
        | cons r rest hrest =>
          intro hsub
          obtain ⟨hr, hsub⟩ := List.cons_subset.1 hsub
          simp only [Evaluation.readEach]
          refine S.bind (ih r hr) fun o => ?_
          cases o with
          | none => exact S.pure none
          | some value => exact map (hrest hsub)
      simp only [Evaluation.readWith]
      exact map (heach items fun _ hr => hr)
    | intersection items =>
      have hlast : ∀ rest found, rest ⊆ items →
          S.Rel (Evaluation.readLast follow name rest found)
            (Evaluation.readLast follow' name rest found) := by
        intro rest
        induction rest with
        | nil =>
          intro found _
          simp only [Evaluation.readLast]
          exact S.pure found
        | cons r rest hrest =>
          intro found hsub
          obtain ⟨hr, hsub⟩ := List.cons_subset.1 hsub
          simp only [Evaluation.readLast]
          exact S.bind (ih r hr) fun value => hrest (value.or found) hsub
      simp only [Evaluation.readWith]
      exact hlast items none fun _ hr => hr
    | reference target arguments id =>
      simp only [Evaluation.readWith]
      exact h _
    | literal value =>
      cases value with
      | string text => exact S.pure _
      | _ => exact S.pure none
    | _ => exact S.pure _

end

lemma rel_readProperty (h : S.Related b e e') (source : Schema) (name : String) :
    S.Rel (Evaluation.readProperty host e b source name)
      (Evaluation.readProperty host e' b source name) := by
  have hwithin : ∀ fuel source,
      S.Rel (Evaluation.readWithin (Evaluation.resolve e b) name fuel source)
        (Evaluation.readWithin (Evaluation.resolve e' b) name fuel source) := by
    intro fuel
    induction fuel with
    | zero => exact fun _ => S.throw _
    | succ fuel ih =>
      intro source
      refine rel_readWith (fun r => ?_) name source
      refine S.bind (rel_resolve h r) fun resolved => ?_
      split
      · exact S.pure none
      · exact ih _
  exact S.bind unfoldings fun fuel => hwithin fuel source

/-! ## Object and array literals -/

lemma rel_propertyKeys (h : S.Related b e e') (name : NodeId) :
    S.Rel (Evaluation.propertyKeys host e b name) (Evaluation.propertyKeys host e' b name) := by
  unfold Evaluation.propertyKeys
  split
  · exact S.pure _
  · split
    · exact map (h.node _)
    · exact map (h.node name)

lemma rel_addMember (h : S.Related b e e') (shapes : List ObjectShape) (member : NodeId) :
    S.Rel (Evaluation.addMember host e b shapes member)
      (Evaluation.addMember host e' b shapes member) := by
  unfold Evaluation.addMember
  split
  · exact S.bind (h.node _) fun _ => map (rel_propertyKeys h _)
  · exact map (h.node _)
  · refine S.bind (h.node member) fun value => ?_
    split
    · exact map (rel_propertyKeys h _)
    · exact S.pure shapes
  · exact S.bind (h.node _) fun source => rel_spreadInto h source shapes
  · exact S.pure shapes

lemma rel_objectLiteral (h : S.Related b e e') (members : List NodeId) :
    S.Rel (Evaluation.objectLiteral host e b members)
      (Evaluation.objectLiteral host e' b members) :=
  map (foldlM (rel_addMember h) [{}])

lemma rel_spreadElements (h : S.Related b e e') (spread : NodeId) (source : Schema) :
    S.Rel (Evaluation.spreadElements e b spread source)
      (Evaluation.spreadElements e' b spread source) := by
  unfold Evaluation.spreadElements
  split
  · split
    · exact S.pure _
    · exact map (rel_resolve h _)
  · exact S.pure _

lemma rel_arrayElements (h : S.Related b e e') (element : NodeId) :
    S.Rel (Evaluation.arrayElements host e b element)
      (Evaluation.arrayElements host e' b element) := by
  unfold Evaluation.arrayElements
  split
  · exact S.bind (h.node _) fun _ => map (mapM fun s => rel_spreadElements h element s)
  · exact map (h.node element)

lemma rel_arrayLiteral (h : S.Related b e e') (elements : List NodeId) :
    S.Rel (Evaluation.arrayLiteral host e b elements)
      (Evaluation.arrayLiteral host e' b elements) := by
  refine S.bind (mapM fun element => rel_arrayElements h element) fun lists => ?_
  split
  · exact S.pure _
  · exact S.pure _

lemma rel_propertyAccess (h : S.Related b e e') (expression name : NodeId) :
    S.Rel (Evaluation.propertyAccess host e b expression name)
      (Evaluation.propertyAccess host e' b expression name) := by
  unfold Evaluation.propertyAccess
  split
  · exact S.pure none
  · exact S.bind (h.node expression) fun source => rel_readProperty h source _

lemma rel_elementsAt (h : S.Related b e e') (target : Schema) (indices : List Schema) :
    S.Rel (Evaluation.elementsAt host e b target indices)
      (Evaluation.elementsAt host e' b target indices) := by
  induction indices with
  | nil => exact S.pure (some [])
  | cons index rest ih =>
    unfold Evaluation.elementsAt
    split
    · exact S.pure none
    · refine S.bind (rel_readProperty h target _) fun o => ?_
      cases o with
      | none => exact S.pure none
      | some value => exact map ih

lemma rel_elementAccess (h : S.Related b e e') (expression argument : NodeId) :
    S.Rel (Evaluation.elementAccess host e b expression argument)
      (Evaluation.elementAccess host e' b expression argument) :=
  S.bind (h.node expression) fun target => S.bind (h.node argument) fun index =>
    map (rel_elementsAt h target index.alternatives)

/-! ## Markup -/

lemma rel_addAttribute (h : S.Related b e e') (shapes : List ObjectShape) (item : NodeId) :
    S.Rel (Evaluation.addAttribute host e b shapes item)
      (Evaluation.addAttribute host e' b shapes item) := by
  unfold Evaluation.addAttribute
  split
  · exact map (h.node item)
  · exact S.bind (h.node _) fun source => rel_spreadInto h source shapes
  · exact S.pure shapes

lemma rel_element (h : S.Related b e e') (tag : String) (attributes children : List NodeId) :
    S.Rel (Evaluation.element host e b tag attributes children)
      (Evaluation.element host e' b tag attributes children) :=
  S.bind (foldlM (rel_addAttribute h) [{}]) fun _ =>
    S.bind (mapM h.node) fun _ => S.pure _

/-! ## Types -/

lemma rel_convertElement (h : S.Related b e e') (x : TupleElement) :
    S.Rel (Evaluation.convertElement e b x) (Evaluation.convertElement e' b x) := by
  refine S.bind (h.type x.type) fun schema => ?_
  split
  · split
    · exact S.pure _
    · exact S.pure _
  · exact S.pure _

lemma rel_convertSignature (h : S.Related b e e') (signature : Signature) :
    S.Rel (Evaluation.convertSignature e b signature)
      (Evaluation.convertSignature e' b signature) :=
  S.bind (mapM fun p => map (h.type p.type)) fun _ => map (h.type signature.result)

lemma rel_convertProperty (h : S.Related b e e') (fromLiteral : Bool) (p : Property) :
    S.Rel (Evaluation.convertProperty host e b fromLiteral p)
      (Evaluation.convertProperty host e' b fromLiteral p) := by
  unfold Evaluation.convertProperty
  split
  · exact map (h.node _)
  · exact map (h.type _)

lemma rel_convertIndex (h : S.Related b e e') (i : IndexSignature) :
    S.Rel (Evaluation.convertIndex e b i) (Evaluation.convertIndex e' b i) :=
  S.bind (h.type i.key) fun _ => map (h.type i.value)

lemma rel_convertObject (h : S.Related b e e') (id : TypeId) (type : ObjectType) :
    S.Rel (Evaluation.convertObject host e b id type)
      (Evaluation.convertObject host e' b id type) := by
  unfold Evaluation.convertObject
  rw [Eval.options_bind, Eval.options_bind]
  refine S.read fun s s' hs => ?_
  rw [hs.isWellKnown]
  split
  · exact S.pure _
  · split
    · exact S.bind (mapM fun p => rel_convertProperty h _ p) fun _ =>
        map (mapM fun i => rel_convertIndex h i)
    · exact map (mapM fun signature => rel_convertSignature h signature)

/-- The tail of the conversion of an instance: a reference, which is registered unless the type
belongs to the library. -/
lemma convertApplication_eq (host : Host) (e : Evaluator) (b : Branch) (id : TypeId) (name : String)
    (target : TypeId) (arguments : List TypeId) (body : TypeId) :
    Evaluation.convertApplication host e b id name target arguments body = (do
      let items ← arguments.mapM fun a => e.type b a none
      let session ← get
      if session.options.isWellKnown name then return .wellKnown name items
      else
        let key ← Evaluation.registerInstance host id name target body
        return .reference name items key) := by
  unfold Evaluation.convertApplication
  congr 1
  funext items s
  rw [Run.get_bind, Run.get_bind]
  split <;> rfl

lemma rel_convertApplication (h : S.Related b e e') {id : TypeId} {name : String} {target : TypeId}
    {arguments : List TypeId} {body : TypeId}
    (hid : host.types.get? id = some (.application name target arguments body)) :
    S.Rel (Evaluation.convertApplication host e b id name target arguments body)
      (Evaluation.convertApplication host e' b id name target arguments body) := by
  rw [convertApplication_eq, convertApplication_eq]
  refine S.bind (mapM fun a => h.type a) fun items => ?_
  refine S.read fun s s' hs => ?_
  rw [hs.isWellKnown]
  split
  · exact S.pure _
  · exact map (S.register hid)

lemma rel_convertForm (h : S.Related b e e') {id : TypeId} (node : Option NodeId) {form : TypeForm}
    (hid : host.types.get? id = some form) :
    S.Rel (Evaluation.convertForm host e b id node form)
      (Evaluation.convertForm host e' b id node form) := by
  cases form with
  | intrinsic kind => exact S.pure _
  | literal value => exact S.pure _
  | template parts =>
    refine S.bind (mapM fun part => ?_) fun _ => map cap
    cases part with
    | text value => exact S.pure _
    | type id => exact h.type id
  | union members => exact map (mapM fun m => h.type m)
  | intersection members => exact map (mapM fun m => h.type m)
  | tuple elements => exact map (mapM fun x => rel_convertElement h x)
  | array element =>
    simp only [Evaluation.convertForm]
    split
    · exact rel_arrayLiteral h _
    · exact map (h.type element)
  | object type => exact rel_convertObject h id type
  | keyOf subject => exact map (h.type subject)
  | access target key => exact S.bind (h.type target) fun _ => map (h.type key)
  | parameter name constraint =>
    cases constraint with
    | none => exact S.pure _
    | some constraint => exact h.type constraint
  | application name target arguments body => exact rel_convertApplication h hid

lemma rel_convert {depth depth' : Nat}
    (h : ∀ {b}, S.domain.Fits b →
      S.Related b (Evaluation.evaluator host depth) (Evaluation.evaluator host depth'))
    (hb : S.domain.Fits b) (id : TypeId) {node : Option NodeId} (hnode : S.domain.Asks node) :
    S.Rel (Evaluation.convert host (Evaluation.evaluator host depth) b id node)
      (Evaluation.convert host (Evaluation.evaluator host depth') b id node) := by
  unfold Evaluation.convert
  split
  · exact S.pure _
  · exact S.pure _
  · exact S.pure _
  · rename_i form _ _ hid
    exact S.compound hid hb hnode (fun b hb => (h hb).type) fun hb => rel_convertForm (h hb) node hid

/-! ## Names and nodes -/

lemma rel_parameter (h : S.Related b e e') (n : NodeId) (symbol : Option SymbolId) :
    S.Rel (Evaluation.parameter host e b n symbol)
      (Evaluation.parameter host e' b n symbol) := by
  unfold Evaluation.parameter
  split
  · exact S.pure _
  · split
    · exact map (h.type _)
    · exact S.pure _

lemma rel_declaration (h : S.Related b e e') (n : NodeId) (symbol : Option SymbolId) :
    S.Rel (Evaluation.declaration host e b n symbol)
      (Evaluation.declaration host e' b n symbol) := by
  unfold Evaluation.declaration
  split
  · exact map (h.node _)
  · split
    · exact map (h.type _)
    · exact S.pure _
  · exact map (rel_parameter h n symbol)
  · split
    · exact rel_function h n
    · exact map (h.node n)
  · exact S.throw _

lemma rel_identifier (h : S.Related b e e') (n : NodeId) (text : String) :
    S.Rel (Evaluation.identifier host e b n text)
      (Evaluation.identifier host e' b n text) := by
  unfold Evaluation.identifier
  split
  · exact S.pure _
  · split
    · exact S.pure _
    · exact rel_declaration h _ _

lemma rel_form (h : S.Related b e e') (n : NodeId) (form : Form) :
    S.Rel (Evaluation.form host e b n form) (Evaluation.form host e' b n form) := by
  cases form with
  | numericLiteral | stringLiteral | bigIntLiteral | trueKeyword | falseKeyword | nullKeyword
  | omittedExpression | jsxText => exact S.pure _
  | templateExpression head spans => exact map (rel_template h head spans)
  | identifier text => exact rel_identifier h n text
  | objectLiteral members => exact map (rel_objectLiteral h members)
  | arrayLiteral elements => exact map (rel_arrayLiteral h elements)
  | propertyAssignment _ inner | shorthandProperty inner | spreadAssignment inner
  | computedName inner | parenthesized inner | typeAssertion inner | expressionStatement inner =>
    exact map (h.node inner)
  | binary op left right => exact map (rel_binary h op left right)
  | unary op fixity operand => exact map (rel_unary h op fixity operand)
  | conditional condition whenTrue whenFalse =>
    exact map (rel_conditional h condition whenTrue whenFalse)
  | functionDeclaration | functionExpression | arrowFunction | methodDeclaration =>
    exact rel_function h n
  | parameter => exact map (rel_parameter h n none)
  | call callee arguments => exact rel_call h callee arguments
  | await expression => exact map (rel_await h expression)
  | propertyAccess expression name => exact rel_propertyAccess h expression name
  | elementAccess expression argument => exact rel_elementAccess h expression argument
  | variableDeclaration => exact rel_declaration h n _
  | returnStatement inner | jsxExpression inner =>
    cases inner with
    | none => exact S.pure _
    | some inner => exact map (h.node inner)
  | jsxAttribute name inner =>
    cases inner with
    | none => exact S.pure _
    | some inner => exact map (h.node inner)
  | jsxElement tag attributes children => exact map (rel_element h tag attributes children)
  | jsxFragment children => exact map (rel_element h "Fragment" [] children)
  | sourceFile | block | variableStatement | ifStatement | spreadElement | jsxSpreadAttribute =>
    exact S.reject _

lemma rel_fallback (h : S.Related b e e') {n : NodeId} (hn : host.Bare (some n)) :
    S.Rel (Evaluation.fallback host e b n) (Evaluation.fallback host e' b n) := by
  unfold Evaluation.fallback
  split
  · exact map (h.typeAt _ (some n) (S.domain.bare hn))
  · exact S.pure _

lemma rel_node {n : NodeId} (h : S.Related (b.withTrace n) e e') :
    S.Rel (Evaluation.node host e b n) (Evaluation.node host e' b n) := by
  refine S.within n ?_
  rcases hn : host.tree.form? n with _ | form
  · exact rel_fallback h fun elements helements => by cases hn.symm.trans helements
  · by_cases hliteral : ∃ elements, form = .arrayLiteral elements
    · -- an array literal has a schema, so its type is not asked
      obtain ⟨elements, rfl⟩ := hliteral
      simp only [Evaluation.form, bind_assoc, pure_bind]
      exact S.bind (rel_arrayLiteral h elements) fun schema => S.pure schema
    · refine S.bind (rel_form h n form) fun value => ?_
      cases value with
      | some schema => exact S.pure schema
      | none =>
        refine rel_fallback h fun elements helements => hliteral ⟨elements, ?_⟩
        exact Option.some.inj (hn.symm.trans helements)

/-! ## Whole evaluations -/

/-- Evaluators are alike if the second one may go at least as deep.  The induction is on the depth
of the first one, which has nothing to say once it is used up. -/
theorem related_evaluator (S : Simulation host) {depth depth' : Nat} (hdepth : depth ≤ depth')
    (hb : S.domain.Fits b) :
    S.Related b (Evaluation.evaluator host depth) (Evaluation.evaluator host depth') := by
  induction depth generalizing depth' b with
  | zero =>
    exact ⟨⟨0, depth', rfl, rfl⟩, fun _ => S.degrade _, fun _ _ _ => S.degrade _,
      fun _ _ _ => S.degrade _, fun _ => S.degrade _⟩
  | succ depth ih =>
    obtain ⟨deeper, rfl⟩ : ∃ deeper, depth' = deeper + 1 := ⟨depth' - 1, by omega⟩
    have hinner : ∀ {b}, S.domain.Fits b →
        S.Related b (Evaluation.evaluator host depth) (Evaluation.evaluator host deeper) :=
      ih (Nat.le_of_succ_le_succ hdepth)
    have htype : ∀ {b}, S.domain.Fits b → ∀ id {node}, S.domain.Asks node →
        S.Rel (Evaluation.convertType host (depth + 1) b id node)
          (Evaluation.convertType host (deeper + 1) b id node) := by
      intro b hb id node hnode
      rw [Evaluation.convertType_succ, Evaluation.convertType_succ]
      exact rel_convert hinner hb id hnode
    refine ⟨⟨depth + 1, deeper + 1, rfl, rfl⟩, fun n => ?_, fun id node => htype hb id,
      fun function values n => (hinner (S.domain.withFunction function values hb)).node n,
      fun id => htype (S.domain.detached hb) id (S.domain.bare host.bare_none)⟩
    show S.Rel (Evaluation.schemaOfNode host (depth + 1) b n)
      (Evaluation.schemaOfNode host (deeper + 1) b n)
    rw [Evaluation.schemaOfNode_succ, Evaluation.schemaOfNode_succ]
    exact rel_node (hinner (S.domain.withTrace n hb))

section

variable {c c' : Context}

lemma rel_schemaOfEntry (S : Simulation host) (hbranch : c'.branch = c.branch)
    (hdepth : c.remaining ≤ c'.remaining) (hc : S.domain.Fits c.branch) {entry : Entry}
    (hentry : S.domain.Asks entry.node?) :
    S.Rel (c.schemaOfEntry host entry) (c'.schemaOfEntry host entry) := by
  have h : S.Related c.branch (c.evaluator host) (c'.evaluator host) := S.related_evaluator hdepth hc
  cases entry with
  | node n =>
    show S.Rel ((c.evaluator host).node c.branch n) ((c'.evaluator host).node c'.branch n)
    rw [hbranch]
    exact h.node n
  | type id node =>
    show S.Rel ((c.evaluator host).type c.branch id node) ((c'.evaluator host).type c'.branch id node)
    rw [hbranch]
    exact h.typeAt id node hentry

lemma rel_convertDefinition (S : Simulation host) (hbranch : c'.branch = c.branch)
    (hdepth : c.remaining ≤ c'.remaining) (hc : S.domain.Fits c.branch) (id : String) :
    S.Rel (c.convertDefinition host id) (c'.convertDefinition host id) := by
  rw [Context.convertDefinition, Context.convertDefinition, hbranch]
  exact map (S.materialize id (S.related_evaluator hdepth hc).body)

lemma rel_convertDefinitions (S : Simulation host) (hbranch : c'.branch = c.branch)
    (hdepth : c.remaining ≤ c'.remaining) (hc : S.domain.Fits c.branch) (rounds : Nat) :
    S.Rel (c.convertDefinitions host rounds) (c'.convertDefinitions host rounds) := by
  induction rounds with
  | zero =>
    rw [Context.convertDefinitions, Context.convertDefinitions]
    refine S.read fun s s' hs => ?_
    rw [hs.definitions]
    split
    · exact S.pure _
    · exact S.throw _
  | succ rounds ih =>
    rw [Context.convertDefinitions, Context.convertDefinitions]
    refine S.read fun s s' hs => ?_
    rw [hs.definitions]
    split
    · exact S.pure _
    · exact S.bind (forM fun id => S.rel_convertDefinition hbranch hdepth hc id) fun _ => ih

/-- Complete evaluations are alike if the second one may go at least as deep. -/
theorem rel_evaluate (S : Simulation host) (hbranch : c'.branch = c.branch)
    (hdepth : c.remaining ≤ c'.remaining) (hc : S.domain.Fits c.branch) {entry : Entry}
    (hentry : S.domain.Asks entry.node?) :
    S.Rel (c.evaluate host entry) (c'.evaluate host entry) := by
  refine S.bind (S.rel_schemaOfEntry hbranch hdepth hc hentry) fun root => ?_
  refine S.read fun s s' hs => ?_
  rw [hs.definitions]
  refine S.bind (S.rel_convertDefinitions hbranch hdepth hc _) fun _ => ?_
  refine S.read fun t t' ht => ?_
  rw [ht.definitions, ht.inlineSingleUse]
  exact S.pure _

end

end ValueSchema.Simulation
