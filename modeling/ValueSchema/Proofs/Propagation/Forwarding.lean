/-
# Parameters that are passed on

A function passes a parameter straight on to another one: `foo(x)` in the body of `bar(x)`.  The
argument is then the declared type of the parameter, with the parameter as the origin of everything
unresolved in it, and for each call of `bar` the value of the parameter is put in the place of each
of these parts.

The main result, `Propagation.functionCalls_forwards`, says which argument `foo` is called with: the
declared type filled with the value.  It is the value itself for every value exactly if the declared
type is transparent; what is passed through a parameter of an object or list type, or of a type with
a literal in it, is changed.
-/
import ValueSchema.Proofs.Evaluation.Session
import ValueSchema.Proofs.Program.Declaration
import ValueSchema.Proofs.Propagation.Trace
import ValueSchema.Proofs.Schema.Transparency

namespace ValueSchema

/-! ## The argument where the call stands -/

lemma Eval.eq_ok_of_within {α : Type} {tree : Tree} {n : NodeId} {m : Eval α} {s t : Session} {a : α}
    (h : Eval.within tree n m s = (.ok a, t)) : m s = (.ok a, t) := by
  rcases hrun : m s with ⟨stop | b, u⟩
  · rw [Eval.within_of_error hrun] at h
    cases h
  · rw [Eval.within_of_ok hrun] at h
    exact h

/-- The declared type of a parameter has a schema: it is converted to it in a closed session with
the given options, and the depth suffices for that.  A parameter without a type is unknown. -/
def Evaluation.DeclaredAs (host : Host) (options : Options) (parameter : NodeId)
    (schema : Schema) : Prop :=
  (host.typeOfNode parameter = none ∧ schema = .unknown) ∨
  ∃ type depth b s t, host.typeOfNode parameter = some type ∧ s.Closed options ∧
    t.degraded = s.degraded ∧ convertType host depth b type none s = (.ok schema, t)

section

variable {host : Host} {options : Options} {c : Context} {s t : Session} {x parameter : NodeId}
  {name : NodeId} {value : Option NodeId} {isRest : Bool}

/-- A name that refers to a declaration without a value in a branch. -/
structure Names (host : Host) (b : Branch) (x declaration : NodeId) : Prop where
  identifier : ∃ text, host.tree.form? x = some (.identifier text)
  resolves : ∃ symbol, host.resolve x = some ⟨symbol, declaration⟩ ∧ b.binding? symbol = none

/-- A name of a parameter has the schema of its declared type, with the parameter as its origin. -/
lemma schemaOfNode_of_names (hs : s.Closed options)
    (hb : (Contract.closed host options).Admits s c.branch)
    (hx : Names host c.branch x parameter)
    (hparameter : host.tree.form? parameter = some (.parameter name value isRest)) {r : Schema}
    (h : c.schemaOfNode host x s = (.ok r, t)) (hcomplete : t.degraded = s.degraded) :
    ∃ declared : Schema, Evaluation.DeclaredAs host options parameter declared ∧
      declared.Typelike ∧ r = declared.overrideOrigin parameter := by
  obtain ⟨text, hform⟩ := hx.identifier
  obtain ⟨symbol, hresolve, hunbound⟩ := hx.resolves
  replace h : Evaluation.schemaOfNode host c.remaining c.branch x s = (.ok r, t) := h
  rcases hdepth : c.remaining with _ | depth
  · -- nothing is evaluated any more, and that is counted
    rw [hdepth] at h
    cases h
    simp at hcomplete
  rw [hdepth, Evaluation.schemaOfNode_succ] at h
  replace h := Eval.eq_ok_of_within h
  rw [hform] at h
  obtain ⟨o, u, hidentifier, h⟩ := Run.bind_eq_ok.1 h
  replace hidentifier : Evaluation.identifier host (Evaluation.evaluator host depth)
      (c.branch.withTrace x) x text s = (.ok o, u) := hidentifier
  have hunbound' : (c.branch.withTrace x).binding? symbol = none := hunbound
  rw [Evaluation.identifier, hresolve] at hidentifier
  dsimp only at hidentifier
  rw [hunbound', Evaluation.declaration, hparameter] at hidentifier
  obtain ⟨schema, w, hschema, hpure⟩ := Run.bind_eq_ok.1 hidentifier
  cases hpure
  cases h
  rw [Evaluation.parameter, Option.some_or, Option.bind_some, hunbound'] at hschema
  dsimp only at hschema
  rcases htype : host.typeOfNode parameter with _ | type
  · rw [htype] at hschema
    cases hschema
    exact ⟨.unknown, Or.inl ⟨htype, rfl⟩, .simple rfl rfl, rfl⟩
  · rw [htype] at hschema
    obtain ⟨declared, w, hdeclared, hpure⟩ := Run.bind_eq_ok.1 hschema
    cases hpure
    have hkeeps := (Contract.closed host options).keeps_evaluator depth
    obtain ⟨-, -, -, htypelike⟩ :=
      (hkeeps.type s (c.branch.withTrace x) type none hb).ok hs declared _ hdeclared
    exact ⟨declared, Or.inr ⟨type, depth, _, s, _, htype, hs, hcomplete, hdeclared⟩, htypelike, rfl⟩

/-- A call with such a name as its only argument. -/
lemma callSite_of_names (hs : s.Closed options)
    (hb : (Contract.closed host options).Admits s c.branch)
    (hx : Names host c.branch x parameter)
    (hparameter : host.tree.form? parameter = some (.parameter name value isRest)) {call : NodeId}
    {site : CallSite} (h : Propagation.callSite host c call [x] s = (.ok site, t))
    (hcomplete : t.degraded = s.degraded) :
    ∃ declared : Schema, Evaluation.DeclaredAs host options parameter declared ∧
      declared.Typelike ∧ site = ⟨call, [declared.overrideOrigin parameter],
        Propagation.ownersOf host.tree call [declared.overrideOrigin parameter], true⟩ := by
  obtain ⟨text, hform⟩ := hx.identifier
  obtain ⟨o, u, ho, h⟩ := Run.bind_eq_ok.1 h
  rw [Evaluation.positionalArguments] at ho
  obtain ⟨first, w, hfirst, ho⟩ := Run.bind_eq_ok.1 ho
  rw [Evaluation.argumentSchemas, hform] at hfirst
  obtain ⟨schema, v, hschema, hpure⟩ := Run.bind_eq_ok.1 hfirst
  cases hpure
  cases ho
  cases h
  obtain ⟨declared, hdeclared, htypelike, rfl⟩ :=
    schemaOfNode_of_names hs hb hx hparameter hschema hcomplete
  exact ⟨declared, hdeclared, htypelike, rfl⟩

end

/-! ## The value of the parameter in a call of the owner -/

namespace Propagation

section

variable {host : Host} {options : Options} {c : Context} {s t : Session} {parameter name : NodeId}
  {arguments : List Schema} {a : Schema} {f : FunctionForm} {i : Nat}

lemma argumentFor_fst {p : FormalParameter × Nat} {e : NodeId × Schema}
    (h : argumentFor host c arguments p s = (.ok e, t)) : e.1 = p.1.declaration := by
  obtain ⟨value, u, -, hpure⟩ := Run.bind_eq_ok.1 h
  cases hpure
  rfl

/-- A parameter that is neither a rest parameter nor has an initial value stands for the argument in
its position. -/
lemma argumentFor_of_plain {p : FormalParameter × Nat} {e : NodeId × Schema}
    (hparameter : host.tree.form? p.1.declaration = some (.parameter name none false))
    (ha : arguments[p.2]? = some a) (h : argumentFor host c arguments p s = (.ok e, t)) :
    e = (p.1.declaration, a) := by
  obtain ⟨value, u, hvalue, hpure⟩ := Run.bind_eq_ok.1 h
  rw [Evaluation.parameterArgument, hparameter] at hvalue
  dsimp only at hvalue
  rw [if_neg (by simp), ha] at hvalue
  cases hvalue
  cases hpure
  rfl

lemma get?_argumentsFor {values : Table NodeId Schema}
    (hparameter : host.tree.form? parameter = some (.parameter name none false))
    (hposition : f.parameters[i]? = some parameter)
    (hlast : parameter ∉ f.parameters.drop (i + 1)) (ha : arguments[i]? = some a)
    (h : argumentsFor host c (f.parameters.map (formalParameter host)) arguments s =
      (.ok values, t)) : values.get? parameter = some a := by
  obtain ⟨entries, u, hentries, hpure⟩ := Run.bind_eq_ok.1 h
  cases hpure
  obtain ⟨-, -, hall⟩ := Run.forall₂_of_mapM (I := fun _ => True) (R := fun _ _ => True)
    (fun _ => trivial) (fun _ _ => trivial) (fun _ _ _ _ _ _ _ => ⟨trivial, trivial⟩) trivial hentries
  have hdeclarations : List.Forall₂ (fun (p : FormalParameter × Nat) (e : NodeId × Schema) =>
      e.1 = p.1.declaration) (f.parameters.map (formalParameter host)).zipIdx entries := by
    refine hall.imp fun p e he => ?_
    obtain ⟨v, w, -, -, hrun, -⟩ := he
    exact argumentFor_fst hrun
  have hkeys : entries.map Prod.fst = f.parameters := by
    calc entries.map Prod.fst
        = (f.parameters.map (formalParameter host)).zipIdx.map
            (FormalParameter.declaration ∘ Prod.fst) := Run.map_eq_of_forall₂ hdeclarations
      _ = (f.parameters.map (formalParameter host)).map FormalParameter.declaration := by
          rw [← List.map_map, List.zipIdx_map_fst]
      _ = f.parameters := by
          rw [List.map_map]
          exact List.map_id _
  have hat : (f.parameters.map (formalParameter host)).zipIdx[i]? =
      some (formalParameter host parameter, i) := by
    simp [hposition]
  obtain ⟨e, he, v, w, -, -, hrun, -⟩ := Run.exists_result_at hall hat
  obtain rfl := argumentFor_of_plain hparameter ha hrun
  exact Table.get?_foldl_put he (by rwa [List.map_drop, hkeys]) []

/-- A parameter that is passed on as the only argument has its declared type filled with the
argument of the owner. -/
lemma arguments_throughCall {ownerCall call : ResolvedCall} {parameters : List FormalParameter}
    {declared : Schema} {site : CallSite}
    (hsite : site.arguments = [declared.overrideOrigin parameter]) (hs : s.Closed options)
    (hb : (Contract.closed host options).Admits s c.branch)
    (hallowed : (Contract.closed host options).AllowsAll s ownerCall.arguments)
    (hparameter : host.tree.form? parameter = some (.parameter name none false))
    (hposition : f.parameters[i]? = some parameter)
    (hlast : parameter ∉ f.parameters.drop (i + 1)) (ha : ownerCall.arguments[i]? = some a)
    (h : throughCall host c parameters (f.parameters.map (formalParameter host)) site ownerCall s =
      (.ok call, t)) :
    call.arguments = [(declared.fill a).refold options.maxUnionExpansion] := by
  obtain ⟨values, u, hvalues, h⟩ := Run.bind_eq_ok.1 h
  have hvalue : values.get? parameter = some a :=
    get?_argumentsFor hparameter hposition hlast ha hvalues
  obtain ⟨hu, -⟩ := (Contract.meets_argumentsFor hb hallowed _).ok hs values u hvalues
  cases h
  show instantiate t.options.maxUnionExpansion site values = _
  rw [hu.options_eq, instantiate, hsite, List.map_cons, List.map_nil,
    Schema.substitute_overrideOrigin hvalue]

end

/-! ## The call sites of a run -/

section

variable {t : Tree} {call owner : NodeId} {s : Schema}

/-- What depends on a parameter is not concrete. -/
lemma isConcrete_of_ownersOf_ne_nil (h : ownersOf t call [s] ≠ []) : s.isConcrete = false := by
  by_contra hconcrete
  have hall : ∀ u ∈ s.subterms, u.isUnresolved = false := by
    simpa [Schema.isConcrete] using hconcrete
  have hinputs : s.subterms.filterMap Schema.origin? = [] := by
    refine List.filterMap_eq_nil_iff.2 fun u hu => ?_
    have hresolved := hall u hu
    cases u with
    | primitive | error | keys | access => cases hresolved
    | _ => rfl
  refine h ?_
  simp [ownersOf, Schema.inputs, hinputs]

lemma settled?_of_ownersOf (h : ownersOf t call [s] = [owner]) :
    settled? ⟨call, [s], ownersOf t call [s], true⟩ = .inr owner := by
  have hne : ownersOf t call [s] ≠ [] := by simp [h]
  simp [settled?, h, isConcrete_of_ownersOf_ne_nil hne]

end

section

variable {host : Host} {c : Context} {symbol : SymbolId} {s t : Session} {calls : List ResolvedCall}

/-- The calls of another function have been resolved, and a call with the argument `a` in the
position `i` leads to one with the only argument `result a`; `a` has no placeholders. -/
def Trace.Forwards (trace : Trace host c symbol s calls t) (owner : NodeId) (i : Nat)
    (result : Schema → Schema) : Prop :=
  ∃ ownerCalls, trace.progress.resolved.get? owner = some ownerCalls ∧
    ∀ ownerCall ∈ ownerCalls, ∀ a, ownerCall.arguments[i]? = some a → a.placeholders = [] →
      ∃ call ∈ calls, ∃ v, call.arguments = [v] ∧ Schema.equal v (result a) = true

/-- A call that passes a parameter on: its only argument is the name of a parameter that is neither
a rest parameter nor has an initial value.  The parameter stands in the position `i` among those of
the owner, and not in a later one again. -/
structure Passes (host : Host) (c : Context) (symbol : SymbolId) (call parameter owner : NodeId)
    (i : Nat) : Prop where
  isCall : call ∈ callsOf host symbol
  argument : ∃ x, argumentsOf host.tree call = [x] ∧ Names host c.branch x parameter
  plain : ∃ name, host.tree.form? parameter = some (.parameter name none false)
  position : ∃ f, host.tree.function? owner = some f ∧ f.parameters[i]? = some parameter ∧
    parameter ∉ f.parameters.drop (i + 1)

variable {options : Options} {call parameter owner : NodeId} {i : Nat}

/-- Such a call is found with the declared type of the parameter as its argument. -/
lemma exists_site_of_passes (hs : s.Closed options)
    (hb : (Contract.closed host options).Admits s c.branch)
    (hpasses : Passes host c symbol call parameter owner i) {sites : List CallSite}
    (h : callSites host c symbol s = (.ok sites, t)) (hcomplete : t.degraded = s.degraded) :
    ∃ declared : Schema, Evaluation.DeclaredAs host options parameter declared ∧
      declared.Typelike ∧ ⟨call, [declared.overrideOrigin parameter],
        ownersOf host.tree call [declared.overrideOrigin parameter], true⟩ ∈ sites := by
  let k := Contract.closed host options
  obtain ⟨x, harguments, hx⟩ := hpasses.argument
  obtain ⟨name, hplain⟩ := hpasses.plain
  obtain ⟨-, -, hall⟩ := Run.forall₂_of_mapM (I := fun u => k.Inv u ∧ k.Ext s u) (R := k.Ext)
    k.ext_refl k.ext_trans (fun call _ u site w hu hrun => by
      obtain ⟨hw, huw, -⟩ :=
        (Contract.meets_callSite (hb.ext hu.2) call _).ok hu.1 site w hrun
      exact ⟨⟨hw, k.ext_trans hu.2 huw⟩, huw⟩)
    ⟨hs, k.ext_refl s⟩ h
  obtain ⟨site, hsite, u, w, ⟨hu, hsu⟩, -, hrun, hwt⟩ := Run.exists_result hall hpasses.isCall
  rw [harguments] at hrun
  have huw := ((Contract.meets_callSite (hb.ext hsu) call [x]).ok hu site w hrun).2.1
  -- the depth sufficed in the whole run, and so for this call
  have hlocal : w.degraded = u.degraded := by
    have h₁ : s.degraded ≤ u.degraded := hsu.degraded_le
    have h₂ : u.degraded ≤ w.degraded := huw.degraded_le
    have h₃ : w.degraded ≤ t.degraded := hwt.degraded_le
    omega
  obtain ⟨declared, hdeclared, htypelike, rfl⟩ :=
    callSite_of_names hu (hb.ext hsu) hx hplain hrun hlocal
  exact ⟨declared, hdeclared, htypelike, hsite⟩

/-- A call with a given argument is listed by one with an equal argument. -/
lemma Listed.exists_equal {call : ResolvedCall} {v : Schema} {vocabulary : Vocabulary}
    (h : Listed calls call) (harguments : call.arguments = [v]) (hv : v.Within vocabulary) :
    ∃ entry ∈ calls, ∃ w, entry.arguments = [w] ∧ Schema.equal w v = true := by
  obtain ⟨entry, hentry, rfl | hequal⟩ := h
  · exact ⟨entry, hentry, v, harguments, Schema.equal_self hv⟩
  · rw [harguments] at hequal
    rcases hknown : entry.arguments with _ | ⟨w, _ | ⟨x, rest⟩⟩
    · simp [hknown, Schema.equalAll] at hequal
    · exact ⟨entry, hentry, w, hknown, by simpa [hknown, Schema.equalAll] using hequal⟩
    · simp [hknown, Schema.equalAll] at hequal

/-- A function passes a parameter on, and is called with a value for it.  Then the other function is
called with the declared type of the parameter, filled with the value.  This is the value itself, for
every value, exactly if the declared type is transparent. -/
theorem functionCalls_forwards (hs : s.Closed s.options)
    (hb : ∀ e ∈ c.branch.bindings, e.2.Within (.ofReferences s.Known))
    (hrun : functionCalls host c symbol s = (.ok calls, t)) (hcomplete : t.degraded = s.degraded) :
    ∃ trace : Trace host c symbol s calls t, ∀ call parameter owner i,
      Passes host c symbol call parameter owner i →
      ∃ site ∈ trace.sites, ∃ declared : Schema,
        Evaluation.DeclaredAs host s.options parameter declared ∧
        site.call = call ∧ site.arguments = [declared.overrideOrigin parameter] ∧
        (site.owners = [owner] → owner ≠ trace.function →
          trace.Forwards owner i
            (fun a => (declared.fill a).refold s.options.maxUnionExpansion) ∧
          (declared.Transparent →
            trace.Forwards owner i fun a => a.refold s.options.maxUnionExpansion)) ∧
        ((∀ a : Schema, a.Within .filled → Schema.equal
            ((declared.fill a).refold s.options.maxUnionExpansion)
            (a.refold s.options.maxUnionExpansion) = true) ↔ declared.Transparent) := by
  let k := Contract.closed host s.options
  replace hb : k.Admits s c.branch := hb
  obtain ⟨trace⟩ := exists_trace hrun
  obtain ⟨hmiddle, hfound, sites, u, hsites, humiddle, hfunction, howners⟩ :=
    Contract.discover_spec (k := k) hs hb trace.discovered
  obtain ⟨-, hsu, -⟩ := (Contract.meets_callSites hb symbol).ok hs sites u hsites
  obtain ⟨hmiddlet, hcall⟩ := trace.exists_call hmiddle
    (hb.ext (k.ext_trans hsu humiddle)) hfound hfunction
  have hlocal : u.degraded = s.degraded := by
    have h₁ : s.degraded ≤ u.degraded := hsu.degraded_le
    have h₂ : u.degraded ≤ t.degraded := (k.ext_trans humiddle hmiddlet).degraded_le
    omega
  refine ⟨trace, fun call parameter owner i hpasses => ?_⟩
  obtain ⟨declared, hdeclared, htypelike, hsite⟩ :=
    exists_site_of_passes hs hb hpasses hsites hlocal
  refine ⟨_, by rwa [Trace.sites, hfunction], declared, hdeclared, rfl, rfl, fun howner hne => ?_,
    Schema.forall_equal_refold_fill_iff htypelike _⟩
  obtain ⟨ownerCalls, hget, hthrough⟩ := hcall _ hsite owner (settled?_of_ownersOf howner) hne
  obtain ⟨name, hplain⟩ := hpasses.plain
  obtain ⟨f, hf, hposition, hlast⟩ := hpasses.position
  have hparameters : ((trace.found.get? owner).getD {}).parameters =
      f.parameters.map (formalParameter host) := by
    obtain ⟨callee, hcallee⟩ := howners _ hsite owner (by rw [howner]; simp)
    rw [hcallee, Option.getD_some, (hfound owner callee hcallee).1, formalParameters, hf]
  rw [hparameters] at hthrough
  have hforwards : ∀ result : Schema → Schema,
      (∀ (v : Vocabulary) (a : Schema), a.Within v → a.placeholders = [] →
        (declared.fill a).refold s.options.maxUnionExpansion = result a) →
      trace.Forwards owner i result := by
    intro result hresult
    refine ⟨ownerCalls, hget, fun ownerCall hmem a ha hplaced => ?_⟩
    obtain ⟨call, hlisted, v, w, hv, hbv, hsitev, hcallv, hrun⟩ := hthrough ownerCall hmem
    have harguments := arguments_throughCall rfl hv hbv hcallv hplain hposition hlast ha hrun
    have hall := ((Contract.meets_throughCall hbv hsitev hcallv _ _).ok hv call w hrun).2.2
    rw [hresult _ a (hcallv a (List.mem_of_getElem? ha)) hplaced] at harguments
    rw [harguments] at hall
    exact hlisted.exists_equal harguments (hall _ (List.mem_singleton_self _))
  refine ⟨hforwards _ fun _ _ _ _ => rfl, fun htransparent => hforwards _ fun v a ha hplaced => ?_⟩
  exact Schema.refold_fill_of_transparent htransparent (ha.filled hplaced) _

end

/-- Passing a parameter on: `function foo(n) {}  function bar(x) { foo(x) }  bar({ a: "u" })`, with
the declared type `{ a: string }` of `x`. -/
def relay : Draft :=
  let forms : List Form :=
    [.identifier "n", .parameter ⟨0⟩ none false, .identifier "foo", .block [],
      .functionDeclaration ⟨some ⟨2⟩, [⟨1⟩], some ⟨3⟩, false, false⟩,
      .identifier "x", .parameter ⟨5⟩ none false, .identifier "x", .identifier "foo",
      .call ⟨8⟩ [⟨7⟩], .expressionStatement ⟨9⟩, .identifier "bar", .block [⟨10⟩],
      .functionDeclaration ⟨some ⟨11⟩, [⟨6⟩], some ⟨12⟩, false, false⟩,
      .stringLiteral "u", .identifier "a", .propertyAssignment ⟨15⟩ ⟨14⟩, .objectLiteral [⟨16⟩],
      .identifier "bar", .call ⟨18⟩ [⟨17⟩], .expressionStatement ⟨19⟩,
      .sourceFile "main.ts" [⟨4⟩, ⟨13⟩, ⟨20⟩]]
  let (type, d) := (forms.foldl (fun d form => (d.add form).2) ({} : Draft)).addType
    (.object { properties := [⟨"a", Intrinsic.string.id, Intrinsic.string.id, false, none⟩] })
  { d with nodeTypes := d.nodeTypes.put ⟨6⟩ type }

set_option maxRecDepth 4000 in
lemma passes_relay : Passes relay.finish.host (Context.start {}) ⟨0⟩ ⟨9⟩ ⟨6⟩ ⟨13⟩ 0 where
  isCall := by decide +kernel
  argument := by
    refine ⟨⟨7⟩, by decide +kernel, ⟨"x", ?_⟩, ⟨3⟩, by decide +kernel, rfl⟩
    show relay.finish.draft.tree.form? ⟨7⟩ = _
    rw [Draft.tree_finish]
    rfl
  plain := by
    refine ⟨⟨5⟩, ?_⟩
    show relay.finish.draft.tree.form? ⟨6⟩ = _
    rw [Draft.tree_finish]
    rfl
  position := ⟨⟨some ⟨11⟩, [⟨6⟩], some ⟨12⟩, false, false⟩, by decide +kernel, rfl, by simp⟩

/-- The object `{ a: "u" }` that `bar` is called with. -/
def relayed : Schema := .objectOf [("a", .string "u")]

/-- `foo` is called in one place, which depends on `bar` alone.  `bar` is called with the object, and
`foo` with an object around it. -/
lemma relay_run {calls : List ResolvedCall} {t : Session}
    (trace : Trace relay.finish.host (Context.start {}) ⟨0⟩ { options := {} } calls t) :
    trace.function = ⟨4⟩ ∧ (∀ site ∈ trace.sites, site.owners = [⟨13⟩]) ∧
      (∃ ownerCall ∈ (trace.progress.resolved.get? ⟨13⟩).getD [],
        Schema.equalAll ownerCall.arguments [relayed] = true) ∧
      calls.length = 1 ∧
      ∀ call ∈ calls, Schema.equalAll call.arguments [.objectOf [("a", relayed)]] = true ∧
        Schema.equalAll call.arguments [relayed] = false := by
  have hcomputed : Run.passes (discover relay.finish.host (Context.start {}) ⟨4⟩ ⟨0⟩)
      { options := {} } (fun found middle =>
        (((found.get? ⟨4⟩).getD {}).sites.all fun site => site.owners == [⟨13⟩]) &&
        Run.passes (resolveFunction relay.finish.host (Context.start {}) found (maxDepth + 1) ⟨4⟩)
          { session := middle } fun calls progress =>
            (((progress.resolved.get? ⟨13⟩).getD []).any fun call =>
              Schema.equalAll call.arguments [relayed]) &&
            calls.any fun calls => calls.length == 1 &&
              calls.all fun call => Schema.equalAll call.arguments [.objectOf [("a", relayed)]] &&
                !Schema.equalAll call.arguments [relayed]) = true := by
    decide +kernel
  have hdeclaration : trace.declaration = ⟨4⟩ := by
    have hsome : relay.finish.host.declarationOfSymbol ⟨0⟩ = some ⟨4⟩ := by decide +kernel
    exact Option.some.inj (trace.declares.symm.trans hsome)
  have hfunction : trace.function = ⟨4⟩ := by
    have hsome : Evaluation.functionOfDeclaration? relay.finish.host.tree ⟨4⟩ = some ⟨4⟩ := by
      decide +kernel
    have h := trace.isFunction
    rw [hdeclaration, hsome] at h
    exact (Option.some.inj h).symm
  have hdiscovered := trace.discovered
  have hresolved := trace.resolved
  rw [hfunction] at hdiscovered hresolved
  rw [Run.passes, hdiscovered] at hcomputed
  dsimp only at hcomputed
  rw [Run.passes, hresolved] at hcomputed
  rw [Trace.sites, hfunction]
  simpa [and_assoc] using hcomputed

/-- The value that is passed on in `relay` is changed: `foo` is called with `{ a: { a: "u" } }`. -/
theorem functionCalls_relay :
    ∃ calls t, functionCalls relay.finish.host (Context.start {}) ⟨0⟩ { options := {} } =
        (.ok calls, t) ∧
      ∃ trace : Trace relay.finish.host (Context.start {}) ⟨0⟩ { options := {} } calls t,
        (∃ declared : Schema, trace.Forwards ⟨13⟩ 0 fun a =>
          (declared.fill a).refold ({} : Options).maxUnionExpansion) ∧
        (∃ ownerCall ∈ (trace.progress.resolved.get? ⟨13⟩).getD [],
          Schema.equalAll ownerCall.arguments [relayed] = true) ∧
        calls.length = 1 ∧
        ∀ call ∈ calls, Schema.equalAll call.arguments [.objectOf [("a", relayed)]] = true ∧
          Schema.equalAll call.arguments [relayed] = false := by
  rcases hrun : functionCalls relay.finish.host (Context.start {}) ⟨0⟩ { options := {} } with
    ⟨stop | calls, t⟩
  · have hok : (functionCalls relay.finish.host (Context.start {}) ⟨0⟩
        { options := {} }).1.toBool = true := by decide +kernel
    rw [hrun] at hok
    cases hok
  · have hcomplete : (functionCalls relay.finish.host (Context.start {}) ⟨0⟩
        { options := {} }).2.degraded = 0 := by decide +kernel
    rw [hrun] at hcomplete
    obtain ⟨trace, hall⟩ := functionCalls_forwards (Session.closed_start {}) (List.forall_mem_nil _)
      hrun hcomplete
    obtain ⟨hfunction, howners, hrelayed, hcalls⟩ := relay_run trace
    obtain ⟨site, hsite, declared, -, -, -, hforwards, -⟩ := hall _ _ _ _ passes_relay
    refine ⟨calls, t, rfl, trace, ⟨declared, ?_⟩, hrelayed, hcalls⟩
    exact (hforwards (howners site hsite) (by rw [hfunction]; decide)).1

end Propagation

end ValueSchema
