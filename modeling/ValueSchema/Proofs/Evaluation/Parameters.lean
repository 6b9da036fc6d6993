/-
# The values of parameters

A parameter takes the argument at its position, and `undefined` if there is none; its initial value
stands in for `undefined`.  Two things follow from where and when that is decided.

The initial value is evaluated where the call stands, and the parameters of the called function have
no values there.  So a parameter whose initial value is the name of an earlier parameter takes what
that name means to the caller, and not the argument of the call: `call_initialName`.

An argument is looked at as a whole.  A union with `undefined` among its members is an argument like
any other one, and the initial value does not come in for that member.  The alternatives are still
those that come from the members one by one exactly if `undefined` is an alternative of the initial
value, and this adds nothing else: `parameterArgument_union`.
-/
import ValueSchema.Proofs.Evaluation.Preservation
import ValueSchema.Proofs.Program.Declaration
import ValueSchema.Proofs.Schema.Defaulting

namespace ValueSchema

namespace Evaluation

/-- The value of a parameter for an argument: the initial value stands in for `undefined`. -/
def valueFor (e : Evaluator) (b : Branch) (initial : Option NodeId) (argument : Schema) :
    Eval Schema :=
  match initial with
  | some value => if argument.isUndefined then e.node b value else return argument
  | none => return argument

section

variable {host : Host} {e : Evaluator} {b : Branch} {f : FunctionForm}
  {arguments others : List Schema} {position i : Nat} {p name : NodeId} {initial : Option NodeId}

/-! ## One parameter -/

/-- A parameter takes the argument at its position, or `undefined`. -/
lemma parameterArgument_eq (hp : host.tree.form? p = some (.parameter name initial false)) :
    parameterArgument host e b p position arguments =
      return some (← valueFor e b initial (arguments[position]?.getD .undefined)) := by
  rw [parameterArgument, hp]
  dsimp only
  rw [if_neg (by simp)]
  rcases arguments[position]? with _ | argument
  · cases initial <;> rfl
  · rcases initial with _ | value
    · rfl
    · by_cases h : argument.isUndefined = true <;> simp [valueFor, h]

/-- Arguments may be filled up with `undefined`, as long as no rest parameter takes that. -/
lemma parameterArgument_congr (hget : arguments[position]?.getD .undefined =
      others[position]?.getD .undefined)
    (hdrop : (∃ name initial, host.tree.form? p = some (.parameter name initial true)) →
      arguments.drop position = others.drop position) :
    parameterArgument host e b p position arguments =
      parameterArgument host e b p position others := by
  rcases hp : host.tree.form? p with _ | form
  · rw [parameterArgument, parameterArgument, hp]
  · cases form with
    | parameter name initial isRest =>
      cases isRest with
      | true => rw [parameterArgument, parameterArgument, hp, hdrop ⟨name, initial, hp⟩]; rfl
      | false => rw [parameterArgument_eq hp, parameterArgument_eq hp, hget]
    | _ => rw [parameterArgument, parameterArgument, hp]

/-! ## All parameters -/

/-- The value of one parameter in a call, in which a computation gives the value at position `i`. -/
def boundParameterWith (host : Host) (e : Evaluator) (b : Branch) (arguments : List Schema)
    (i : Nat) (value : Eval Schema) (parameter : NodeId × Nat) :
    Eval (Option (SymbolId × Schema)) := do
  if parameter.2 = i then
    match host.symbolOfDeclaration parameter.1 with
    | none => return none
    | some symbol => return some (symbol, ← value)
  else boundParameter host e b arguments parameter

/-- The values of all parameters in such a call. -/
def boundParametersWith (host : Host) (e : Evaluator) (b : Branch) (f : FunctionForm)
    (arguments : List Schema) (i : Nat) (value : Eval Schema) : Eval (List (SymbolId × Schema)) :=
  return (← f.parameters.zipIdx.mapM (boundParameterWith host e b arguments i value)).filterMap id

/-- The values of the parameters may be found with other arguments if these make no difference but
at one position. -/
lemma boundParameters_eq_with {value : Eval Schema} (hi : f.parameters[i]? = some p)
    (hvalue : parameterArgument host e b p i arguments = return some (← value))
    (hothers : ∀ k q, k ≠ i → f.parameters[k]? = some q →
      parameterArgument host e b q k arguments = parameterArgument host e b q k others) :
    boundParameters host e b f arguments = boundParametersWith host e b f others i value := by
  have hall : ∀ q ∈ f.parameters.zipIdx, boundParameter host e b arguments q =
      boundParameterWith host e b others i value q := by
    rintro ⟨q, k⟩ hq
    have hk : f.parameters[k]? = some q := List.mk_mem_zipIdx_iff_getElem?.1 hq
    rw [boundParameter, boundParameterWith, boundParameter]
    dsimp only
    by_cases h : k = i
    · subst h
      obtain rfl := Option.some.inj (hk.symm.trans hi)
      rw [if_pos rfl, hvalue]
      rcases host.symbolOfDeclaration q with _ | symbol
      · rfl
      · simp
    · rw [if_neg h, hothers k q h hk]
  rw [boundParameters, boundParametersWith, Run.mapM_congr hall]

lemma symbol_of_boundParameterWith {value : Eval Schema} {q : NodeId × Nat}
    {entry : SymbolId × Schema} {s t : Session}
    (h : boundParameterWith host e b arguments i value q s = (.ok (some entry), t)) :
    host.symbolOfDeclaration q.1 = some entry.1 := by
  rw [boundParameterWith, boundParameter] at h
  rcases hsymbol : host.symbolOfDeclaration q.1 with _ | symbol
  · rw [hsymbol] at h
    split at h <;> cases h
  · rw [hsymbol] at h
    dsimp only at h
    split at h
    · obtain ⟨w, u, -, hpure⟩ := Run.bind_eq_ok.1 h
      cases hpure
      rfl
    · obtain ⟨o, u, -, hpure⟩ := Run.bind_eq_ok.1 h
      rcases o with _ | w
      · cases hpure
      · cases hpure
        rfl

/-- The parameters of a function have different symbols. -/
def DeclaresApart (host : Host) (f : FunctionForm) : Prop :=
  ∀ (k l : Nat) p q symbol, f.parameters[k]? = some p → f.parameters[l]? = some q →
    host.symbolOfDeclaration p = some symbol → host.symbolOfDeclaration q = some symbol → k = l

/-- The body of the function finds the value of a parameter under its symbol. -/
lemma binding_of_boundParametersWith {value : Eval Schema} {own : SymbolId} {s t : Session}
    {k : Nat} {values : List (SymbolId × Schema)} (function : NodeId)
    (hapart : DeclaresApart host f)
    (hk : f.parameters[k]? = some p) (hown : host.symbolOfDeclaration p = some own)
    (h : boundParametersWith host e b f arguments i value s = (.ok values, t)) :
    ∃ result u u', boundParameterWith host e b arguments i value (p, k) u = (.ok result, u') ∧
      ∀ w, result = some (own, w) → (b.withFunction function values).binding? own = some w := by
  obtain ⟨results, u, hresults, hpure⟩ := Run.bind_eq_ok.1 h
  cases hpure
  obtain ⟨-, -, hall⟩ := Run.forall₂_of_mapM (I := fun _ => True) (R := fun _ _ => True)
    (fun _ => trivial) (fun _ _ => trivial) (fun _ _ _ _ _ _ _ => ⟨trivial, trivial⟩) trivial
    hresults
  have hat : f.parameters.zipIdx[k]? = some (p, k) := by simp [hk]
  obtain ⟨result, hresult, v, v', -, -, hrun, -⟩ := Run.exists_result_at hall hat
  refine ⟨result, v, v', hrun, fun w hw => ?_⟩
  subst hw
  refine Table.get?_foldl_put_of_mem ?_ (fun entry hentry hkey => ?_) b.bindings
  · exact List.mem_filterMap.2 ⟨_, List.mem_of_getElem? hresult, rfl⟩
  · -- a value under the same symbol belongs to the same position
    obtain ⟨_, hmem, rfl⟩ := List.mem_filterMap.1 hentry
    obtain ⟨m, hm⟩ := List.mem_iff_getElem?.1 hmem
    obtain ⟨q, hq, x, y, -, -, hother, -⟩ := Run.exists_result_at hall.flip hm
    obtain ⟨parameter, hparameter, rfl⟩ := Option.map_eq_some_iff.1 (List.getElem?_zipIdx ▸ hq)
    have hsymbol := symbol_of_boundParameterWith hother
    obtain rfl : m = k := hapart m k parameter p own hparameter hk (hkey ▸ hsymbol) hown
    rw [hresult] at hm
    cases hm
    rfl

/-- What the computation gives is the value of its parameter. -/
lemma binding_of_computation {value : Eval Schema} {own : SymbolId} {s t : Session}
    {values : List (SymbolId × Schema)} (function : NodeId) (hapart : DeclaresApart host f)
    (hi : f.parameters[i]? = some p) (hown : host.symbolOfDeclaration p = some own)
    (h : boundParametersWith host e b f arguments i value s = (.ok values, t)) :
    ∃ w u u', value u = (.ok w, u') ∧ (b.withFunction function values).binding? own = some w := by
  obtain ⟨result, u, u', hrun, hbinding⟩ := binding_of_boundParametersWith function hapart hi hown h
  rw [boundParameterWith, if_pos rfl, hown] at hrun
  obtain ⟨w, v, hvalue, hpure⟩ := Run.bind_eq_ok.1 hrun
  cases hpure
  exact ⟨w, u, u', hvalue, hbinding w rfl⟩

/-- An argument other than `undefined` is the value of its parameter. -/
lemma binding_of_argument {value : Eval Schema} {symbol : SymbolId} {argument : Schema} {j : Nat}
    {s t : Session} {values : List (SymbolId × Schema)} (function : NodeId)
    (hapart : DeclaresApart host f) (hj : f.parameters[j]? = some p) (hne : j ≠ i)
    (hp : host.tree.form? p = some (.parameter name initial false))
    (hsymbol : host.symbolOfDeclaration p = some symbol)
    (hargument : arguments[j]? = some argument) (hdefined : argument.isUndefined = false)
    (h : boundParametersWith host e b f arguments i value s = (.ok values, t)) :
    (b.withFunction function values).binding? symbol = some argument := by
  obtain ⟨result, u, u', hrun, hbinding⟩ :=
    binding_of_boundParametersWith function hapart hj hsymbol h
  have htaken : valueFor e b initial argument = return argument := by
    cases initial with
    | none => rfl
    | some value => rw [valueFor, hdefined, if_neg (by simp)]
  rw [boundParameterWith, if_neg hne, boundParameter, hsymbol] at hrun
  dsimp only at hrun
  rw [parameterArgument_eq hp, hargument, Option.getD_some, htaken] at hrun
  cases hrun
  exact hbinding argument rfl

/-! ## Arguments at later positions -/

/-- A list of arguments with one more at a later position, and `undefined` in between. -/
def placedAt (i : Nat) (arguments : List Schema) (argument : Schema) : List Schema :=
  arguments ++ List.replicate (i - arguments.length) .undefined ++ [argument]

section

variable {argument : Schema} {k : Nat} (hle : arguments.length ≤ i)

include hle

lemma getD_placedAt : (placedAt i arguments argument)[k]?.getD .undefined =
    if k = i then argument else arguments[k]?.getD .undefined := by
  have hlength :
      (arguments ++ List.replicate (i - arguments.length) Schema.undefined).length = i := by
    simp [hle]
  rw [placedAt]
  rcases lt_trichotomy k i with hlt | rfl | hlt
  · rw [List.getElem?_append_left (by omega), if_neg (by omega)]
    by_cases hk : k < arguments.length
    · rw [List.getElem?_append_left hk]
    · rw [List.getElem?_append_right (by omega), List.getElem?_replicate, if_pos (by omega),
        List.getElem?_eq_none (by omega)]
      rfl
  · rw [List.getElem?_append_right (by omega), if_pos rfl, hlength, Nat.sub_self]
    rfl
  · rw [List.getElem?_eq_none (by simp; omega), if_neg (by omega), List.getElem?_eq_none (by omega)]

lemma drop_placedAt (hk : i < k) :
    (placedAt i arguments argument).drop k = arguments.drop k := by
  rw [List.drop_eq_nil_of_le (by simp [placedAt]; omega), List.drop_eq_nil_of_le (by omega)]

/-- The initial value comes in where there is no argument. -/
lemma boundParameters_of_length_le {value : NodeId} (hi : f.parameters[i]? = some p)
    (hp : host.tree.form? p = some (.parameter name (some value) false)) :
    boundParameters host e b f arguments =
      boundParametersWith host e b f arguments i (e.node b value) := by
  refine boundParameters_eq_with hi ?_ fun _ _ _ _ => rfl
  rw [parameterArgument_eq hp, List.getElem?_eq_none hle]
  rfl

/-- An argument at the position of a parameter is its value, unless it is `undefined`. -/
lemma boundParameters_placedAt {value : NodeId} (hi : f.parameters[i]? = some p)
    (hp : host.tree.form? p = some (.parameter name (some value) false))
    (hrest : ∀ k < i, ∀ q, f.parameters[k]? = some q →
      ∀ name initial, host.tree.form? q ≠ some (.parameter name initial true)) :
    boundParameters host e b f (placedAt i arguments argument) =
      boundParametersWith host e b f arguments i
        (if argument.isUndefined then e.node b value else return argument) := by
  refine boundParameters_eq_with hi ?_ fun k q hk hq => parameterArgument_congr ?_ ?_
  · rw [parameterArgument_eq hp, getD_placedAt hle, if_pos rfl]
    rfl
  · rw [getD_placedAt hle, if_neg hk]
  · rintro ⟨name, initial, hform⟩
    have hlt : i < k := by
      by_contra hge
      exact hrest k (by omega) q hq name initial hform
    exact drop_placedAt hle hlt

end

/-! ## Calls -/

/-- What a function returns for the values of its parameters. -/
def returnsFor (host : Host) (e : Evaluator) (b : Branch) (function : NodeId) (f : FunctionForm)
    (values : Eval (List (SymbolId × Schema))) : Eval (Option Schema) := do
  returnType host (e.called (b.withFunction function (← values))) f

lemma call_of_arguments {callee function : NodeId} {nodes : List NodeId} {s t : Session}
    (hcallee : callee? host callee = some function)
    (hfunction : host.tree.function? function = some f) (hgenerator : f.isGenerator = false)
    (hopen : b.isHandlingFunction function = false)
    (harguments : positionalArguments host e b nodes s = (.ok (some arguments), t)) :
    call host e b callee nodes s =
      returnsFor host e b function f (boundParameters host e b f arguments) t := by
  rw [call, hcallee]
  dsimp only
  rw [hfunction]
  dsimp only
  rw [hgenerator, hopen, if_neg (by simp)]
  exact Run.bind_of_ok harguments

/-- The name of a parameter is the value of the parameter where the name stands. -/
lemma node_name {n q : NodeId} {text : String} {symbol : SymbolId} {name : NodeId}
    {initial : Option NodeId} {isRest : Bool} (hn : host.tree.form? n = some (.identifier text))
    (hresolve : host.resolve n = some ⟨symbol, q⟩)
    (hq : host.tree.form? q = some (.parameter name initial isRest)) :
    node host e b n =
      Eval.within host.tree n (parameter host e (b.withTrace n) q (some symbol)) := by
  have hparameter : identifier host e (b.withTrace n) n text =
      return some (← parameter host e (b.withTrace n) q (some symbol)) := by
    rw [identifier, hresolve, parameter]
    dsimp only
    rw [Option.some_or, Option.bind_some]
    rcases hbinding : (b.withTrace n).binding? symbol with _ | value
    · rw [declaration, hq, parameter, Option.some_or, Option.bind_some, hbinding]
    · rfl
  rw [node, hn]
  dsimp only
  rw [form, hparameter]
  simp

/-- What the name of a parameter means where a call stands. -/
def meaningOfName (host : Host) (depth : Nat) (b : Branch) (n parameter : NodeId)
    (symbol : SymbolId) : Eval Schema :=
  Eval.within host.tree n
    (Evaluation.parameter host (evaluator host depth) (b.withTrace n) parameter (some symbol))

/-- Where there is no argument for a parameter whose initial value is the name of an earlier
parameter, a call returns what the function returns for the value that this name has outside of the
call.  With the argument of the earlier parameter passed once more in its place, and `undefined` in
between, it returns what the function returns for this argument.  The two are the same if the
argument is `undefined`, or if it is the value of the earlier parameter outside of the call too.
Else the body finds the argument under the one symbol, and under the other what the name means to
the caller. -/
theorem call_initialName {depth j : Nat} {callee callee' function value q qname : NodeId}
    {nodes nodes' : List NodeId} {text : String} {symbol : SymbolId} {qinitial : Option NodeId}
    {argument : Schema} {s s' t t' : Session}
    (hcallee : callee? host callee = some function)
    (hcallee' : callee? host callee' = some function)
    (hfunction : host.tree.function? function = some f) (hgenerator : f.isGenerator = false)
    (hopen : b.isHandlingFunction function = false)
    (hrest : ∀ k < i, ∀ r, f.parameters[k]? = some r →
      ∀ name initial, host.tree.form? r ≠ some (.parameter name initial true))
    (hi : f.parameters[i]? = some p)
    (hp : host.tree.form? p = some (.parameter name (some value) false))
    (hvalue : host.tree.form? value = some (.identifier text))
    (hresolve : host.resolve value = some ⟨symbol, q⟩) (hj : f.parameters[j]? = some q)
    (hq : host.tree.form? q = some (.parameter qname qinitial false))
    (hargument : arguments[j]? = some argument) (hle : arguments.length ≤ i)
    (hrun : positionalArguments host (evaluator host (depth + 1)) b nodes s =
      (.ok (some arguments), t))
    (hrun' : positionalArguments host (evaluator host (depth + 1)) b nodes' s' =
      (.ok (some (placedAt i arguments argument)), t')) :
    let e := evaluator host (depth + 1)
    let outside := meaningOfName host depth b value q symbol
    let passed : Eval Schema := if argument.isUndefined then outside else return argument
    call host e b callee nodes s =
      returnsFor host e b function f (boundParametersWith host e b f arguments i outside) t ∧
    call host e b callee' nodes' s' =
      returnsFor host e b function f (boundParametersWith host e b f arguments i passed) t' ∧
    (argument.isUndefined = true ∨ b.binding? symbol = some argument → outside = passed) ∧
    (DeclaresApart host f → host.symbolOfDeclaration q = some symbol →
      argument.isUndefined = false → ∀ own, host.symbolOfDeclaration p = some own →
      ∀ found u values u', boundParametersWith host e b f arguments i found u = (.ok values, u') →
        (b.withFunction function values).binding? symbol = some argument ∧
        ∃ w v v', found v = (.ok w, v') ∧
          (b.withFunction function values).binding? own = some w) := by
  intro e outside passed
  have hnode : e.node b value = outside := by
    show schemaOfNode host (depth + 1) b value = _
    rw [schemaOfNode_succ, node_name hvalue hresolve hq]
    rfl
  have hne : j ≠ i := by
    have hlt : j < arguments.length := (List.getElem?_eq_some_iff.1 hargument).1
    omega
  refine ⟨?_, ?_, ?_, fun hapart hsymbol hdefined own hown found u values u' h =>
    ⟨binding_of_argument function hapart hj hne hq hsymbol hargument hdefined h,
      binding_of_computation function hapart hi hown h⟩⟩
  · rw [call_of_arguments hcallee hfunction hgenerator hopen hrun,
      boundParameters_of_length_le hle hi hp, hnode]
  · rw [call_of_arguments hcallee' hfunction hgenerator hopen hrun',
      boundParameters_placedAt hle hi hp hrest, hnode]
  · rintro (hundefined | hbinding)
    · exact (if_pos hundefined).symm
    · have houtside : outside = return argument := by
        have hknown : (b.withTrace value).binding? symbol = some argument := hbinding
        show Eval.within host.tree value _ = _
        rw [parameter, Option.some_or, Option.bind_some, hknown]
        rfl
      show outside = if argument.isUndefined then outside else return argument
      rw [houtside, ite_self]

/-- The function of `echo`. -/
def echoForm : FunctionForm := ⟨some ⟨7⟩, [⟨1⟩, ⟨4⟩], some ⟨8⟩, false, false⟩

/-- `function echo(a, b = a) { return b }`, and the calls `echo("u")` and `echo("u", "u")`. -/
def echo : Draft :=
  let forms : List Form :=
    [.identifier "a", .parameter ⟨0⟩ none false, .identifier "a", .identifier "b",
      .parameter ⟨3⟩ (some ⟨2⟩) false, .identifier "b", .returnStatement (some ⟨5⟩),
      .identifier "echo", .block [⟨6⟩], .functionDeclaration echoForm,
      .stringLiteral "u", .identifier "echo", .call ⟨11⟩ [⟨10⟩], .expressionStatement ⟨12⟩,
      .stringLiteral "u", .stringLiteral "u", .identifier "echo", .call ⟨16⟩ [⟨14⟩, ⟨15⟩],
      .expressionStatement ⟨17⟩, .sourceFile "main.ts" [⟨9⟩, ⟨13⟩, ⟨18⟩]]
  forms.foldl (fun d form => (d.add form).2) {}

lemma echo_form {n : NodeId} {form : Form} (h : echo.tree.form? n = some form) :
    echo.finish.host.tree.form? n = some form := by
  show echo.finish.draft.tree.form? n = _
  rw [Draft.tree_finish, h]

lemma declaresApart_echo : DeclaresApart echo.finish.host echoForm := by
  have ha : echo.finish.host.symbolOfDeclaration ⟨1⟩ = some ⟨1⟩ := by decide +kernel
  have hb : echo.finish.host.symbolOfDeclaration ⟨4⟩ = some ⟨2⟩ := by decide +kernel
  intro k l p q symbol hk hl hp hq
  rcases k with _ | _ | k <;> rcases l with _ | _ | l <;> simp_all [echoForm]

set_option maxRecDepth 4000 in
/-- The first call returns what stands for the parameter `a`, the second one the text.  In the body
of the first call the text is the value of `a` all the same. -/
theorem call_initialName_echo :
    let host := echo.finish.host
    let e := evaluator host 8
    let bound := boundParametersWith host e {} echoForm [.string "u"] 1
    let outside := meaningOfName host 7 {} ⟨2⟩ ⟨1⟩ ⟨1⟩
    call host e {} ⟨11⟩ [⟨10⟩] {} = returnsFor host e {} ⟨9⟩ echoForm (bound outside) {} ∧
    call host e {} ⟨16⟩ [⟨14⟩, ⟨15⟩] {} =
      returnsFor host e {} ⟨9⟩ echoForm (bound (return .string "u")) {} ∧
    Run.passes (call host e {} ⟨11⟩ [⟨10⟩]) {} (fun r _ =>
      r.any fun s => s.isPrimitive .any && s.origin? == some ⟨1⟩) = true ∧
    Run.passes (call host e {} ⟨16⟩ [⟨14⟩, ⟨15⟩]) {} (fun r _ =>
      r.any (Schema.equal · (.string "u"))) = true ∧
    ∀ s values t, bound outside s = (.ok values, t) →
      (({} : Branch).withFunction ⟨9⟩ values).binding? ⟨1⟩ = some (.string "u") := by
  intro host e bound outside
  have hrun : positionalArguments host e {} [⟨10⟩] {} = (.ok (some [.string "u"]), {}) := by rfl
  have hrun' : positionalArguments host e {} [⟨14⟩, ⟨15⟩] {} =
      (.ok (some (placedAt 1 [.string "u"] (.string "u"))), {}) := by rfl
  have hargument : [Schema.string "u"][0]? = some (.string "u") := rfl
  have hrest : ∀ k < 1, ∀ r, echoForm.parameters[k]? = some r →
      ∀ name initial, host.tree.form? r ≠ some (.parameter name initial true) := by
    intro k hk r hr name initial
    obtain rfl : k = 0 := by omega
    obtain rfl : ⟨1⟩ = r := by simpa [echoForm] using hr
    have hform : host.tree.form? ⟨1⟩ = some (.parameter ⟨0⟩ none false) := echo_form rfl
    rw [hform]
    simp
  have hcallee : callee? host ⟨11⟩ = some ⟨9⟩ := by decide +kernel
  have hcallee' : callee? host ⟨16⟩ = some ⟨9⟩ := by decide +kernel
  have hfunction : host.tree.function? ⟨9⟩ = some echoForm := by decide +kernel
  have hresolve : host.resolve ⟨2⟩ = some ⟨⟨1⟩, ⟨1⟩⟩ := by decide +kernel
  have hsymbol : host.symbolOfDeclaration ⟨1⟩ = some ⟨1⟩ := by decide +kernel
  have hown : host.symbolOfDeclaration ⟨4⟩ = some ⟨2⟩ := by decide +kernel
  obtain ⟨hfirst, hsecond, -, hbody⟩ := call_initialName (j := 0) hcallee hcallee' hfunction rfl rfl
    hrest rfl (echo_form rfl) (echo_form rfl) hresolve rfl (echo_form rfl) hargument (by decide)
    hrun hrun'
  refine ⟨hfirst, hsecond, by decide +kernel, by decide +kernel, fun s values t h => ?_⟩
  exact (hbody declaresApart_echo hsymbol rfl _ hown outside s values t h).1

/-! ## Arguments with alternatives -/

/-- An argument that is a union is taken as it is.  Its members would be taken one by one, with the
initial value in the place of `undefined`. -/
theorem parameterArgument_union {v : Vocabulary} {value : NodeId} {members : List Schema}
    {initial : Schema} {s t : Session}
    (hp : host.tree.form? p = some (.parameter name (some value) false))
    (hargument : arguments[position]? = some (.union members))
    (hform : Schema.InUnionForm (.union members)) (hwithin : ∀ m ∈ members, m.Within v)
    (hvalue : e.node b value s = (.ok initial, t)) (hinitial : initial.Within v)
    (hflat : ∀ m ∈ initial.alternatives, m.isUnion = false) :
    parameterArgument host e b p position arguments s = (.ok (some (.union members)), s) ∧
    (∀ m ∈ members, ∃ u, parameterArgument host e b p position (arguments.set position m) s =
      (.ok (some (Schema.orInitial initial m)), u)) ∧
    (Schema.Agree v members (Schema.unionOf (members.map (Schema.orInitial initial))).alternatives ↔
      (.undefined ∈ members → .undefined ∈ initial.alternatives ∧
        Schema.Agree v members (Schema.unionOf [.union members, initial]).alternatives)) := by
  refine ⟨?_, fun m _ => ?_, Schema.agree_orInitial_iff hform.irredundant hwithin hinitial hflat⟩
  · rw [parameterArgument_eq hp, hargument]
    rfl
  · have hlt : position < arguments.length := (List.getElem?_eq_some_iff.1 hargument).1
    have hat : (arguments.set position m)[position]? = some m := by simp [hlt]
    rw [parameterArgument_eq hp, hat, Option.getD_some, valueFor, Schema.orInitial]
    split
    · exact ⟨t, Run.bind_of_ok hvalue⟩
    · exact ⟨s, rfl⟩

/-- `function pick(x = "none") { return x }`, and in `function main(flag: boolean)` the call
`pick(flag ? "a" : undefined)`. -/
def pick : Draft :=
  let forms : List Form :=
    [.stringLiteral "none", .identifier "x", .parameter ⟨1⟩ (some ⟨0⟩) false, .identifier "x",
      .returnStatement (some ⟨3⟩), .identifier "pick", .block [⟨4⟩],
      .functionDeclaration ⟨some ⟨5⟩, [⟨2⟩], some ⟨6⟩, false, false⟩,
      .identifier "flag", .parameter ⟨8⟩ none false, .identifier "flag", .stringLiteral "a",
      .identifier "undefined", .conditional ⟨10⟩ ⟨11⟩ ⟨12⟩, .identifier "pick",
      .call ⟨14⟩ [⟨13⟩], .returnStatement (some ⟨15⟩), .identifier "main", .block [⟨16⟩],
      .functionDeclaration ⟨some ⟨17⟩, [⟨9⟩], some ⟨18⟩, false, false⟩,
      .sourceFile "main.ts" [⟨7⟩, ⟨19⟩]]
  let d := forms.foldl (fun d form => (d.add form).2) ({} : Draft)
  { d with nodeTypes := d.nodeTypes.put ⟨9⟩ Intrinsic.boolean.id }

set_option maxRecDepth 4000 in
/-- The call returns its argument with `undefined` in it, and not `"a" | "none"`. -/
theorem parameterArgument_pick :
    let e := evaluator pick.finish.host 8
    let argument : Schema := .union [.string "a", .undefined]
    parameterArgument pick.finish.host e {} ⟨2⟩ 0 [argument] {} = (.ok (some argument), {}) ∧
    ¬ Schema.Agree (.ofReferences fun _ _ => True) argument.alternatives
      (Schema.unionOf [.string "a", .string "none"]).alternatives ∧
    Run.passes (e.node {} ⟨13⟩) {} (fun r _ => r.equal argument) = true ∧
    Run.passes (e.node {} ⟨15⟩) {} (fun r _ => r.equal argument) = true := by
  intro e argument
  have hp : pick.finish.host.tree.form? ⟨2⟩ = some (.parameter ⟨1⟩ (some ⟨0⟩) false) := by
    show pick.finish.draft.tree.form? ⟨2⟩ = _
    rw [Draft.tree_finish]
    rfl
  have hvalue : e.node {} ⟨0⟩ {} = (.ok (.string "none"), {}) := by rfl
  have hform : Schema.InUnionForm (Schema.unionOf [.string "a", .undefined]) :=
    Schema.inUnionForm_unionOf
      (by simp [Schema.string, Schema.undefined, Schema.alternatives, Schema.isUnion])
  have hat : [argument][0]? = some argument := rfl
  obtain ⟨hwhole, -, hagree⟩ := parameterArgument_union (v := .ofReferences fun _ _ => True) hp hat
    hform (by simp) hvalue (by simp)
    (by simp [Schema.string, Schema.alternatives, Schema.isUnion])
  refine ⟨hwhole, fun h => ?_, by decide +kernel, by decide +kernel⟩
  have hinside := (hagree.1 h (by simp)).1
  cases List.mem_singleton.1 hinside

end

end Evaluation

end ValueSchema
