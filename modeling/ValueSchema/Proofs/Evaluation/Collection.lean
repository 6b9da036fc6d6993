/-
# Contracts of references, objects and lists

The parts of an evaluation that follow references, put objects and lists together, and read from
them.  Each keeps every contract that the evaluator of the levels below keeps.  What is spread or
read is allowed in the session, so what comes out is, and so is a definition that has been
converted on the way.
-/
import ValueSchema.Proofs.Evaluation.Contract

namespace ValueSchema

/-! ## Shapes -/

namespace ObjectShape

variable {v : Vocabulary} {o : ObjectShape}

lemma within_empty : ({} : ObjectShape).build.Within v := by
  simp [build, Entries.names]

lemma within_set (h : o.build.Within v) (name : String) {value : Schema} (hvalue : value.Within v) :
    (o.set name value).build.Within v := by
  obtain ⟨hnames, hnamed, hopen⟩ := Schema.within_object.1 h
  refine Schema.within_object.2 ⟨Entries.nodup_names_insert hnames _ _, fun e he => ?_, hopen⟩
  rcases Entries.mem_of_mem_insert he with hin | rfl
  · exact hnamed e hin
  · exact hvalue

lemma within_setOpen (h : o.build.Within v) {key value : Schema} (hkey : key.Within v)
    (hvalue : value.Within v) : (o.setOpen key value).build.Within v := by
  obtain ⟨hnames, hnamed, hopen⟩ := Schema.within_object.1 h
  refine Schema.within_object.2 ⟨hnames, hnamed, fun e he => ?_⟩
  rcases List.mem_append.1 he with hin | hnew
  · exact hopen e hin
  · obtain rfl := List.mem_singleton.1 hnew
    exact ⟨hkey, hvalue⟩

lemma within_unsupportedSpread (h : o.build.Within v) : o.unsupportedSpread.build.Within v :=
  within_setOpen h (Schema.within_plain _) (Schema.within_failure _)

lemma within_setElement (h : o.build.Within v) {item : Schema} (hitem : item.Within v)
    (flag : ElementFlag) (position : Nat) : (o.setElement item flag position).build.Within v := by
  cases flag with
  | rest => exact within_setOpen h (Schema.within_plain _) hitem
  | optional => exact within_set h _ (Schema.within_unionOf (by simp [hitem]))
  | required => exact within_set h _ hitem

/-- Steps that keep to a vocabulary, one after the other. -/
lemma within_foldl {α : Type} {items : List α} {f : ObjectShape → α → ObjectShape}
    (h : o.build.Within v)
    (hf : ∀ o, o.build.Within v → ∀ a ∈ items, (f o a).build.Within v) :
    (items.foldl f o).build.Within v := by
  induction items generalizing o with
  | nil => exact h
  | cons a rest ih =>
    exact ih (hf o h a (List.mem_cons_self ..)) fun o ho d hd =>
      hf o ho d (List.mem_cons_of_mem _ hd)

lemma within_spread (h : o.build.Within v) {source : Schema} (hsource : source.Within v) :
    (o.spread source).build.Within v := by
  cases source with
  | object properties indexKeys =>
    obtain ⟨-, hnamed, hopen⟩ := Schema.within_object.1 hsource
    have hset : (properties.foldl (fun o e => o.set e.1 e.2) o).build.Within v :=
      within_foldl h fun o ho e he => within_set ho _ (hnamed e he)
    obtain ⟨hnames, hnamed', hopen'⟩ := Schema.within_object.1 hset
    refine Schema.within_object.2 ⟨hnames, hnamed', fun e he => ?_⟩
    rcases List.mem_append.1 he with hin | hnew
    · exact hopen' e hin
    · exact hopen e hnew
  | tuple items flags =>
    refine within_foldl h fun o ho e he => within_setElement ho ?_ _ _
    have hmem : e.1 ∈ items.zip flags := List.fst_mem_of_mem_zipIdx he
    exact Schema.within_tuple.1 hsource _ (List.of_mem_zip hmem).1
  | array item =>
    exact within_setOpen h (Schema.within_plain _) (Schema.within_array.1 hsource)
  | primitive kind =>
    cases kind with
    | any => exact within_setOpen h Schema.within_any Schema.within_any
    | unknown | object => exact within_unsupportedSpread h
    | _ => exact h
  | literal | template | binary | keys | function => exact h
  | access | error | reference | union | intersection => exact within_unsupportedSpread h

end ObjectShape

namespace Contract

variable {host : Host}

/-- A schema may be used in a session. -/
abbrev Allows (c : Contract host) (s : Session) (r : Schema) : Prop := r.Within (c.vocabulary s)

/-- The values of parameters in a branch may be used in a session. -/
def Admits (c : Contract host) (s : Session) (b : Branch) : Prop :=
  ∀ e ∈ b.bindings, c.Allows s e.2

/-- The schema of a type may be used in a session. -/
def AllowsType (c : Contract host) (s : Session) (r : Schema) : Prop := c.Allows s r ∧ r.Typelike

/-- An evaluator keeps a contract: from a branch that may be used to a schema that may be used. -/
structure Keeps (c : Contract host) (e : Evaluator) : Prop where
  node : ∀ s b n, c.Admits s b → c.Meets c.Err s (e.node b n) c.Allows
  type : ∀ s b id node, c.Admits s b → c.Meets c.Err s (e.type b id node) c.AllowsType
  called : ∀ s b n, c.Admits s b → c.Meets c.Err s (e.called b n) c.Allows

variable {c : Contract host} {e : Evaluator} {b : Branch} {s t : Session}

/-- What may be used once may be used from then on. -/
lemma Allows.ext {r : Schema} (h : c.Allows s r) (hst : c.Ext s t) : c.Allows t r :=
  h.mono (fun _ _ hname => c.known_ext hst hname) (fun _ _ => trivial) fun _ _ => trivial

lemma Admits.ext (h : c.Admits s b) (hst : c.Ext s t) : c.Admits t b :=
  fun e he => Allows.ext (h e he) hst

lemma Admits.withTrace (h : c.Admits s b) (n : NodeId) : c.Admits s (b.withTrace n) := h

lemma Admits.withType (h : c.Admits s b) (type : TypeId) : c.Admits s (b.withType type) := h

lemma admits_detached (b : Branch) : c.Admits s b.detached := by simp [Admits, Branch.detached]

lemma AllowsType.ext {r : Schema} (h : c.AllowsType s r) (hst : c.Ext s t) : c.AllowsType t r :=
  ⟨h.1.ext hst, h.2⟩

/-- A type is a schema. -/
lemma Keeps.typeAllows (h : c.Keeps e) (hb : c.Admits s b) (id : TypeId) (node : Option NodeId) :
    c.Meets c.Err s (e.type b id node) c.Allows :=
  (h.type s b id node hb).mono fun _ _ _ hr => hr.1

/-! ## References -/

/-- The body of a definition may be used, also if it is converted only now. -/
lemma meets_materialize {convert : TypeId → Eval Schema}
    (hconvert : ∀ t body, c.Meets c.Err t (convert body) c.Allows) (id : String) :
    c.Meets c.Err s (Evaluation.materialize convert id) fun t o => ∀ r ∈ o, c.Allows t r := by
  refine .get_bind fun hs => ?_
  split
  · rename_i schema hready
    exact .pure fun _ r hr => by
      obtain rfl : schema = r := by simpa using hr
      exact c.ready hs hready
  · split
    · exact .pure fun _ => by simp
    · rename_i body definitions hbegin
      -- the session between claiming and completing is no session that may follow the first one,
      -- so the two steps are looked at together
      constructor
      · intro _ o u hrun
        rw [Run.set_bind] at hrun
        obtain ⟨schema, t, hschema, hrun⟩ := Run.bind_eq_ok.1 hrun
        obtain ⟨ht, hext, hallowed⟩ := (hconvert _ body).ok (c.claim hs hbegin) schema t hschema
        obtain ⟨hdone, hlater, hend⟩ := c.complete hs hbegin ht hext hallowed
        cases hrun
        refine ⟨hdone, hlater, fun r hr => ?_⟩
        obtain rfl : schema = r := by simpa using hr
        exact hallowed.ext hend
      · intro _ stop u hrun
        rw [Run.set_bind] at hrun
        rcases Run.bind_eq_error hrun with hstop | ⟨schema, t, -, hmodify⟩
        · exact (hconvert _ body).error (c.claim hs hbegin) stop u hstop
        · cases hmodify

/-- What a reference stands for may be used. -/
lemma meets_resolve (h : c.Keeps e) {r : Schema} (hr : c.Allows s r) :
    c.Meets c.Err s (Evaluation.resolve e b r) c.Allows := by
  rw [Evaluation.resolve, Evaluation.resolveReference.eq_def]
  split
  · rename_i name arguments id
    refine .get_bind fun hs => ?_
    split
    · refine (meets_materialize (fun t body => ?_) id).map fun t o hst ho => ?_
      · exact h.typeAllows (admits_detached b) body none
      · cases o with
        | none => exact hr.ext hst
        | some body => exact ho body rfl
    · rename_i hmissing
      split
      · exact .pure fun _ => Schema.within_unknown
      · rename_i hwell
        refine .throw fun _ => c.err_undefined hs (Schema.within_reference.1 hr).1 ?_ ?_
        · simpa using hmissing
        · simpa using hwell
  · exact .pure fun _ => hr

/-! ## Spreading into objects -/

/-- Shapes of an object that may be used in a session. -/
def AllowsShapes (c : Contract host) (s : Session) (shapes : List ObjectShape) : Prop :=
  ∀ o ∈ shapes, c.Allows s o.build

lemma AllowsShapes.ext {shapes : List ObjectShape} (h : c.AllowsShapes s shapes)
    (hst : c.Ext s t) : c.AllowsShapes t shapes := fun o ho => Allows.ext (h o ho) hst

lemma allowsShapes_start : c.AllowsShapes s [{}] := by
  intro o ho
  obtain rfl := List.mem_singleton.1 ho
  exact ObjectShape.within_empty

lemma AllowsShapes.map {shapes : List ObjectShape} {f : ObjectShape → ObjectShape}
    (h : c.AllowsShapes s shapes) (hf : ∀ o, c.Allows s o.build → c.Allows s (f o).build) :
    c.AllowsShapes s (shapes.map f) := by
  intro o ho
  obtain ⟨o', ho', rfl⟩ := List.mem_map.1 ho
  exact hf o' (h o' ho')

lemma AllowsShapes.unsupported {shapes : List ObjectShape} (h : c.AllowsShapes s shapes) :
    c.AllowsShapes s (shapes.map ObjectShape.unsupportedSpread) :=
  h.map fun _ ho => ObjectShape.within_unsupportedSpread ho

/-- Something that spreads a schema into shapes keeps a contract, from a session on. -/
def Spreads (c : Contract host) (s : Session)
    (spread : Schema → List ObjectShape → Eval (List ObjectShape)) (r : Schema) : Prop :=
  ∀ t shapes, c.Ext s t → c.Allows t r → c.AllowsShapes t shapes →
    c.Meets c.Err t (spread r shapes) c.AllowsShapes

variable {atReference : Schema → List ObjectShape → Eval (List ObjectShape)}

lemma meets_spreadEach {items : List Schema}
    (hitems : ∀ r ∈ items, c.Spreads s (Evaluation.spreadWith atReference) r)
    {shapes : List ObjectShape} (hst : c.Ext s t) (hallowed : ∀ r ∈ items, c.Allows t r)
    (hshapes : c.AllowsShapes t shapes) :
    c.Meets c.Err t (Evaluation.spreadEach atReference items shapes) c.AllowsShapes := by
  induction items generalizing t with
  | nil =>
    rw [Evaluation.spreadEach]
    exact .pure fun _ => by simp [AllowsShapes]
  | cons r rest ih =>
    rw [Evaluation.spreadEach]
    refine (hitems r (List.mem_cons_self ..) t shapes hst
      (hallowed r (List.mem_cons_self ..)) hshapes).bind fun u first _ htu hfirst => ?_
    have hrest := ih (fun r' hr' => hitems r' (List.mem_cons_of_mem _ hr')) (c.ext_trans hst htu)
      (fun r' hr' => Allows.ext (hallowed r' (List.mem_cons_of_mem _ hr')) htu) (hshapes.ext htu)
    refine hrest.map fun w others huw hothers o ho => ?_
    rcases List.mem_append.1 ho with hin | hin
    · exact hfirst.ext huw o hin
    · exact hothers o hin

lemma meets_spreadInTurn {items : List Schema}
    (hitems : ∀ r ∈ items, c.Spreads s (Evaluation.spreadWith atReference) r)
    {shapes : List ObjectShape} (hst : c.Ext s t) (hallowed : ∀ r ∈ items, c.Allows t r)
    (hshapes : c.AllowsShapes t shapes) :
    c.Meets c.Err t (Evaluation.spreadInTurn atReference items shapes) c.AllowsShapes := by
  induction items generalizing t shapes with
  | nil =>
    rw [Evaluation.spreadInTurn]
    exact .pure fun _ => hshapes
  | cons r rest ih =>
    rw [Evaluation.spreadInTurn]
    refine (hitems r (List.mem_cons_self ..) t shapes hst
      (hallowed r (List.mem_cons_self ..)) hshapes).bind fun u next _ htu hnext => ?_
    exact ih (fun r' hr' => hitems r' (List.mem_cons_of_mem _ hr')) (c.ext_trans hst htu)
      (fun r' hr' => Allows.ext (hallowed r' (List.mem_cons_of_mem _ hr')) htu) hnext

/-- Spreading a schema keeps a contract if following the references in it does. -/
lemma spreads_spreadWith (hat : ∀ r, c.Spreads s atReference r) (source : Schema) :
    c.Spreads s (Evaluation.spreadWith atReference) source := by
  induction source using Schema.induction with
  | step source ih =>
    intro t shapes hst hsource hshapes
    cases source with
    | union items =>
      rw [Evaluation.spreadWith]
      split
      · exact .pure fun _ => hshapes.unsupported
      · exact meets_spreadEach ih hst (Schema.within_union.1 hsource) hshapes
    | intersection items =>
      rw [Evaluation.spreadWith]
      exact meets_spreadInTurn ih hst (Schema.within_intersection.1 hsource) hshapes
    | reference name arguments id =>
      rw [Evaluation.spreadWith]
      exact hat _ t shapes hst hsource hshapes
    | _ => exact .pure fun _ => hshapes.map fun _ ho => ObjectShape.within_spread ho hsource

lemma meets_spreadWithin {resolve : Schema → Eval Schema}
    (hresolve : ∀ t r, c.Allows t r → c.Meets c.Err t (resolve r) c.Allows) (fuel : Nat)
    {source : Schema} {shapes : List ObjectShape} (hsource : c.Allows s source)
    (hshapes : c.AllowsShapes s shapes) :
    c.Meets c.Err s (Evaluation.spreadWithin resolve fuel source shapes) c.AllowsShapes := by
  induction fuel generalizing s source shapes with
  | zero => exact .throw fun _ => c.err_diverged
  | succ fuel ih =>
    rw [Evaluation.spreadWithin]
    -- the fuel is for the references only; inside a schema the recursion is on its structure
    refine spreads_spreadWith (fun r t shapes _ hr hshapes => ?_) source s shapes (c.ext_refl s)
      hsource hshapes
    refine (hresolve t r hr).bind fun u resolved _ htu hresolved => ?_
    split
    · exact .pure fun _ => (hshapes.ext htu).unsupported
    · exact ih hresolved (hshapes.ext htu)

lemma meets_spreadInto (h : c.Keeps e) {source : Schema} {shapes : List ObjectShape}
    (hsource : c.Allows s source) (hshapes : c.AllowsShapes s shapes) :
    c.Meets c.Err s (Evaluation.spreadInto host e b source shapes) c.AllowsShapes := by
  refine .get_bind fun _ => ?_
  exact meets_spreadWithin (fun t r hr => meets_resolve h hr) _ hsource hshapes

/-! ## Reading properties -/

/-- A result that may be missing may be used in a session. -/
abbrev AllowsSome (c : Contract host) (s : Session) (o : Option Schema) : Prop :=
  ∀ r ∈ o, c.Allows s r

lemma AllowsSome.ext {o : Option Schema} (h : c.AllowsSome s o) (hst : c.Ext s t) :
    c.AllowsSome t o := fun r hr => Allows.ext (h r hr) hst

lemma allowsSome_none : c.AllowsSome s none := fun _ hr => by simp at hr

lemma allowsSome_some {r : Schema} (h : c.Allows s r) : c.AllowsSome s (some r) := by
  intro r' hr'
  obtain rfl := Option.some.inj hr'
  exact h

/-- Results that may be missing may be used in a session. -/
abbrev AllowsList (c : Contract host) (s : Session) (o : Option (List Schema)) : Prop :=
  ∀ items ∈ o, ∀ r ∈ items, c.Allows s r

lemma allowsList_none : c.AllowsList s none := fun _ h => by simp at h

lemma allowsList_some {items : List Schema} (h : ∀ r ∈ items, c.Allows s r) :
    c.AllowsList s (some items) := by
  intro items' hitems
  obtain rfl := Option.some.inj hitems
  exact h

lemma allowsList_cons {r : Schema} {o : Option (List Schema)} (hr : c.Allows s r)
    (ho : c.AllowsList s o) : c.AllowsList s (o.map (r :: ·)) := by
  intro items hitems
  obtain ⟨rest, hrest, rfl⟩ := Option.map_eq_some_iff.1 hitems
  exact List.forall_mem_cons.2 ⟨hr, ho rest hrest⟩

lemma allowsSome_unionOf {o : Option (List Schema)} (ho : c.AllowsList s o) :
    c.AllowsSome s (o.map Schema.unionOf) := by
  intro r hr
  obtain ⟨items, hitems, rfl⟩ := Option.map_eq_some_iff.1 hr
  exact Schema.within_unionOf (ho items hitems)

lemma allowsSome_readObject {properties : Entries Schema} {indexKeys : List (Schema × Schema)}
    (h : c.Allows s (.object properties indexKeys)) (name : String) :
    c.AllowsSome s (Evaluation.readObject properties indexKeys name) := by
  obtain ⟨-, hnamed, hopen⟩ := Schema.within_object.1 h
  intro r hr
  rw [Evaluation.readObject] at hr
  split at hr
  · rename_i value hget
    obtain rfl : value = r := by simpa using hr
    exact hnamed _ (Entries.mem_of_get? hget)
  · split at hr
    · simp at hr
    · obtain rfl := Option.some.inj hr
      refine Schema.within_unionOf fun t ht => ?_
      obtain ⟨e, he, rfl⟩ := List.mem_map.1 ht
      exact (hopen e (List.mem_of_mem_filter he)).2

lemma allowsSome_readTuple {items : List Schema} {flags : List ElementFlag}
    (h : c.Allows s (.tuple items flags)) (name : String) :
    c.AllowsSome s (Evaluation.readTuple items flags name) := by
  intro r hr
  rw [Evaluation.readTuple] at hr
  split at hr
  · split at hr
    · obtain rfl := Option.some.inj hr
      exact Schema.within_number _
    · simp at hr
  · obtain ⟨i, -, hr⟩ := Option.bind_eq_some_iff.1 hr
    obtain ⟨item, hitem, hr⟩ := Option.bind_eq_some_iff.1 hr
    obtain ⟨flag, -, hr⟩ := Option.bind_eq_some_iff.1 hr
    have hallowed := Schema.within_tuple.1 h item (List.mem_of_getElem? hitem)
    cases flag with
    | required =>
      obtain rfl := Option.some.inj hr
      exact hallowed
    | optional =>
      obtain rfl := Option.some.inj hr
      exact Schema.within_unionOf (by simp [hallowed])
    | rest => simp at hr

lemma allowsSome_readArray {item : Schema} (h : c.Allows s item) (name : String) :
    c.AllowsSome s (Evaluation.readArray item name) := by
  intro r hr
  rw [Evaluation.readArray] at hr
  split at hr
  · obtain rfl := Option.some.inj hr
    exact Schema.within_plain _
  · split at hr
    · obtain rfl := Option.some.inj hr
      exact h
    · simp at hr

lemma allowsSome_readText (text name : String) :
    c.AllowsSome s (Evaluation.readText text name) := by
  intro r hr
  rw [Evaluation.readText] at hr
  split at hr
  · obtain rfl := Option.some.inj hr
    exact Schema.within_number _
  · simp at hr

/-- Something that reads a property of a schema keeps a contract, from a session on. -/
def Reads (c : Contract host) (s : Session) (read : Schema → Eval (Option Schema)) (r : Schema) :
    Prop :=
  ∀ t, c.Ext s t → c.Allows t r → c.Meets c.Err t (read r) c.AllowsSome

variable {follow : Schema → Eval (Option Schema)} {name : String}

lemma meets_readEach {items : List Schema}
    (hitems : ∀ r ∈ items, c.Reads s (Evaluation.readWith follow name) r) (hst : c.Ext s t)
    (hallowed : ∀ r ∈ items, c.Allows t r) :
    c.Meets c.Err t (Evaluation.readEach follow name items) c.AllowsList := by
  induction items generalizing t with
  | nil =>
    rw [Evaluation.readEach]
    exact .pure fun _ => allowsList_some (by simp)
  | cons r rest ih =>
    rw [Evaluation.readEach]
    refine (hitems r (List.mem_cons_self ..) t hst
      (hallowed r (List.mem_cons_self ..))).bind fun u o _ htu ho => ?_
    cases o with
    | none => exact .pure fun _ => allowsList_none
    | some value =>
      have hrest := ih (fun r' hr' => hitems r' (List.mem_cons_of_mem _ hr')) (c.ext_trans hst htu)
        fun r' hr' => Allows.ext (hallowed r' (List.mem_cons_of_mem _ hr')) htu
      exact hrest.map fun w others huw hothers =>
        allowsList_cons (Allows.ext (ho value rfl) huw) hothers

lemma meets_readLast {items : List Schema} {found : Option Schema}
    (hitems : ∀ r ∈ items, c.Reads s (Evaluation.readWith follow name) r) (hst : c.Ext s t)
    (hallowed : ∀ r ∈ items, c.Allows t r) (hfound : c.AllowsSome t found) :
    c.Meets c.Err t (Evaluation.readLast follow name items found) c.AllowsSome := by
  induction items generalizing t found with
  | nil =>
    rw [Evaluation.readLast]
    exact .pure fun _ => hfound
  | cons r rest ih =>
    rw [Evaluation.readLast]
    refine (hitems r (List.mem_cons_self ..) t hst
      (hallowed r (List.mem_cons_self ..))).bind fun u o _ htu ho => ?_
    refine ih (fun r' hr' => hitems r' (List.mem_cons_of_mem _ hr')) (c.ext_trans hst htu)
      (fun r' hr' => Allows.ext (hallowed r' (List.mem_cons_of_mem _ hr')) htu) ?_
    cases o with
    | none => exact hfound.ext htu
    | some value => exact ho

/-- Reading from a schema keeps a contract if following the references in it does. -/
lemma reads_readWith (hfollow : ∀ r, c.Reads s follow r) (source : Schema) :
    c.Reads s (Evaluation.readWith follow name) source := by
  induction source using Schema.induction with
  | step source ih =>
    intro t hst hsource
    cases source with
    | object properties indexKeys => exact .pure fun _ => allowsSome_readObject hsource name
    | tuple items flags => exact .pure fun _ => allowsSome_readTuple hsource name
    | array item => exact .pure fun _ => allowsSome_readArray (Schema.within_array.1 hsource) name
    | literal value =>
      cases value with
      | string text => exact .pure fun _ => allowsSome_readText text name
      | _ => exact .pure fun _ => allowsSome_none
    | union items =>
      rw [Evaluation.readWith]
      exact (meets_readEach ih hst (Schema.within_union.1 hsource)).map fun _ _ _ ho =>
        allowsSome_unionOf ho
    | intersection items =>
      rw [Evaluation.readWith]
      exact meets_readLast ih hst (Schema.within_intersection.1 hsource) allowsSome_none
    | reference target arguments id =>
      rw [Evaluation.readWith]
      exact hfollow _ t hst hsource
    | _ => exact .pure fun _ => allowsSome_none

lemma meets_readWithin {resolve : Schema → Eval Schema}
    (hresolve : ∀ t r, c.Allows t r → c.Meets c.Err t (resolve r) c.Allows) (fuel : Nat)
    {source : Schema} (hsource : c.Allows s source) :
    c.Meets c.Err s (Evaluation.readWithin resolve name fuel source) c.AllowsSome := by
  induction fuel generalizing s source with
  | zero => exact .throw fun _ => c.err_diverged
  | succ fuel ih =>
    rw [Evaluation.readWithin]
    refine reads_readWith (fun r t _ hr => ?_) source s (c.ext_refl s) hsource
    refine (hresolve t r hr).bind fun u resolved _ htu hresolved => ?_
    split
    · exact .pure fun _ => allowsSome_none
    · exact ih hresolved

lemma meets_readProperty (h : c.Keeps e) {source : Schema} (hsource : c.Allows s source)
    (name : String) :
    c.Meets c.Err s (Evaluation.readProperty host e b source name) c.AllowsSome := by
  refine .get_bind fun _ => ?_
  exact meets_readWithin (fun t r hr => meets_resolve h hr) _ hsource

/-! ## Object literals -/

lemma AllowsShapes.setIn {shapes : List ObjectShape} (h : c.AllowsShapes s shapes)
    {keys : Evaluation.PropertyKeys} (hkeys : ∀ key, keys = .computed key → c.Allows s key)
    {value : Schema} (hvalue : c.Allows s value) :
    c.AllowsShapes s (shapes.map (keys.setIn value)) := by
  refine h.map fun o ho => ?_
  cases keys with
  | named names =>
    exact ObjectShape.within_foldl ho fun o ho name _ => ObjectShape.within_set ho name hvalue
  | computed key => exact ObjectShape.within_setOpen ho (hkeys key rfl) hvalue

lemma allows_of_keysOf {key key' : Schema} (hkey : c.Allows s key)
    (h : Evaluation.keysOf key = .computed key') : c.Allows s key' := by
  rw [Evaluation.keysOf] at h
  split at h
  · simp at h
  · cases h
    exact hkey

lemma meets_propertyKeys (h : c.Keeps e) (hb : c.Admits s b) (name : NodeId) :
    c.Meets c.Err s (Evaluation.propertyKeys host e b name)
      fun t keys => ∀ key, keys = .computed key → c.Allows t key := by
  rw [Evaluation.propertyKeys.eq_def]
  split
  · exact .pure fun _ => by simp
  · split
    · exact (h.node s b _ hb).map fun _ _ _ hr _ heq => allows_of_keysOf hr heq
    · exact (h.node s b _ hb).map fun _ _ _ hr _ heq => allows_of_keysOf hr heq

lemma meets_addMember (h : c.Keeps e) (hb : c.Admits s b) {shapes : List ObjectShape}
    (hshapes : c.AllowsShapes s shapes) (member : NodeId) :
    c.Meets c.Err s (Evaluation.addMember host e b shapes member) c.AllowsShapes := by
  rw [Evaluation.addMember.eq_def]
  split
  · -- a property; its value is evaluated before its name
    refine (h.node s b _ hb).bind fun t value _ hst hvalue => ?_
    refine (meets_propertyKeys h (hb.ext hst) _).map fun u keys htu hkeys => ?_
    exact (hshapes.ext (c.ext_trans hst htu)).setIn hkeys (hvalue.ext htu)
  · -- a name that is its own value
    refine (h.node s b _ hb).map fun t value hst hvalue => ?_
    exact (hshapes.ext hst).map fun o ho => ObjectShape.within_set ho _ hvalue
  · -- a method
    refine (h.node s b _ hb).bind fun t value _ hst hvalue => ?_
    split
    · refine (meets_propertyKeys h (hb.ext hst) _).map fun u keys htu hkeys => ?_
      exact (hshapes.ext (c.ext_trans hst htu)).setIn hkeys (hvalue.ext htu)
    · exact .pure fun _ => hshapes.ext hst
  · -- a spread
    refine (h.node s b _ hb).bind fun t source _ hst hsource => ?_
    exact meets_spreadInto h hsource (hshapes.ext hst)
  · exact .pure fun _ => hshapes

lemma allows_unionOf_shapes {shapes : List ObjectShape} (h : c.AllowsShapes s shapes)
    {f : ObjectShape → Schema} (hf : ∀ o, c.Allows s o.build → c.Allows s (f o)) :
    c.Allows s (Schema.unionOf (shapes.map f)) := by
  refine Schema.within_unionOf fun r hr => ?_
  obtain ⟨o, ho, rfl⟩ := List.mem_map.1 hr
  exact hf o (h o ho)

lemma meets_objectLiteral (h : c.Keeps e) (hb : c.Admits s b) (members : List NodeId) :
    c.Meets c.Err s (Evaluation.objectLiteral host e b members) c.Allows := by
  have hall : c.Meets c.Err s (members.foldlM (Evaluation.addMember host e b) [{}])
      c.AllowsShapes :=
    .foldlM allowsShapes_start fun shapes member _ t hst hshapes =>
      meets_addMember h (hb.ext hst) hshapes member
  exact hall.map fun t shapes _ hshapes => allows_unionOf_shapes hshapes fun _ ho => ho

/-! ## Array literals -/

/-- All schemas of a list may be used in a session. -/
abbrev AllowsAll (c : Contract host) (s : Session) (items : List Schema) : Prop :=
  ∀ r ∈ items, c.Allows s r

lemma AllowsAll.ext {items : List Schema} (h : c.AllowsAll s items) (hst : c.Ext s t) :
    c.AllowsAll t items := fun r hr => Allows.ext (h r hr) hst

lemma allowsAll_singleton {r : Schema} (h : c.Allows s r) : c.AllowsAll s [r] := by
  intro r' hr'
  obtain rfl := List.mem_singleton.1 hr'
  exact h

lemma allowsAll_flatten {lists : List (List Schema)} (h : ∀ items ∈ lists, c.AllowsAll s items) :
    c.AllowsAll s lists.flatten := by
  intro r hr
  obtain ⟨items, hitems, hr⟩ := List.mem_flatten.1 hr
  exact h items hitems r hr

lemma allows_spreadElement {item : Schema} (h : c.Allows s item) (flag : ElementFlag) :
    c.Allows s (Evaluation.spreadElement item flag) := by
  rw [Evaluation.spreadElement.eq_def]
  split
  · exact Schema.within_array.1 h
  · exact Schema.within_unionOf (by simp [h])
  · exact h

lemma allowsAll_elementsOf {source : Schema} (h : c.Allows s source) (spread : NodeId) :
    c.AllowsAll s (Evaluation.elementsOf spread source) := by
  have hunknown : c.AllowsAll s [.primitive .unknown (some spread)] :=
    allowsAll_singleton (Schema.within_primitive.2 fun _ _ => trivial)
  cases source with
  | tuple items flags =>
    intro r hr
    rw [Evaluation.elementsOf, ← List.map_uncurry_zip_eq_zipWith] at hr
    obtain ⟨e, he, rfl⟩ := List.mem_map.1 hr
    exact allows_spreadElement (Schema.within_tuple.1 h _ (List.of_mem_zip he).1) _
  | array item => exact allowsAll_singleton (Schema.within_array.1 h)
  | literal value =>
    cases value with
    | string text =>
      intro r hr
      obtain ⟨ch, -, rfl⟩ := List.mem_map.1 hr
      exact Schema.within_string _
    | _ => exact hunknown
  | primitive kind o =>
    cases kind with
    | string => exact allowsAll_singleton (Schema.within_plain _)
    | any => exact allowsAll_singleton Schema.within_any
    | _ => exact hunknown
  | _ => exact hunknown

lemma meets_spreadElements (h : c.Keeps e) {source : Schema} (hsource : c.Allows s source)
    (spread : NodeId) :
    c.Meets c.Err s (Evaluation.spreadElements e b spread source) c.AllowsAll := by
  rw [Evaluation.spreadElements.eq_def]
  split
  · split
    · exact .pure fun _ => (Schema.within_reference.1 hsource).2
    · exact (meets_resolve h hsource).map fun _ _ _ hr => allowsAll_elementsOf hr spread
  · exact .pure fun _ => allowsAll_elementsOf hsource spread

lemma meets_arrayElements (h : c.Keeps e) (hb : c.Admits s b) (element : NodeId) :
    c.Meets c.Err s (Evaluation.arrayElements host e b element) c.AllowsAll := by
  rw [Evaluation.arrayElements.eq_def]
  split
  · refine (h.node s b _ hb).bind fun t source _ hst hsource => ?_
    have hall : c.Meets c.Err t (source.alternatives.mapM (Evaluation.spreadElements e b element))
        fun u lists => ∀ items ∈ lists, c.AllowsAll u items :=
      .mapM (fun _ _ _ huw hitems => hitems.ext huw) fun r hr u htu =>
        meets_spreadElements h (Allows.ext (Schema.mem_alternatives_within hsource hr) htu) element
    exact hall.map fun u lists _ hlists => allowsAll_flatten hlists
  · exact (h.node s b _ hb).map fun _ _ _ hr => allowsAll_singleton hr

lemma meets_arrayLiteral (h : c.Keeps e) (hb : c.Admits s b) (elements : List NodeId) :
    c.Meets c.Err s (Evaluation.arrayLiteral host e b elements) c.AllowsType := by
  have hall : c.Meets c.Err s (elements.mapM (Evaluation.arrayElements host e b))
      fun t lists => ∀ items ∈ lists, c.AllowsAll t items :=
    .mapM (fun _ _ _ htu hitems => hitems.ext htu) fun element _ t hst =>
      meets_arrayElements h (hb.ext hst) element
  refine hall.bind fun t lists _ _ hlists => ?_
  have harray : ∀ {item : Schema}, c.Allows t item → c.AllowsType t (.array item) :=
    fun hitem => ⟨Schema.within_array.2 hitem, .simple rfl rfl⟩
  split
  · exact .pure fun _ => harray Schema.within_never
  · exact .pure fun _ => harray (Schema.within_unionOf (allowsAll_flatten hlists))

/-! ## Access -/

lemma meets_propertyAccess (h : c.Keeps e) (hb : c.Admits s b) (expression name : NodeId) :
    c.Meets c.Err s (Evaluation.propertyAccess host e b expression name) c.AllowsSome := by
  rw [Evaluation.propertyAccess]
  split
  · exact .pure fun _ => allowsSome_none
  · exact (h.node s b _ hb).bind fun t target _ _ htarget => meets_readProperty h htarget _

lemma meets_elementsAt (h : c.Keeps e) {target : Schema} (htarget : c.Allows s target)
    (indices : List Schema) :
    c.Meets c.Err s (Evaluation.elementsAt host e b target indices) c.AllowsList := by
  induction indices generalizing s with
  | nil => exact .pure fun _ => allowsList_some (by simp)
  | cons index rest ih =>
    rw [Evaluation.elementsAt]
    split
    · exact .pure fun _ => allowsList_none
    · refine (meets_readProperty h htarget _).bind fun t o _ hst ho => ?_
      cases o with
      | none => exact .pure fun _ => allowsList_none
      | some value =>
        exact (ih (htarget.ext hst)).map fun u others htu hothers =>
          allowsList_cons (Allows.ext (ho value rfl) htu) hothers

lemma meets_elementAccess (h : c.Keeps e) (hb : c.Admits s b) (expression argument : NodeId) :
    c.Meets c.Err s (Evaluation.elementAccess host e b expression argument) c.AllowsSome := by
  refine (h.node s b _ hb).bind fun t target _ hst htarget => ?_
  refine (h.node t b _ (hb.ext hst)).bind fun u index _ htu _ => ?_
  exact (meets_elementsAt h (htarget.ext htu) _).map fun _ _ _ ho => allowsSome_unionOf ho

/-! ## Markup -/

lemma meets_addAttribute (h : c.Keeps e) (hb : c.Admits s b) {shapes : List ObjectShape}
    (hshapes : c.AllowsShapes s shapes) (item : NodeId) :
    c.Meets c.Err s (Evaluation.addAttribute host e b shapes item) c.AllowsShapes := by
  rw [Evaluation.addAttribute.eq_def]
  split
  · refine (h.node s b _ hb).map fun t value hst hvalue => ?_
    exact (hshapes.ext hst).map fun o ho => ObjectShape.within_set ho _ hvalue
  · refine (h.node s b _ hb).bind fun t source _ hst hsource => ?_
    exact meets_spreadInto h hsource (hshapes.ext hst)
  · exact .pure fun _ => hshapes

lemma allowsSome_childrenSchema {items : List Schema} (h : c.AllowsAll s items) :
    c.AllowsSome s (Evaluation.childrenSchema? items) := by
  match items with
  | [] => exact allowsSome_none
  | [r] => exact allowsSome_some (h r (List.mem_singleton_self r))
  | r :: r' :: rest => exact allowsSome_some (Schema.within_tupleOf.2 h)

lemma meets_element (h : c.Keeps e) (hb : c.Admits s b) (tag : String)
    (attributes children : List NodeId) :
    c.Meets c.Err s (Evaluation.element host e b tag attributes children) c.Allows := by
  have hshapes : c.Meets c.Err s (attributes.foldlM (Evaluation.addAttribute host e b) [{}])
      c.AllowsShapes :=
    .foldlM allowsShapes_start fun shapes item _ t hst hshapes =>
      meets_addAttribute h (hb.ext hst) hshapes item
  refine hshapes.bind fun t shapes _ hst hshapes => ?_
  have hitems : c.Meets c.Err t ((children.filter (Evaluation.isVisible host)).mapM (e.node b))
      c.AllowsAll :=
    .mapM (fun _ _ _ htu hr => Allows.ext hr htu) fun child _ u htu =>
      h.node u b child (hb.ext (c.ext_trans hst htu))
  refine hitems.map fun u items htu hitems => ?_
  have hchildren := allowsSome_childrenSchema hitems
  refine allows_unionOf_shapes ?_ fun o ho => ?_
  · split
    · rename_i r hr
      exact (hshapes.ext htu).map fun o ho => ObjectShape.within_set ho _ (hchildren r hr)
    · exact hshapes.ext htu
  · simp [Schema.objectOf, Entries.names, ho]

end Contract

end ValueSchema
