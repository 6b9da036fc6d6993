/-
# The type of a symbolic operation

A symbolic operation is written as the type of its result, `binaryKind`.  This type is read off the
form of the operands, while the value that comes out once the inputs are filled in follows the rules
of conversion of the operators.  Here the two are compared.

The second account of the result are its possible *kinds*: an input of type `any` or `unknown` has
all kinds, an operator that selects an operand has the kinds of both, and any other operator has
those that it gives on the kinds of its operands (`jointKind?`).  Whatever comes out has one of
these kinds: `primitive?_mem_kinds`.  So the type that is announced is right if it is the only kind
there is.

* This is so if all inputs are of definite types and no operand is selected by a logical operator.
* For an operation on two inputs it is also necessary: each other kind comes out for some values.

It is not so in general.  The operand `text && "a"` is a text, but it does not look like one.
-/
import ValueSchema.Proofs.Schema.Reexpression
import ValueSchema.Schema.TypeText

namespace ValueSchema

/-! ## Kinds of values -/

/-- The kind of what an operator gives on values of two kinds, if it gives anything. -/
def jointKind? (op : BinaryOperator) (left right : Option Primitive) : Option Primitive :=
  if op.isRelational then some .boolean
  else if op = .add ∧ (left = some .string ∨ right = some .string) then some .string
  else if left = some .bigint ∧ right = some .bigint then
    if op = .unsignedRightShift then none else some .bigint
  else if left = some .bigint ∨ right = some .bigint then none
  else some .number

/-- The kinds of the values of a primitive type; `null` and `undefined` have none. -/
def kindsOf : Primitive → List (Option Primitive)
  | .any | .unknown => [some .string, some .number, some .bigint, some .boolean, none]
  | .void => [none]
  | .never | .symbol | .object => []
  | kind => [some kind]

namespace Literal

variable {value left right : Literal} {kind : Primitive}

lemma primitive?_mem_kindsOf (h : value.isOf kind = true) : value.primitive? ∈ kindsOf kind := by
  cases kind with
  | any | unknown => cases value <;> simp [kindsOf, primitive?]
  | void => cases value <;> first | exact List.mem_singleton_self _ | cases h
  | never | symbol | object => cases value <;> cases h
  | _ => exact List.mem_singleton.2 (beq_iff_eq.1 h)

lemma exists_string (h : value.primitive? = some .string) : ∃ text, value = string text := by
  cases value with
  | string text => exact ⟨text, rfl⟩
  | _ => cases h

/-- Arithmetic takes two big integers to a big integer, and anything else without big integers to a
number. -/
lemma primitive?_foldArithmetic {op : BinaryOperator}
    (h : foldArithmetic op left right = some value) :
    (left.primitive? = some .bigint ∧ right.primitive? = some .bigint ∧
      op ≠ .unsignedRightShift ∧ value.primitive? = some .bigint) ∨
    (left.primitive? ≠ some .bigint ∧ right.primitive? ≠ some .bigint ∧
      value.primitive? = some .number) := by
  rw [foldArithmetic.eq_def] at h
  split at h
  · rename_i a b
    left
    simp only [Option.bind_eq_bind, Option.bind_eq_some_iff, Option.pure_def,
      Option.some.injEq] at h
    obtain ⟨x, -, y, -, n, hn, rfl⟩ := h
    refine ⟨rfl, rfl, ?_, rfl⟩
    rintro rfl
    cases hn
  · right
    simp only [Option.bind_eq_bind, Option.bind_eq_some_iff, Option.pure_def,
      Option.some.injEq] at h
    obtain ⟨x, hx, y, hy, z, -, rfl⟩ := h
    have hnumber : ∀ {a : Literal} {x : Float}, a.toNumber? = some x →
        a.primitive? ≠ some .bigint := by
      intro a x ha
      cases a with
      | bigint digits => cases ha
      | _ => nofun
    exact ⟨hnumber hx, hnumber hy, rfl⟩

/-- An operator that computes gives a value of the joint kind of its operands. -/
lemma jointKind?_of_foldBinary {op : BinaryOperator} (hop : op.isLogical = false)
    (h : foldBinary op left right = some value) :
    (jointKind? op left.primitive? right.primitive?).map some = some value.primitive? := by
  have harithmetic : op.isRelational = false →
      ¬(op = .add ∧ (left.primitive? = some .string ∨ right.primitive? = some .string)) →
      foldArithmetic op left right = some value →
      (jointKind? op left.primitive? right.primitive?).map some = some value.primitive? := by
    intro hrelational htext hfold
    rw [jointKind?, if_neg (by simp [hrelational]), if_neg htext]
    rcases primitive?_foldArithmetic hfold with ⟨hl, hr, hshift, hv⟩ | ⟨hl, hr, hv⟩
    · rw [if_pos ⟨hl, hr⟩, if_neg hshift, hv, Option.map_some]
    · rw [if_neg (by simp [hl]), if_neg (by simp [hl, hr]), hv, Option.map_some]
  cases op with
  | logicalAnd | logicalOr | nullishCoalescing | comma => cases hop
  | isIn | isInstance => cases h
  | strictEquals | strictNotEquals =>
    obtain rfl := Option.some.inj h
    rfl
  | equals | notEquals | lessThan | greaterThan | lessThanEquals | greaterThanEquals =>
    obtain ⟨_, -, rfl⟩ := Option.map_eq_some_iff.1 h
    rfl
  | add =>
    -- a text on one side is enough; otherwise addition is arithmetic
    have htext : left.primitive? = some .string ∨ right.primitive? = some .string →
        jointKind? .add left.primitive? right.primitive? = some .string := fun htext => by
      rw [jointKind?, if_neg (by decide), if_pos ⟨rfl, htext⟩]
    rw [foldBinary, foldAdd.eq_def] at h
    split at h
    · obtain rfl := Option.some.inj h
      rw [htext (Or.inl rfl)]
      rfl
    · obtain rfl := Option.some.inj h
      rw [htext (Or.inr rfl)]
      rfl
    · rename_i hleft hright
      refine harithmetic rfl ?_ h
      rintro ⟨-, hstring | hstring⟩
      · obtain ⟨a, rfl⟩ := exists_string hstring
        exact hleft a rfl
      · obtain ⟨b, rfl⟩ := exists_string hstring
        exact hright b rfl
  | _ => exact harithmetic rfl (by simp) h

end Literal

namespace Schema

/-! ## Kinds of operations -/

/-- A symbolic expression: operations on literals and inputs. -/
inductive Formula : Schema → Prop
  | literal (value : Literal) : Formula (literal value)
  | input (kind : Primitive) (n : NodeId) : Formula (primitive kind (some n))
  | operation {left right : Schema} (op : BinaryOperator) (hleft : Formula left)
      (hright : Formula right) : Formula (binary op left right)

/-- The kinds that the value of an expression can have. -/
def kinds (s : Schema) : List (Option Primitive) :=
  match s with
  | literal value => [value.primitive?]
  | primitive kind _ => kindsOf kind
  | binary op left right =>
    if op = .comma then kinds right
    else if op.isLogical then kinds left ++ kinds right
    else (kinds left).flatMap fun a => (kinds right).filterMap fun b => (jointKind? op a b).map some
  | _ => []
  termination_by structural s

/-- Inputs are mapped to literals of their types. -/
def Suits (value? : NodeId → Option Schema) (s : Schema) : Prop :=
  ∀ kind n, primitive kind (some n) ∈ s.subterms → ∀ t, value? n = some t →
    ∃ value : Literal, t = literal value ∧ value.isOf kind = true

/-- Every literal that an expression comes to is of one primitive type. -/
def Announces (s : Schema) (kind : Primitive) : Prop :=
  ∀ (value? : NodeId → Option Schema) (cap : Nat) (value : Literal), Suits value? s →
    (s.substitute value?).refold cap = literal value → value.primitive? = some kind

variable {value? : NodeId → Option Schema} {s t : Schema} {op : BinaryOperator}

lemma Suits.operands (h : Suits value? (binary op s t)) : Suits value? s ∧ Suits value? t :=
  ⟨fun kind n hn => h kind n (mem_subterms_of_mem_children (by simp [children]) hn),
    fun kind n hn => h kind n (mem_subterms_of_mem_children (by simp [children]) hn)⟩

/-- A logical operator selects an operand, any other one computes two literals; or the operation
stays as it is. -/
lemma foldPair_selects (hcomma : op ≠ .comma) (left right : Schema) :
    (op.isLogical = true ∧ (foldPair op left right = left ∨ foldPair op left right = right)) ∨
    (op.isLogical = false ∧ ∃ l r value, left = literal l ∧ right = literal r ∧
      Literal.foldBinary op l r = some value ∧ foldPair op left right = literal value) ∨
    foldPair op left right = binary op left right := by
  rw [foldPair]
  split
  · exact Or.inr (Or.inr rfl)
  · rename_i l hl
    obtain ⟨rfl⟩ : left = literal l := by cases left <;> simp_all [literal?]
    split
    · exact Or.inl ⟨rfl, by split <;> simp⟩
    · exact Or.inl ⟨rfl, by split <;> simp⟩
    · exact Or.inl ⟨rfl, by split <;> simp⟩
    · split
      · rename_i value hvalue
        obtain ⟨r, hr, hfold⟩ := Option.bind_eq_some_iff.1 hvalue
        obtain ⟨rfl⟩ : right = literal r := by cases right <;> simp_all [literal?]
        refine Or.inr (Or.inl ⟨?_, l, r, value, rfl, rfl, hfold, rfl⟩)
        cases op <;> simp_all [BinaryOperator.isLogical]
      · exact Or.inr (Or.inr rfl)

/-- A union of one member is that member, or nothing. -/
lemma unionOf_single (h : s.alternatives = [s]) : unionOf [s] = s ∨ unionOf [s] = never := by
  have hflat : flatMembers [s] = [s].filter fun t => !t.isPrimitive .never := by
    rw [flatMembers, List.flatMap_singleton, h]
    rfl
  cases hnever : s.isPrimitive .never with
  | false =>
    refine Or.inl (unionOf_of_flatMembers_eq_singleton ?_)
    rw [hflat, List.filter_cons_of_pos (by simp [hnever]), List.filter_nil]
  | true =>
    refine Or.inr ?_
    rw [List.filter_cons_of_neg (by simp [hnever]), List.filter_nil] at hflat
    rcases unionOf_cases [s] with ⟨t, ht, -⟩ | ⟨-, heq⟩
    · rw [hflat] at ht
      cases ht
    · rw [heq, hflat]
      rfl

/-- What an expression comes to is no union, and if it is a literal, then of a kind that was to be
expected.  The induction is over the expression. -/
lemma refold_formula (h : Formula s) (hsuits : Suits value? s) (cap : Nat) :
    ((s.substitute value?).refold cap).alternatives = [(s.substitute value?).refold cap] ∧
      ∀ value, (s.substitute value?).refold cap = literal value → value.primitive? ∈ s.kinds := by
  induction h with
  | literal value =>
    refine ⟨rfl, ?_⟩
    rintro other ⟨⟩
    exact List.mem_singleton_self _
  | input kind n =>
    cases hn : value? n with
    | none =>
      have hkeep : ((primitive kind (some n)).substitute value?).refold cap =
          primitive kind (some n) := by
        simp [substitute, transform_eq, origin?, hn, mapChildren, refold, refoldStep]
      rw [hkeep]
      exact ⟨rfl, fun _ hvalue => by cases hvalue⟩
    | some t =>
      obtain ⟨value, rfl, hkind⟩ := hsuits kind n (self_mem_subterms _) t hn
      rw [refold_substitute_input hn]
      refine ⟨rfl, ?_⟩
      rintro other ⟨⟩
      exact Literal.primitive?_mem_kindsOf hkind
  | @operation left right op _ _ ihleft ihright =>
    obtain ⟨hsingle, hkinds⟩ := ihleft hsuits.operands.1
    obtain ⟨hsingle', hkinds'⟩ := ihright hsuits.operands.2
    rw [refold_substitute_binary]
    generalize (left.substitute value?).refold cap = l at hsingle hkinds
    generalize (right.substitute value?).refold cap = r at hsingle' hkinds'
    by_cases hcomma : op = .comma
    · subst hcomma
      exact ⟨hsingle', hkinds'⟩
    rw [foldBinary_eq hcomma, hsingle, hsingle']
    split
    case isFalse => exact ⟨rfl, fun _ hvalue => by cases hvalue⟩
    -- one choice of operands; what comes out of it is the only member of a union
    have hpair : (foldPair op l r).alternatives = [foldPair op l r] ∧
        ∀ value, foldPair op l r = literal value →
          value.primitive? ∈ (binary op left right).kinds := by
      rw [kinds, if_neg hcomma]
      rcases foldPair_selects hcomma l r with
        ⟨hlogical, heq | heq⟩ | ⟨hop, a, b, value, rfl, rfl, hfold, heq⟩ | heq
      · rw [heq, if_pos hlogical]
        exact ⟨hsingle, fun value hv => List.mem_append_left _ (hkinds value hv)⟩
      · rw [heq, if_pos hlogical]
        exact ⟨hsingle', fun value hv => List.mem_append_right _ (hkinds' value hv)⟩
      · rw [heq, if_neg (by simp [hop])]
        refine ⟨rfl, ?_⟩
        rintro other ⟨⟩
        exact List.mem_flatMap.2 ⟨_, hkinds a rfl, List.mem_filterMap.2
          ⟨_, hkinds' b rfl, Literal.jointKind?_of_foldBinary hop hfold⟩⟩
      · rw [heq]
        exact ⟨rfl, fun _ hvalue => by cases hvalue⟩
    have hmembers : ([l].flatMap fun a => [r].map (foldPair op a)) = [foldPair op l r] := rfl
    rw [hmembers]
    rcases unionOf_single hpair.1 with heq | heq
    · rw [heq]
      exact hpair
    · rw [heq]
      exact ⟨rfl, fun _ hvalue => by cases hvalue⟩

/-- If no other kind is possible, then the value is of the kind. -/
lemma announces_of_kinds (h : Formula s) {kind : Primitive}
    (hkinds : ∀ k ∈ s.kinds, k = some kind) :
    Announces s kind :=
  fun _ cap value hsuits heq => hkinds _ ((refold_formula h hsuits cap).2 value heq)

/-! ## Definite types -/

/-- Whether all inputs of an expression are of definite types and none of its operators selects an
operand. -/
def isDefinite (s : Schema) : Bool :=
  match s with
  | literal _ => true
  | primitive kind _ => kind != .any && kind != .unknown
  | binary op left right => !op.isLogical && isDefinite left && isDefinite right
  | _ => false
  termination_by structural s

/-- How a value of a kind leans. -/
def leaningOf (kind : Option Primitive) : Leaning := ⟨kind == some .string, kind == some .bigint⟩

/-- On values, the announced type is the kind of the result. -/
lemma resultKind_of_jointKind? {left right : Option Primitive} {kind : Primitive}
    (hop : op.isLogical = false) (h : jointKind? op left right = some kind) :
    resultKind op (leaningOf left) (leaningOf right) = some kind := by
  rw [jointKind?] at h
  rw [resultKind]
  split at h
  · rename_i hrelational
    rw [if_pos hrelational]
    exact h
  rename_i hrelational
  rw [if_neg hrelational, if_neg (by simp [hop])]
  split at h
  · rename_i htext
    rw [if_pos (by simpa [leaningOf] using htext)]
    exact h
  rename_i htext
  rw [if_neg (by simpa [leaningOf] using htext)]
  split at h
  · rename_i hbigint
    split at h
    · cases h
    · rename_i hshift
      rw [if_pos (by simp [leaningOf, hbigint, hshift])]
      exact h
  · split at h
    · cases h
    · rename_i hbigint
      rw [if_neg (by simp_all [leaningOf])]
      exact h

lemma mem_kinds_binary (hop : op.isLogical = false) {k : Option Primitive} :
    k ∈ (binary op s t).kinds ↔
      ∃ a ∈ s.kinds, ∃ b ∈ t.kinds, ∃ kind, jointKind? op a b = some kind ∧ k = some kind := by
  have hcomma : op ≠ .comma := by rintro rfl; cases hop
  rw [kinds, if_neg hcomma, if_neg (by simp [hop])]
  simp only [List.mem_flatMap, List.mem_filterMap, Option.map_eq_some_iff, @eq_comm _ _ k]

/-- A definite expression leans as its values do, whatever kind they have. -/
lemma leaning_of_isDefinite (h : s.isDefinite = true) {k : Option Primitive} (hk : k ∈ s.kinds) :
    s.leaning = leaningOf k := by
  induction s using induction generalizing k with
  | step s ih =>
    cases s with
    | literal value =>
      obtain rfl := List.mem_singleton.1 hk
      cases value <;> rfl
    | primitive kind o =>
      cases kind with
      | any | unknown => cases h
      | never | symbol | object => cases hk
      | _ =>
        obtain rfl := List.mem_singleton.1 hk
        rfl
    | binary op left right =>
      rw [isDefinite, Bool.and_eq_true, Bool.and_eq_true, Bool.not_eq_true'] at h
      obtain ⟨⟨hop, hleft⟩, hright⟩ := h
      obtain ⟨a, ha, b, hb, kind, hjoint, rfl⟩ := (mem_kinds_binary hop).1 hk
      rw [leaning, ih left (by simp [children]) hleft ha, ih right (by simp [children]) hright hb,
        resultKind_of_jointKind? hop hjoint]
      rfl
    | _ => cases h

/-- The operators that select an operand announce no type. -/
lemma isLogical_of_binaryKind {kind : Primitive} (h : binaryKind op s t = some kind) :
    op.isLogical = false := by
  by_contra hop
  rw [Bool.not_eq_false] at hop
  have hrelational : op.isRelational = false := by cases op <;> first | rfl | cases hop
  rw [binaryKind, resultKind, if_neg (by simp [hrelational]), if_pos hop] at h
  cases h

lemma kinds_of_isDefinite {kind : Primitive} (hkind : binaryKind op s t = some kind)
    (hs : s.isDefinite = true) (ht : t.isDefinite = true) :
    ∀ k ∈ (binary op s t).kinds, k = some kind := by
  intro k hk
  have hop := isLogical_of_binaryKind hkind
  obtain ⟨a, ha, b, hb, kind', hjoint, rfl⟩ := (mem_kinds_binary hop).1 hk
  rw [binaryKind, leaning_of_isDefinite hs ha, leaning_of_isDefinite ht hb,
    resultKind_of_jointKind? hop hjoint] at hkind
  exact hkind

/-! ## Operations on two inputs -/

/-- A value of a kind. -/
def sample : Option Primitive → Literal
  | some .string => .string ""
  | some .number => .number 0
  | some .bigint => .bigint "1"
  | some .boolean => .boolean false
  | _ => .undefined

lemma sample_of_mem_kindsOf {kind : Primitive} {k : Option Primitive} (h : k ∈ kindsOf kind) :
    k ∈ kindsOf .any ∧ (sample k).primitive? = k ∧ (sample k).isOf kind = true := by
  have hall : ∀ kind ∈ Primitive.all, ∀ k ∈ kindsOf kind,
      k ∈ kindsOf .any ∧ (sample k).primitive? = k ∧ (sample k).isOf kind = true := by decide
  exact hall kind (by cases kind <;> decide) k h

/-- Each joint kind comes out for some values, where an operator computes at all. -/
lemma exists_foldBinary_sample (hop : op.isRelational = false) {a b : Option Primitive}
    (ha : a ∈ kindsOf .any) (hb : b ∈ kindsOf .any) {kind : Primitive}
    (h : jointKind? op a b = some kind) :
    ∃ value, Literal.foldBinary op (sample a) (sample b) = some value := by
  have hall : ∀ op ∈ BinaryOperator.all, op.isRelational = false →
      ∀ a ∈ kindsOf .any, ∀ b ∈ kindsOf .any, (jointKind? op a b).isSome = true →
        (Literal.foldBinary op (sample a) (sample b)).isSome = true := by decide +kernel
  refine Option.isSome_iff_exists.1 (hall op op.mem_all hop a ha b hb ?_)
  rw [h, Option.isSome_some]

/-- If an operation on two inputs announces a type, then its value can be of no other kind. -/
lemma kinds_of_announces {kind p q : Primitive} {m n : NodeId} (hne : m ≠ n)
    (hkind : binaryKind op (primitive p (some m)) (primitive q (some n)) = some kind)
    (h : Announces (binary op (primitive p (some m)) (primitive q (some n))) kind) :
    ∀ k ∈ (binary op (primitive p (some m)) (primitive q (some n))).kinds, k = some kind := by
  intro k hk
  have hop := isLogical_of_binaryKind hkind
  obtain ⟨a, ha, b, hb, kind', hjoint, rfl⟩ := (mem_kinds_binary hop).1 hk
  cases hrelational : op.isRelational with
  | true =>
    -- some of these never come to a literal, but both sides say `boolean`
    rw [jointKind?, if_pos hrelational] at hjoint
    rw [binaryKind, resultKind, if_pos hrelational] at hkind
    exact hjoint.symm.trans hkind
  | false =>
    obtain ⟨hanyA, hkindA, hisA⟩ := sample_of_mem_kindsOf ha
    obtain ⟨hanyB, hkindB, hisB⟩ := sample_of_mem_kindsOf hb
    obtain ⟨value, hvalue⟩ := exists_foldBinary_sample hrelational hanyA hanyB hjoint
    let fill : NodeId → Option Schema :=
      fun i => if i = m then some (literal (sample a)) else some (literal (sample b))
    have hm : fill m = some (literal (sample a)) := if_pos rfl
    have hn : fill n = some (literal (sample b)) := if_neg hne.symm
    have hsuits : Suits fill (binary op (primitive p (some m)) (primitive q (some n))) := by
      intro r i hi t ht
      have hinput : r = p ∧ i = m ∨ r = q ∧ i = n := by
        simpa [subterms] using hi
      rcases hinput with ⟨rfl, rfl⟩ | ⟨rfl, rfl⟩
      · exact ⟨sample a, Option.some.inj (ht.symm.trans hm), hisA⟩
      · exact ⟨sample b, Option.some.inj (ht.symm.trans hn), hisB⟩
    have hrefold := h fill 1 value hsuits (by
      rw [refold_substitute_binary, refold_substitute_input hm, refold_substitute_input hn]
      exact foldBinary_literals hop hvalue le_rfl)
    have hvalueKind := Literal.jointKind?_of_foldBinary hop hvalue
    rw [hkindA, hkindB, hjoint, Option.map_some, Option.some.injEq] at hvalueKind
    exact hvalueKind.trans hrefold

/-! ## The announced type -/

/-- The type that is announced for an operation is that of every value it comes to, if by the kinds
of its operands no other one is possible; in particular if all inputs are of definite types and no
operand is selected by a logical operator.  For an operation on two inputs the condition is
necessary. -/
theorem binaryKind_announces {left right : Schema} {kind : Primitive}
    (hformula : Formula (binary op left right)) (hkind : binaryKind op left right = some kind) :
    ((∀ k ∈ (binary op left right).kinds, k = some kind) → Announces (binary op left right) kind) ∧
      (left.isDefinite = true → right.isDefinite = true →
        Announces (binary op left right) kind) ∧
      ∀ p m q n, left = primitive p (some m) → right = primitive q (some n) → m ≠ n →
        Announces (binary op left right) kind →
          ∀ k ∈ (binary op left right).kinds, k = some kind := by
  refine ⟨announces_of_kinds hformula, fun hleft hright => ?_, ?_⟩
  · exact announces_of_kinds hformula (kinds_of_isDefinite hkind hleft hright)
  · rintro p m q n rfl rfl hne hannounces
    exact kinds_of_announces hne hkind hannounces

/-- A text that is replaced by `"a"` unless it is empty, and a number after it. -/
def labelled : Schema :=
  binary .add (binary .logicalAnd (primitive .string (some ⟨1⟩)) (string "a")) (number 1)

/-- Two inputs of which nothing is known, one taken from the other. -/
def difference : Schema :=
  binary .subtract (primitive .any (some ⟨1⟩)) (primitive .unknown (some ⟨2⟩))

/-- The product of two numbers after a text is announced as a text, and is one.  A labelled text is
announced as a number and is a text, and a difference of inputs is announced as a number and can be
a big integer. -/
theorem binaryKind_announces_labelled :
    Announces (binary .add (string "x") (binary .multiply (primitive .number (some ⟨1⟩))
      (primitive .number (some ⟨2⟩)))) .string ∧
    labelled.typeText = "number" ∧ ¬Announces labelled .number ∧
    difference.typeText = "number" ∧ ¬Announces difference .number := by
  refine ⟨?_, rfl, fun h => ?_, rfl, fun h => ?_⟩
  · exact (binaryKind_announces (.operation _ (.literal _) (.operation _ (.input _ _) (.input _ _)))
      rfl).2.1 rfl rfl
  · have hsuits : Suits (fun _ => some (string "b")) labelled := by
      intro kind n hn t ht
      obtain ⟨rfl, -⟩ : kind = .string ∧ n = ⟨1⟩ := by
        simpa [labelled, subterms, string, number] using hn
      exact ⟨.string "b", (Option.some.inj ht).symm, rfl⟩
    have hnumber := h _ 1 (.string "a1") hsuits rfl
    cases hnumber
  · have hkinds := (binaryKind_announces (.operation _ (.input _ _) (.input _ _)) rfl).2.2 .any ⟨1⟩
      .unknown ⟨2⟩ rfl rfl (by decide) h
    exact absurd (hkinds (some .bigint) (by decide)) (by decide)

end Schema

end ValueSchema
