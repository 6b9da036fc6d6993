/-
# The meaning of documents

A document of JSON Schema, draft 2020-12, says of a value whether it is valid.  Here is the rule for
every keyword that the documents of schemas use; the other keywords, such as `title`, say nothing
about values.  How a regular expression is matched is left to a parameter, and a reference is
followed as in `Json.locate?`.

Recursive documents refer to themselves, so that `Json.check` looks only so many steps deep.  What
it has not found out by then stays open, as one of three truth values: a choice holds as soon as one
of its alternatives is known to hold, whatever the others are.  More steps never change what has
been found out, and a value is `Valid` if some number of steps suffices to say so.
-/
import ValueSchema.Number.Binary
import ValueSchema.Proofs.Document.Pointer

namespace ValueSchema

/-! ## Verdicts -/

/-- Whether something is the case, if that has been found out. -/
abbrev Verdict := Option Bool

namespace Verdict

variable {α : Type} {f g : α → Verdict} {l : List α}

/-- Whether two things are both the case. -/
def both : Verdict → Verdict → Verdict
  | some true, v => v
  | some false, _ => some false
  | none, some false => some false
  | none, _ => none

/-- Whether something is not the case. -/
def negate (v : Verdict) : Verdict := v.map not

/-- Whether something is the case for all members of a list. -/
def every (f : α → Verdict) : List α → Verdict
  | [] => some true
  | a :: rest => both (f a) (every f rest)

/-- Whether something is the case for some member of a list. -/
def any (f : α → Verdict) (l : List α) : Verdict := negate (every (fun a => negate (f a)) l)

lemma both_eq_true {v w : Verdict} : both v w = some true ↔ v = some true ∧ w = some true := by
  rcases v with _ | _ | _ <;> rcases w with _ | _ | _ <;> decide

lemma both_eq_false {v w : Verdict} : both v w = some false ↔ v = some false ∨ w = some false := by
  rcases v with _ | _ | _ <;> rcases w with _ | _ | _ <;> decide

lemma negate_eq_some {v : Verdict} {b : Bool} : negate v = some b ↔ v = some !b := by
  rcases v with _ | _ | _ <;> cases b <;> decide

lemma every_eq_true : every f l = some true ↔ ∀ a ∈ l, f a = some true := by
  induction l with
  | nil => simp [every]
  | cons a rest ih => rw [every, both_eq_true, ih, List.forall_mem_cons]

lemma every_eq_false : every f l = some false ↔ ∃ a ∈ l, f a = some false := by
  induction l with
  | nil => simp [every]
  | cons a rest ih => simp [every, both_eq_false, ih]

lemma any_eq_true : any f l = some true ↔ ∃ a ∈ l, f a = some true := by
  simp only [any, negate_eq_some, Bool.not_true, every_eq_false, Bool.not_false]

/-- One verdict says all that another one says. -/
def Refines (v w : Verdict) : Prop := ∀ b, v = some b → w = some b

namespace Refines

lemma rfl {v : Verdict} : Refines v v := fun _ h => h

lemma negate {v w : Verdict} (h : Refines v w) : Refines (negate v) (negate w) :=
  fun _ hb => negate_eq_some.2 (h _ (negate_eq_some.1 hb))

lemma every (h : ∀ a ∈ l, Refines (f a) (g a)) : Refines (every f l) (every g l) := by
  rintro (_ | _) hb
  · obtain ⟨a, ha, hfa⟩ := every_eq_false.1 hb
    exact every_eq_false.2 ⟨a, ha, h a ha _ hfa⟩
  · exact every_eq_true.2 fun a ha => h a ha _ (every_eq_true.1 hb a ha)

lemma any (h : ∀ a ∈ l, Refines (f a) (g a)) : Refines (any f l) (any g l) :=
  negate (every fun a ha => negate (h a ha))

lemma bind {o : Option α} (h : ∀ a, Refines (f a) (g a)) : Refines (o.bind f) (o.bind g) := by
  cases o with
  | none => exact rfl
  | some a => exact h a

lemma elim {o : Option α} {v : Verdict} (h : ∀ a, Refines (f a) (g a)) :
    Refines (o.elim v f) (o.elim v g) := by
  cases o with
  | none => exact rfl
  | some a => exact h a

lemma ite {c : Prop} [Decidable c] {v w u : Verdict} (h : Refines v w) :
    Refines (if c then v else u) (if c then w else u) := by
  split
  · exact h
  · exact rfl

end Refines

/-- If every member of a list takes some number of steps, then there is one for all of them. -/
lemma exists_every_eq_true {f : Nat → α → Verdict}
    (hf : ∀ {m n : Nat}, m ≤ n → ∀ a, Refines (f m a) (f n a))
    (h : ∀ a ∈ l, ∃ n, f n a = some true) : ∃ n, every (f n) l = some true := by
  induction l with
  | nil => exact ⟨0, Eq.refl _⟩
  | cons a rest ih =>
    obtain ⟨ha, hrest⟩ := List.forall_mem_cons.1 h
    obtain ⟨m, hm⟩ := ha
    obtain ⟨n, hn⟩ := ih hrest
    refine ⟨max m n, both_eq_true.2 ⟨?_, ?_⟩⟩
    · exact hf (Nat.le_max_left m n) a true hm
    · exact Refines.every (fun a _ => hf (Nat.le_max_right m n) a) true hn

lemma exists_every_eq_true_iff {f : Nat → α → Verdict}
    (hf : ∀ {m n : Nat}, m ≤ n → ∀ a, Refines (f m a) (f n a)) :
    (∃ n, every (f n) l = some true) ↔ ∀ a ∈ l, ∃ n, f n a = some true :=
  ⟨fun ⟨n, h⟩ a ha => ⟨n, every_eq_true.1 h a ha⟩, exists_every_eq_true hf⟩

end Verdict

/-- The number that a finite double is. -/
def Number.value? (x : Float) : Option Rat :=
  match Number.view x with
  | .finite negative m q =>
    let n : Int := if negative then -m else m
    some (if 0 ≤ q then Rat.ofInt (n * Int.pow 2 q.toNat) else mkRat n (Nat.pow 2 (-q).toNat))
  | _ => none

namespace Json

open Verdict

/-! ## Values -/

/-- The number that a value is. -/
def toRat? : Json → Option Rat
  | int n => some (Rat.ofInt n)
  | float x => Number.value? x
  | _ => none

/-- The elements of an array. -/
def toList? : Json → Option (List Json)
  | arr items => some items
  | _ => none

/-- The entries of an object. -/
def toEntries? : Json → Option (List (String × Json))
  | obj entries => some entries
  | _ => none

/-- The text of a string. -/
def toString? : Json → Option String
  | str s => some s
  | _ => none

/-- Whether a value is of a type. -/
def hasType (value : Json) (name : String) : Bool :=
  match name with
  | "null" => (value matches null)
  | "boolean" => (value matches bool _)
  | "string" => value.toString?.isSome
  | "array" => value.toList?.isSome
  | "object" => value.toEntries?.isSome
  | "number" => value.toRat?.isSome
  | "integer" => value.toRat?.any (·.den = 1)
  | _ => false

mutual

/-- Whether two values are equal: numbers by their value, objects whatever the order. -/
def same (a b : Json) : Bool :=
  match a with
  | null => (b matches null)
  | bool x => match b with | bool y => x == y | _ => false
  | str x => match b with | str y => x == y | _ => false
  | int n => b.toRat? == some (Rat.ofInt n)
  | float x => (Number.value? x).isSome && b.toRat? == Number.value? x
  | arr items => match b with | arr others => sameAll items others | _ => false
  | obj entries => match b with
    | obj others => sameIn entries others && others.all fun e => Entries.contains e.1 entries
    | _ => false
  termination_by structural a

/-- Whether the values of two lists are equal. -/
def sameAll (items others : List Json) : Bool :=
  match items with
  | [] => others.isEmpty
  | a :: rest => match others with
    | b :: others => a.same b && sameAll rest others
    | [] => false
  termination_by structural items

/-- Whether an object has equal values under all keys of some entries. -/
def sameIn (entries others : List (String × Json)) : Bool :=
  match entries with
  | [] => true
  | (key, a) :: rest => (Entries.get? key others).any (a.same ·) && sameIn rest others
  termination_by structural entries

end

/-! ## Keywords -/

section

-- whether a text has a match of a regular expression, what is known about the documents further
-- inside, and the whole document, in which references are followed
variable (isMatch : String → String → Bool) (check : Json → Json → Verdict) (document : Json)

/-- How many elements the keyword `prefixItems` speaks about. -/
def frontLength (keywords : List (String × Json)) : Nat :=
  (((Entries.get? "prefixItems" keywords).bind toList?).getD []).length

/-- Whether the keywords `properties` and `patternProperties` leave a key open. -/
def isAdditional (keywords : List (String × Json)) (key : String) : Bool :=
  let named := ((Entries.get? "properties" keywords).bind toEntries?).getD []
  let patterns := ((Entries.get? "patternProperties" keywords).bind toEntries?).getD []
  !Entries.contains key named && !patterns.any fun p => isMatch p.1 key

/-- What a keyword says about a value.  A keyword about lists says nothing about other values, and
so on; some keywords depend on the others that stand beside them. -/
def keyword (keywords : List (String × Json)) (name : String) (argument value : Json) : Verdict :=
  match name with
  | "$ref" => (argument.toString?.bind document.locate?).bind fun d => check d value
  | "type" => match argument with
    | str name => some (value.hasType name)
    | arr names => some (names.any fun name => name.toString?.any value.hasType)
    | _ => none
  | "const" => some (argument.same value)
  | "enum" => argument.toList?.map fun constants => constants.any (·.same value)
  | "not" => negate (check argument value)
  | "anyOf" => argument.toList?.bind fun ds => any (fun d => check d value) ds
  | "allOf" => argument.toList?.bind fun ds => every (fun d => check d value) ds
  | "properties" => argument.toEntries?.bind fun properties =>
      every (fun p => (value.get? p.1).elim (some true) (check p.2)) properties
  | "required" => argument.toList?.map fun names => value.toEntries?.all fun entries =>
      names.all fun name => name.toString?.any fun key => Entries.contains key entries
  | "patternProperties" => argument.toEntries?.bind fun patterns =>
      value.toEntries?.elim (some true) fun entries =>
        every (fun p => every (fun e => if isMatch p.1 e.1 then check p.2 e.2 else some true)
          entries) patterns
  | "additionalProperties" => value.toEntries?.elim (some true) fun entries =>
      every (fun e => if isAdditional isMatch keywords e.1 then check argument e.2 else some true)
        entries
  | "prefixItems" => argument.toList?.bind fun ds => value.toList?.elim (some true) fun items =>
      every (fun p => check p.1 p.2) (ds.zip items)
  | "items" => value.toList?.elim (some true) fun items =>
      every (check argument) (items.drop (frontLength keywords))
  | "minItems" => argument.toRat?.map fun n =>
      value.toList?.all fun items => n ≤ Rat.ofInt items.length
  | "maxItems" => argument.toRat?.map fun n =>
      value.toList?.all fun items => Rat.ofInt items.length ≤ n
  | "uniqueItems" => match argument with
    | bool unique => some (!unique || value.toList?.all fun items =>
        items.Pairwise fun a b => a.same b = false)
    | _ => none
  | "pattern" => argument.toString?.map fun pattern => value.toString?.all (isMatch pattern)
  | _ => some true

end

/-- What a document says about a value, as far as that is found out in a number of steps. -/
def check (isMatch : String → String → Bool) (document : Json) : Nat → Json → Json → Verdict
  | 0, _, _ => none
  | _ + 1, bool b, _ => some b
  | steps + 1, obj keywords, value =>
    every (fun k => keyword isMatch (check isMatch document steps) document keywords k.1 k.2 value)
      keywords
  | _ + 1, _, _ => none

/-- A chain, each link of which has a value. -/
example :
    let chain := obj [("required", arr [str "value"]),
      ("properties", obj [("next", obj [("$ref", str "#")])])]
    check (fun _ _ => false) chain 5 chain
        (obj [("value", int 1), ("next", obj [("value", int 2)])]) = some true ∧
      check (fun _ _ => false) chain 5 chain
        (obj [("value", int 1), ("next", obj [])]) = some false := by
  decide +kernel

/-- A part of a document holds of a value. -/
def Fits (isMatch : String → String → Bool) (document d value : Json) : Prop :=
  ∃ steps, check isMatch document steps d value = some true

/-- A value is valid against a document. -/
def Valid (isMatch : String → String → Bool) (document value : Json) : Prop :=
  Fits isMatch document document value

/-! ## More steps -/

section

variable {isMatch : String → String → Bool} {document : Json} {keywords : List (String × Json)}
  {value : Json}

/-- A keyword says more if more is known about the documents inside. -/
lemma keyword_refines {f g : Json → Json → Verdict} (h : ∀ d v, Refines (f d v) (g d v))
    (name : String) (argument : Json) :
    Refines (keyword isMatch f document keywords name argument value)
      (keyword isMatch g document keywords name argument value) := by
  -- the keywords that look at documents further inside; the others are the same on both sides
  unfold keyword
  split
  case h_1 => exact .bind fun d => h d value
  case h_5 => exact .negate (h argument value)
  case h_6 => exact .bind fun ds => .any fun d _ => h d value
  case h_7 => exact .bind fun ds => .every fun d _ => h d value
  case h_8 => exact .bind fun properties => .every fun p _ => .elim (h p.2)
  case h_10 =>
    exact .bind fun patterns => .elim fun entries => .every fun p _ => .every fun e _ =>
      .ite (h p.2 e.2)
  case h_11 => exact .elim fun entries => .every fun e _ => .ite (h argument e.2)
  case h_12 => exact .bind fun ds => .elim fun items => .every fun p _ => h p.1 p.2
  case h_13 => exact .elim fun items => .every fun v _ => h argument v
  all_goals exact .rfl

lemma check_refines {steps steps' : Nat} (h : steps ≤ steps') (d value : Json) :
    Refines (check isMatch document steps d value) (check isMatch document steps' d value) := by
  induction steps generalizing steps' d value with
  | zero =>
    intro b hb
    cases hb
  | succ steps ih =>
    obtain ⟨more, rfl⟩ := Nat.exists_eq_add_of_le' (Nat.lt_of_succ_le h)
    have hmore : steps ≤ more + steps := Nat.le_add_left steps more
    cases d with
    | obj keywords => exact .every fun k _ => keyword_refines (ih hmore) k.1 k.2
    | _ => exact .rfl

/-- Definitions beside them do not change what keywords say. -/
lemma keyword_append_defs {f : Json → Json → Verdict} (definitions : Json) (name : String)
    (argument : Json) :
    keyword isMatch f document (keywords ++ [("$defs", definitions)]) name argument value =
      keyword isMatch f document keywords name argument value := by
  have hget : ∀ other, other ≠ "$defs" →
      Entries.get? other (keywords ++ [("$defs", definitions)]) = Entries.get? other keywords := by
    intro other hother
    rw [Entries.get?_append, Entries.get?, if_neg hother.symm, Entries.get?, Option.or_none]
  have hfront : frontLength (keywords ++ [("$defs", definitions)]) = frontLength keywords := by
    rw [frontLength, frontLength, hget _ (by decide)]
  have hadditional : isAdditional isMatch (keywords ++ [("$defs", definitions)]) =
      isAdditional isMatch keywords := by
    funext key
    rw [isAdditional, isAdditional, hget _ (by decide), hget _ (by decide)]
  unfold keyword
  rw [hfront, hadditional]

end

/-! ## Rules for the keywords -/

/-- A keyword of a document holds of a value. -/
def Holds (isMatch : String → String → Bool) (document : Json) (keywords : List (String × Json))
    (value : Json) (k : String × Json) : Prop :=
  ∃ steps, keyword isMatch (check isMatch document steps) document keywords k.1 k.2 value =
    some true

section

variable {isMatch : String → String → Bool} {document : Json} {keywords : List (String × Json)}
  {value d : Json}

/-- A document holds if and only if all its keywords do. -/
lemma fits_obj_iff : Fits isMatch document (obj keywords) value ↔
    ∀ k ∈ keywords, Holds isMatch document keywords value k := by
  constructor
  · rintro ⟨_ | steps, h⟩ k hk
    · cases h
    · exact ⟨steps, every_eq_true.1 h k hk⟩
  · intro h
    obtain ⟨steps, hsteps⟩ := exists_every_eq_true
      (fun hle k => keyword_refines (check_refines hle) k.1 k.2) h
    exact ⟨steps + 1, hsteps⟩

/-- The definitions of a document do not say anything about values. -/
lemma fits_append_defs (definitions : Json) (h : Fits isMatch document (obj keywords) value) :
    Fits isMatch document (obj (keywords ++ [("$defs", definitions)])) value := by
  refine fits_obj_iff.2 fun k hk => ?_
  rcases List.mem_append.1 hk with hkeyword | hdefs
  · obtain ⟨steps, hsteps⟩ := fits_obj_iff.1 h k hkeyword
    exact ⟨steps, (keyword_append_defs definitions k.1 k.2).trans hsteps⟩
  · obtain rfl := List.mem_singleton.1 hdefs
    exact ⟨0, rfl⟩

lemma fits_of_append_defs {definitions : Json}
    (h : Fits isMatch document (obj (keywords ++ [("$defs", definitions)])) value) :
    Fits isMatch document (obj keywords) value := by
  refine fits_obj_iff.2 fun k hk => ?_
  obtain ⟨steps, hsteps⟩ := fits_obj_iff.1 h k (List.mem_append_left _ hk)
  exact ⟨steps, (keyword_append_defs definitions k.1 k.2).symm.trans hsteps⟩

lemma holds_type {name : String} (h : value.hasType name = true) :
    Holds isMatch document keywords value ("type", str name) := ⟨0, congrArg some h⟩

lemma holds_type_iff {name : String} :
    Holds isMatch document keywords value ("type", str name) ↔ value.hasType name = true :=
  ⟨fun ⟨_, h⟩ => Option.some.inj h, holds_type⟩

/-- No value is other than any value. -/
lemma not_holds_not_any : ¬ Holds isMatch document keywords value ("not", obj []) := by
  rintro ⟨steps, h⟩
  have hfalse : check isMatch document steps (obj []) value = some false := negate_eq_some.1 h
  cases steps with
  | zero => cases hfalse
  | succ steps =>
    obtain ⟨k, hk, -⟩ := every_eq_false.1 hfalse
    cases hk

lemma holds_const_iff {constant : Json} :
    Holds isMatch document keywords value ("const", constant) ↔ constant.same value = true := by
  constructor
  · rintro ⟨_, h⟩
    exact Option.some.inj h
  · intro h
    exact ⟨0, congrArg some h⟩

lemma holds_anyOf {ds : List Json} (hd : d ∈ ds) (h : Fits isMatch document d value) :
    Holds isMatch document keywords value ("anyOf", arr ds) := by
  obtain ⟨steps, hsteps⟩ := h
  exact ⟨steps, any_eq_true.2 ⟨d, hd, hsteps⟩⟩

lemma holds_anyOf_iff {ds : List Json} :
    Holds isMatch document keywords value ("anyOf", arr ds) ↔
      ∃ d ∈ ds, Fits isMatch document d value := by
  constructor
  · rintro ⟨steps, h⟩
    obtain ⟨d, hd, hsteps⟩ := any_eq_true.1 h
    exact ⟨d, hd, steps, hsteps⟩
  · rintro ⟨d, hd, h⟩
    exact holds_anyOf hd h

/-- What holds under a condition is asked only there. -/
lemma exists_ite_check_iff {c : Prop} [Decidable c] :
    (∃ steps, (if c then check isMatch document steps d value else some true) = some true) ↔
      (c → Fits isMatch document d value) := by
  split
  case isTrue hc => exact ⟨fun h _ => h, fun h => h hc⟩
  case isFalse hc => exact ⟨fun _ h => absurd h hc, fun _ => ⟨0, rfl⟩⟩

lemma holds_patternProperties_iff {patterns entries : List (String × Json)} :
    Holds isMatch document keywords (obj entries) ("patternProperties", obj patterns) ↔
      ∀ p ∈ patterns, ∀ e ∈ entries, isMatch p.1 e.1 = true → Fits isMatch document p.2 e.2 := by
  let entry (p : String × Json) (steps : Nat) (e : String × Json) : Verdict :=
    if isMatch p.1 e.1 then check isMatch document steps p.2 e.2 else some true
  have hentry (p : String × Json) {m n : Nat} (hle : m ≤ n) (e : String × Json) :
      Refines (entry p m e) (entry p n e) := .ite (check_refines hle p.2 e.2)
  calc Holds isMatch document keywords (obj entries) ("patternProperties", obj patterns)
      ↔ ∃ steps, every (fun p => every (entry p steps) entries) patterns = some true := Iff.rfl
    _ ↔ ∀ p ∈ patterns, ∃ steps, every (entry p steps) entries = some true :=
      exists_every_eq_true_iff fun hle p => .every fun e _ => hentry p hle e
    _ ↔ ∀ p ∈ patterns, ∀ e ∈ entries, isMatch p.1 e.1 = true → Fits isMatch document p.2 e.2 :=
      forall₂_congr fun p _ => (exists_every_eq_true_iff (hentry p)).trans
        (forall₂_congr fun e _ => exists_ite_check_iff)

lemma holds_additionalProperties_iff {entries : List (String × Json)} :
    Holds isMatch document keywords (obj entries) ("additionalProperties", d) ↔
      ∀ e ∈ entries, isAdditional isMatch keywords e.1 = true → Fits isMatch document d e.2 := by
  let entry (steps : Nat) (e : String × Json) : Verdict :=
    if isAdditional isMatch keywords e.1 then check isMatch document steps d e.2 else some true
  calc Holds isMatch document keywords (obj entries) ("additionalProperties", d)
      ↔ ∃ steps, every (entry steps) entries = some true := Iff.rfl
    _ ↔ ∀ e ∈ entries, ∃ steps, entry steps e = some true :=
      exists_every_eq_true_iff fun hle e => .ite (check_refines hle d e.2)
    _ ↔ ∀ e ∈ entries, isAdditional isMatch keywords e.1 = true → Fits isMatch document d e.2 :=
      forall₂_congr fun e _ => exists_ite_check_iff

lemma holds_prefixItems {ds items : List Json}
    (h : ∀ p ∈ ds.zip items, Fits isMatch document p.1 p.2) :
    Holds isMatch document keywords (arr items) ("prefixItems", arr ds) :=
  exists_every_eq_true (fun hle p => check_refines hle p.1 p.2) h

lemma holds_prefixItems_iff {ds items : List Json} :
    Holds isMatch document keywords (arr items) ("prefixItems", arr ds) ↔
      ∀ p ∈ ds.zip items, Fits isMatch document p.1 p.2 :=
  exists_every_eq_true_iff fun hle p => check_refines hle p.1 p.2

lemma holds_items {items : List Json}
    (h : ∀ v ∈ items.drop (frontLength keywords), Fits isMatch document d v) :
    Holds isMatch document keywords (arr items) ("items", d) :=
  exists_every_eq_true (fun hle v => check_refines hle d v) h

lemma holds_items_iff {items : List Json} :
    Holds isMatch document keywords (arr items) ("items", d) ↔
      ∀ v ∈ items.drop (frontLength keywords), Fits isMatch document d v :=
  exists_every_eq_true_iff fun hle v => check_refines hle d v

lemma holds_minItems {items : List Json} {n : Nat} (h : n ≤ items.length) :
    Holds isMatch document keywords (arr items) ("minItems", int n) :=
  ⟨0, congrArg some (decide_eq_true (Rat.intCast_le_intCast.2 (Int.ofNat_le.2 h)))⟩

lemma holds_minItems_iff {items : List Json} {n : Nat} :
    Holds isMatch document keywords (arr items) ("minItems", int n) ↔ n ≤ items.length := by
  refine ⟨?_, holds_minItems⟩
  rintro ⟨_, h⟩
  exact Int.ofNat_le.1 (Rat.intCast_le_intCast.1 (of_decide_eq_true (Option.some.inj h)))

lemma holds_maxItems {items : List Json} {n : Nat} (h : items.length ≤ n) :
    Holds isMatch document keywords (arr items) ("maxItems", int n) :=
  ⟨0, congrArg some (decide_eq_true (Rat.intCast_le_intCast.2 (Int.ofNat_le.2 h)))⟩

end

end Json

end ValueSchema
