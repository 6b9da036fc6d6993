/-
# Reading type texts

A type text is read token by token, with a stack of what is still open: a bracket, a connective that
waits for more members, a `keyof` that waits for its subject.  Brackets bind closer than `keyof`,
and a text does not tell whether they were meant to stand outside of it: an array of keys is written
like the keys of an array.  `hoistKeys` moves the brackets inside, and nothing else is left open by
a text: two type expressions have the same text if and only if they are the same after that, apart
from origins.
-/
import ValueSchema.Proofs.Schema.Storage
import ValueSchema.Proofs.TypeText.Token

namespace ValueSchema

/-- The schema that a connective composes. -/
def Connective.compose : Connective → List Schema → Schema
  | .union => .union
  | .intersection => .intersection

namespace Schema

/-! ## Brackets inside of `keyof` -/

/-- Applies a function to what stands behind the `keyof`s at the front of a schema without
origins. -/
def underKeys (f : Schema → Schema) (s : Schema) : Schema :=
  match s with
  | keys subject none => keys (underKeys f subject) none
  | s => f s
  termination_by structural s

/-- Moves the brackets of an array or an access inside of the `keyof`s at the front of its target,
and forgets the origin. -/
def hoist : Schema → Schema
  | array item => underKeys array item
  | access target key _ => underKeys (fun t => access t key none) target
  | s => s.mapOrigin fun _ => none

/-- A schema as its text is read: all brackets stand inside of the `keyof` before them. -/
def hoistKeys : Schema → Schema := transform (fun _ => none) hoist

lemma hoistKeys_eq (s : Schema) : s.hoistKeys = (s.mapChildren hoistKeys).hoist := by
  rw [hoistKeys, transform_eq]
  rfl

/-- Whether a schema is an array of keys or an access to keys. -/
def bracketsKeys : Schema → Bool
  | array (keys ..) | access (keys ..) .. => true
  | _ => false

section

variable (s target key : Schema) (o : Option NodeId) (items : List Schema)

lemma hoistKeys_array : (array s).hoistKeys = underKeys array s.hoistKeys := hoistKeys_eq _

lemma hoistKeys_access : (access target key o).hoistKeys =
    underKeys (fun t => access t key.hoistKeys none) target.hoistKeys := hoistKeys_eq _

lemma hoistKeys_keys : (keys s o).hoistKeys = keys s.hoistKeys none := hoistKeys_eq _

lemma hoistKeys_union : (union items).hoistKeys = union (items.map hoistKeys) := hoistKeys_eq _

lemma hoistKeys_intersection :
    (intersection items).hoistKeys = intersection (items.map hoistKeys) := hoistKeys_eq _

lemma hoistKeys_tupleOf : (tupleOf items).hoistKeys = tupleOf (items.map hoistKeys) := by
  rw [hoistKeys_eq, tupleOf, tupleOf, List.map_map]
  rfl

end

end Schema

/-! ## The reader -/

open Schema

/-- What is open while a type text is read. -/
inductive Frame where
  | keyof
  | group
  /-- A tuple, with its elements so far. -/
  | elements (items : List Schema)
  /-- An opening bracket after a type. -/
  | subscript (target : Schema)
  /-- A connective, with its members so far. -/
  | members (connective : Connective) (items : List Schema)

namespace Frame

/-- Whether an operand is complete as soon as it has been read. -/
def isOuter : List Frame → Bool
  | keyof :: _ | members .. :: _ => false
  | _ => true

/-- Closes the `keyof`s around an operand. -/
def settle : List Frame → Schema → List Frame × Schema
  | keyof :: frames, s => settle frames (keys s none)
  | frames, s => (frames, s)

/-- Closes what ends with an operand. -/
def finish (frames : List Frame) (s : Schema) : List Frame × Schema :=
  match settle frames s with
  | (members connective items :: frames, t) => (frames, connective.compose (items ++ [t]))
  | settled => settled

/-- What is open, and the type just read if it can still be followed by brackets. -/
abbrev State := List Frame × Option Schema

/-- Reads a token.  Nothing is asked of a row of tokens that is not the text of a type. -/
def step : State → TypeToken → State
  | (frames, none), .word kind => (frames, some (plain kind))
  | (frames, none), .quoted text => (frames, some (string text))
  | (frames, none), .keyof => (keyof :: frames, none)
  | (frames, none), .openParen => (group :: frames, none)
  | (frames, none), .openBracket => (elements [] :: frames, none)
  | (frames, some s), .openBracket => (subscript s :: frames, none)
  | (elements _ :: frames, none), .closeBracket => (frames, some (tupleOf []))
  | (subscript target :: frames, none), .closeBracket => (frames, some (array target))
  | (frames, some s), .closeBracket =>
    match finish frames s with
    | (elements items :: frames, t) => (frames, some (tupleOf (items ++ [t])))
    | (subscript target :: frames, t) => (frames, some (access target t none))
    | (frames, t) => (frames, some t)
  | (frames, some s), .closeParen =>
    match finish frames s with
    | (group :: frames, t) => (frames, some t)
    | (frames, t) => (frames, some t)
  | (frames, some s), .comma =>
    match finish frames s with
    | (elements items :: frames, t) => (elements (items ++ [t]) :: frames, none)
    | (frames, t) => (frames, some t)
  | (frames, some s), .join connective =>
    match settle frames s with
    | (members _ items :: frames, t) => (members connective (items ++ [t]) :: frames, none)
    | (frames, t) => (members connective [t] :: frames, none)
  | state, _ => state

/-- Reads a row of tokens. -/
def run (state : State) (tokens : List TypeToken) : State := tokens.foldl step state

lemma run_append (state : State) (x y : List TypeToken) :
    run state (x ++ y) = run (run state x) y := List.foldl_append

lemma run_singleton (state : State) (token : TypeToken) : run state [token] = step state token :=
  rfl

/-- The state after an operand has been read: its `keyof`s are still open. -/
def push (frames : List Frame) (s : Schema) : State :=
  match s with
  | keys subject none => push (keyof :: frames) subject
  | s => (frames, some s)
  termination_by structural s

lemma exists_push (frames : List Frame) (s : Schema) :
    ∃ frames' t, push frames s = (frames', some t) ∧ settle frames' t = settle frames s := by
  induction s using Schema.induction generalizing frames with
  | step s ih =>
    unfold push
    split
    · exact ih _ (List.mem_singleton_self _) (keyof :: frames)
    · exact ⟨frames, _, rfl, rfl⟩

/-- What follows an operand belongs to what stands behind its `keyof`s. -/
lemma run_push {f : Schema → Schema} {tokens : List TypeToken}
    (h : ∀ frames s, run (frames, some s) tokens = push frames (f s)) (frames : List Frame)
    (s : Schema) : run (push frames s) tokens = push frames (underKeys f s) := by
  induction s using Schema.induction generalizing frames with
  | step s ih =>
    unfold underKeys
    split
    · rw [push, ih _ (List.mem_singleton_self _), push]
    · rename_i hs
      rw [push, h]
      exact hs

lemma settle_of_isOuter {frames : List Frame} (h : isOuter frames = true) (s : Schema) :
    settle frames s = (frames, s) := by
  unfold settle
  split
  · cases h
  · rfl

lemma finish_of_settle {frames frames' : List Frame} {s t : Schema} (h : isOuter frames' = true)
    (hsettle : settle frames s = (frames', t)) : finish frames s = (frames', t) := by
  unfold finish
  rw [hsettle]
  split
  · rename_i heq
    obtain rfl := (Prod.mk.inj heq).1
    cases h
  · rfl

end Frame

/-! ## Type expressions are read back -/

namespace Schema

open ValueSchema.Frame

/-- A schema is read back where it is a part of another type. -/
def ReadsBack (s : Schema) : Prop :=
  ∀ frames, run (frames, none) s.operand = push frames s.hoistKeys

/-- A schema is read back where it stands alone or between brackets. -/
def ReadsWhole (s : Schema) : Prop :=
  ∀ frames, isOuter frames = true →
    ∃ frames' t, run (frames, none) s.tokens = (frames', some t) ∧
      finish frames' t = (frames, s.hoistKeys)

variable {s : Schema} {items : List Schema} {frames : List Frame}

lemma ReadsBack.whole (h : s.ReadsBack) (hs : s.bindsLoosely = false) : s.ReadsWhole := by
  intro frames houter
  obtain ⟨frames', t, hpush, hsettle⟩ := exists_push frames s.hoistKeys
  refine ⟨frames', t, ?_, ?_⟩
  · rw [← hpush, ← h frames, operand, operandTokens, if_neg (by rw [hs]; decide)]
  · exact finish_of_settle houter (hsettle.trans (settle_of_isOuter houter _))

/-- Parentheses make one operand of several. -/
lemma ReadsWhole.back (h : s.ReadsWhole) (hs : s.bindsLoosely = true)
    (hread : ∀ frames, push frames s.hoistKeys = (frames, some s.hoistKeys)) : s.ReadsBack := by
  intro frames
  obtain ⟨frames', t, hrun, hfinish⟩ := h (group :: frames) rfl
  rw [operand, operandTokens, if_pos hs, hread]
  calc run (frames, none) (.openParen :: s.tokens ++ [.closeParen])
      = run (run (group :: frames, none) s.tokens) [.closeParen] := run_append ..
    _ = step (frames', some t) .closeParen := by rw [hrun]; rfl
    _ = (frames, some s.hoistKeys) := by rw [step, hfinish]

/-- The members after the first one are read back. -/
lemma exists_run_members (connective : Connective) (next : Schema) (rest before : List Schema)
    (h : ∀ s ∈ next :: rest, s.ReadsBack) :
    ∃ frames' t, run (members connective before :: frames, none)
        ([TypeToken.join connective].intercalate ((next :: rest).map operand)) =
          (frames', some t) ∧
      finish frames' t =
        (frames, connective.compose (before ++ (next :: rest).map hoistKeys)) := by
  obtain ⟨hnext, hrest⟩ := List.forall_mem_cons.1 h
  obtain ⟨frames', t, hpush, hsettle⟩ := exists_push (members connective before :: frames)
    next.hoistKeys
  cases rest with
  | nil =>
    refine ⟨frames', t, ?_, ?_⟩
    · rw [List.map_singleton, List.intercalate_singleton, hnext, hpush]
    · rw [finish, hsettle]
      rfl
  | cons after rest =>
    obtain ⟨frames'', u, hrun, hfinish⟩ := exists_run_members connective after rest
      (before ++ [next.hoistKeys]) hrest
    have hjoin : run (frames', some t) [.join connective] =
        (members connective (before ++ [next.hoistKeys]) :: frames, none) := by
      rw [run_singleton, step, hsettle]
      rfl
    refine ⟨frames'', u, ?_, ?_⟩
    · rw [List.map_cons, List.map_cons, List.intercalate_cons_cons, run_append, run_append, hnext,
        hpush, hjoin, ← List.map_cons, hrun]
    · rw [hfinish, List.append_assoc]
      rfl

/-- A union or an intersection of at least two members is read back. -/
lemma readsWhole_compose (connective : Connective) {items : List Schema}
    (htokens : s.tokens = [TypeToken.join connective].intercalate (items.map operand))
    (hhoist : s.hoistKeys = connective.compose (items.map hoistKeys))
    (hlength : 2 ≤ items.length) (h : ∀ s ∈ items, s.ReadsBack) : s.ReadsWhole := by
  intro frames houter
  match items, hlength with
  | first :: next :: rest, _ =>
    obtain ⟨hfirst, hrest⟩ := List.forall_mem_cons.1 h
    obtain ⟨frames', t, hpush, hsettle⟩ := exists_push frames first.hoistKeys
    rw [settle_of_isOuter houter] at hsettle
    have hjoin : run (frames', some t) [.join connective] =
        (members connective [first.hoistKeys] :: frames, none) := by
      rw [run_singleton, step, hsettle]
      split
      · rename_i heq
        obtain rfl := (Prod.mk.inj heq).1
        cases houter
      · rename_i heq
        obtain ⟨rfl, rfl⟩ := Prod.mk.inj heq
        rfl
    obtain ⟨frames'', u, hrun, hfinish⟩ := exists_run_members connective next rest
      [first.hoistKeys] hrest
    refine ⟨frames'', u, ?_, ?_⟩
    · rw [htokens, List.map_cons, List.map_cons, List.intercalate_cons_cons, run_append,
        run_append, hfirst, hpush, hjoin, ← List.map_cons, hrun]
    · rw [hfinish, hhoist]
      rfl

/-- The elements of a tuple are read back. -/
lemma run_elements (next : Schema) (rest before : List Schema)
    (h : ∀ s ∈ next :: rest, s.ReadsWhole) :
    run (elements before :: frames, none)
        ([TypeToken.comma].intercalate ((next :: rest).map tokens) ++ [.closeBracket]) =
      (frames, some (tupleOf (before ++ (next :: rest).map hoistKeys))) := by
  obtain ⟨hnext, hrest⟩ := List.forall_mem_cons.1 h
  obtain ⟨frames', t, hrun, hfinish⟩ := hnext (elements before :: frames) rfl
  cases rest with
  | nil =>
    rw [List.map_singleton, List.intercalate_singleton, run_append, hrun]
    rw [run_singleton, step, hfinish]
    rfl
  | cons after rest =>
    have hcomma : run (frames', some t) [.comma] =
        (elements (before ++ [next.hoistKeys]) :: frames, none) := by
      rw [run_singleton, step, hfinish]
    rw [List.map_cons, List.map_cons, List.intercalate_cons_cons, List.append_assoc,
      List.append_assoc, run_append, run_append, hrun, hcomma, ← List.map_cons,
      run_elements after rest _ hrest, List.append_assoc]
    rfl

lemma operand_eq (hs : s.bindsLoosely = false) : s.operand = s.tokens := by
  rw [operand, operandTokens, hs]
  rfl

/-- Every type expression is read back. -/
lemma readsBack (hs : s.IsTypeExpression) : s.ReadsBack ∧ s.ReadsWhole := by
  have tight : ∀ {s : Schema}, s.bindsLoosely = false → s.ReadsBack → s.ReadsBack ∧ s.ReadsWhole :=
    fun hs h => ⟨h, h.whole hs⟩
  induction hs with
  | primitive | string => exact tight rfl fun _ => rfl
  | @array item _ ih =>
    refine tight rfl fun frames => ?_
    rw [operand_eq rfl, tokens, run_append, ← operand, ih.1, hoistKeys_array]
    refine run_push (fun frames s => ?_) frames item.hoistKeys
    rw [push]
    · rfl
    · simp
  | @tuple items _ ih =>
    refine tight rfl fun frames => ?_
    rw [operand_eq rfl, tupleOf, tokens, tokensOfEach_eq_map, ← tupleOf, hoistKeys_tupleOf]
    cases items with
    | nil => rfl
    | cons next rest => exact run_elements next rest [] fun s hs => (ih s hs).2
  | @union items hlength h ih =>
    have hwhole : (union items).ReadsWhole :=
      readsWhole_compose .union (by rw [tokens, zipWith_operandTokens])
        (hoistKeys_union items) hlength fun s hs => (ih s hs).1
    exact ⟨hwhole.back rfl fun frames => by rw [hoistKeys_union]; rfl, hwhole⟩
  | @intersection items hlength h ih =>
    have hwhole : (intersection items).ReadsWhole :=
      readsWhole_compose .intersection (by rw [tokens, zipWith_operandTokens])
        (hoistKeys_intersection items) hlength fun s hs => (ih s hs).1
    exact ⟨hwhole.back rfl fun frames => by rw [hoistKeys_intersection]; rfl, hwhole⟩
  | @keys subject o h ih =>
    refine tight rfl fun frames => ?_
    rw [operand_eq rfl, tokens, ← operand, hoistKeys_keys]
    exact ih.1 (keyof :: frames)
  | @access target key o _ _ ihtarget ihkey =>
    refine tight rfl fun frames => ?_
    rw [operand_eq rfl, tokens, List.append_assoc, run_append, ← operand, ihtarget.1,
      hoistKeys_access]
    refine run_push (fun frames s => ?_) frames target.hoistKeys
    obtain ⟨frames', t, hrun, hfinish⟩ := ihkey.2 (subscript s :: frames) rfl
    calc run (frames, some s) (.openBracket :: key.tokens ++ [.closeBracket])
        = run (run (subscript s :: frames, none) key.tokens) [.closeBracket] := run_append ..
      _ = step (frames', some t) .closeBracket := by rw [hrun, run_singleton]
      _ = (frames, some (access s key.hoistKeys none)) := by rw [step, hfinish]

/-! ## Texts and schemas -/

lemma bindsLoosely_underKeys {f : Schema → Schema} (hf : ∀ s, (f s).bindsLoosely = false)
    (s : Schema) : (underKeys f s).bindsLoosely = false := by
  unfold underKeys
  split
  · rfl
  · exact hf _

/-- Brackets are written behind the operand, on whichever side of `keyof` they stand. -/
lemma typeText_underKeys {f : Schema → Schema} {brackets : String}
    (hf : ∀ s, (f s).bindsLoosely = false)
    (htext : ∀ s, (f s).typeText = operandText s s.typeText ++ brackets) (s : Schema) :
    (underKeys f s).typeText = operandText s s.typeText ++ brackets := by
  induction s using Schema.induction with
  | step s ih =>
    unfold underKeys
    split
    · rename_i subject
      rw [typeText, operandText, if_neg (by rw [bindsLoosely_underKeys hf]; decide),
        ih subject (List.mem_singleton_self _), operandText, typeText, String.append_assoc]
      rfl
    · exact htext s

lemma bindsLoosely_hoistKeys (s : Schema) : s.hoistKeys.bindsLoosely = s.bindsLoosely := by
  cases s with
  | array item => rw [hoistKeys_array, bindsLoosely_underKeys fun _ => rfl]; rfl
  | access target key o => rw [hoistKeys_access, bindsLoosely_underKeys fun _ => rfl]; rfl
  | _ => rw [hoistKeys_eq]; rfl

/-- Moving the brackets inside does not change the text. -/
lemma typeText_hoistKeys (hs : s.IsTypeExpression) : s.hoistKeys.typeText = s.typeText := by
  have operand : ∀ {s : Schema}, s.hoistKeys.typeText = s.typeText →
      operandText s.hoistKeys s.hoistKeys.typeText = operandText s s.typeText := by
    intro s h
    rw [operandText, operandText, bindsLoosely_hoistKeys, h]
  induction hs with
  | primitive | string => rfl
  | @array item _ ih =>
    rw [hoistKeys_array, typeText_underKeys (fun _ => rfl) (fun _ => rfl), operand ih]
    rfl
  | @tuple items _ ih =>
    have htexts : items.map (typeText ∘ hoistKeys) = items.map typeText := List.map_congr_left ih
    rw [hoistKeys_tupleOf, typeText_tupleOf, typeText_tupleOf, List.map_map, htexts]
  | @union items _ _ ih =>
    rw [hoistKeys_union, typeText_union, typeText_union, List.map_map]
    exact congrArg _ (List.map_congr_left fun s hs => operand (ih s hs))
  | @intersection items _ _ ih =>
    rw [hoistKeys_intersection, typeText_intersection, typeText_intersection, List.map_map]
    exact congrArg _ (List.map_congr_left fun s hs => operand (ih s hs))
  | keys _ ih =>
    rw [hoistKeys_keys, typeText, operand ih]
    rfl
  | @access target key o _ _ ihtarget ihkey =>
    have htext : ∀ t, (access t key.hoistKeys none).typeText =
        operandText t t.typeText ++ ("[" ++ key.typeText ++ "]") := by
      intro t
      rw [typeText, ihkey, String.append_assoc, String.append_assoc, String.append_assoc]
    rw [hoistKeys_access, typeText_underKeys (fun _ => rfl) htext, operand ihtarget, typeText,
      String.append_assoc, String.append_assoc, String.append_assoc]

lemma hoist_of_not_bracketsKeys (hs : s.bracketsKeys = false) :
    s.hoist = s.mapOrigin fun _ => none := by
  cases s with
  | array item =>
    cases item with
    | keys => cases hs
    | _ => rfl
  | access target =>
    cases target with
    | keys => cases hs
    | _ => rfl
  | _ => rfl

/-- Nothing is moved where no brackets stand directly outside of a `keyof`. -/
lemma hoistKeys_eq_eraseOrigins (hs : ∀ t ∈ s.subterms, t.bracketsKeys = false) :
    s.hoistKeys = s.eraseOrigins := by
  induction s using Schema.induction with
  | step s ih =>
    have hchildren : s.mapChildren hoistKeys = s.mapChildren eraseOrigins :=
      mapChildren_congr fun t ht => ih t ht fun u hu => hs u (mem_subterms_of_mem_children ht hu)
    have hself : (s.mapChildren eraseOrigins).bracketsKeys = false := by
      rw [← hs s (self_mem_subterms s)]
      cases s with
      | array item => cases item <;> rfl
      | access target => cases target <;> rfl
      | _ => rfl
    rw [hoistKeys_eq, eraseOrigins_eq, hchildren, hoist_of_not_bracketsKeys hself]

/-- Two type expressions have the same text if and only if they are the same, apart from origins,
once all brackets stand inside of the `keyof`s before them.  So the text tells everything about
type expressions without brackets directly outside of a `keyof`. -/
theorem typeText_eq_iff {s t : Schema} (hs : s.IsTypeExpression) (ht : t.IsTypeExpression) :
    (s.typeText = t.typeText ↔ s.hoistKeys = t.hoistKeys) ∧
      ((∀ u ∈ s.subterms, u.bracketsKeys = false) → (∀ u ∈ t.subterms, u.bracketsKeys = false) →
        (s.typeText = t.typeText ↔ s.eraseOrigins = t.eraseOrigins)) := by
  have hiff : s.typeText = t.typeText ↔ s.hoistKeys = t.hoistKeys := by
    constructor
    · intro h
      have htokens : s.tokens = t.tokens := by
        apply TypeToken.spell_injective
        rw [← toList_typeText hs, ← toList_typeText ht, h]
      obtain ⟨frames, u, hrun, hfinish⟩ := (readsBack hs).2 [] rfl
      obtain ⟨frames', v, hrun', hfinish'⟩ := (readsBack ht).2 [] rfl
      rw [htokens, hrun'] at hrun
      obtain ⟨rfl, hv⟩ := Prod.mk.inj hrun
      obtain rfl := Option.some.inj hv
      exact (Prod.mk.inj (hfinish.symm.trans hfinish')).2
    · intro h
      rw [← typeText_hoistKeys hs, ← typeText_hoistKeys ht, h]
  refine ⟨hiff, fun hsub htub => ?_⟩
  rw [hiff, hoistKeys_eq_eraseOrigins hsub, hoistKeys_eq_eraseOrigins htub]

/-- An array of the keys of texts. -/
def arrayOfKeys : Schema := array (keys (plain .string) none)

/-- The keys of an array of texts. -/
def keysOfArray : Schema := keys (array (plain .string)) none

theorem typeText_arrayOfKeys :
    arrayOfKeys.IsTypeExpression ∧ keysOfArray.IsTypeExpression ∧
      arrayOfKeys.typeText = keysOfArray.typeText ∧
      arrayOfKeys.eraseOrigins ≠ keysOfArray.eraseOrigins := by
  have harray : arrayOfKeys.IsTypeExpression := .array (.keys (.primitive _ _))
  have hkeys : keysOfArray.IsTypeExpression := .keys (.array (.primitive _ _))
  refine ⟨harray, hkeys, (typeText_eq_iff harray hkeys).1.2 rfl, fun h => ?_⟩
  cases h

end Schema

end ValueSchema
