/-
# Regular expressions

The part of the notation of ECMA-262 in which patterns are written: characters and classes of
characters, the dot, groups that are not captured, alternatives, the quantifiers `?`, `*` and `+`,
and the two anchors, without flags.  A text is a list of UTF-16 code units there, so a character
outside the basic plane counts twice, and a quantifier would apply to its second half.

What an expression matches is a relation between the rests of a text: it takes the text from one
rest to another.  An expression has a match in a text if it takes some rest of the text to some
other one.  The order in which an engine tries has no influence on that and is not modelled.
-/
import Mathlib.Logic.Relation
import ValueSchema.Text.Units

namespace ValueSchema

/-- The UTF-16 code units of a text. -/
def Text.utf16 (text : List Char) : List Nat := text.flatMap Text.units

/-- A term of a regular expression. -/
inductive Regex where
  /-- One code unit. -/
  | unit (value : Nat)
  /-- Any code unit that does not end a line. -/
  | any
  /-- A code unit from one of several ranges. -/
  | oneOf (ranges : List (Nat × Nat))
  /-- The start of the text. -/
  | start
  /-- The end of the text. -/
  | finish
  /-- Alternatives, each a list of terms. -/
  | group (alternatives : List (List Regex))
  /-- The term, or nothing. -/
  | optional (term : Regex)
  /-- The term any number of times. -/
  | star (term : Regex)
  /-- The term once or more. -/
  | plus (term : Regex)
deriving Inhabited

namespace Regex

/-! ## Matches -/

/-- The code units that end a line: line feed, carriage return, and the separators of lines and
paragraphs. -/
def endsLine (u : Nat) : Bool := u ∈ [0x0a, 0x0d, 0x2028, 0x2029]

mutual

/-- A term takes a text from one rest to another. -/
def Takes (text : List Nat) (r : Regex) : List Nat → List Nat → Prop :=
  match r with
  | unit value => fun s t => s = value :: t
  | any => fun s t => ∃ u, endsLine u = false ∧ s = u :: t
  | oneOf ranges => fun s t => ∃ u, (∃ range ∈ ranges, range.1 ≤ u ∧ u ≤ range.2) ∧ s = u :: t
  | start => fun s t => s = text ∧ s = t
  | finish => fun s t => s = [] ∧ s = t
  | group alternatives => TakesSome text alternatives
  | optional term => fun s t => Takes text term s t ∨ s = t
  | star term => Relation.ReflTransGen (Takes text term)
  | plus term => Relation.TransGen (Takes text term)
  termination_by structural r

/-- Some of several alternatives takes a text from one rest to another. -/
def TakesSome (text : List Nat) (alternatives : List (List Regex)) : List Nat → List Nat → Prop :=
  match alternatives with
  | [] => fun _ _ => False
  | terms :: others => fun s t => TakesAll text terms s t ∨ TakesSome text others s t
  termination_by structural alternatives

/-- Several terms, one after the other, take a text from one rest to another. -/
def TakesAll (text : List Nat) (terms : List Regex) : List Nat → List Nat → Prop :=
  match terms with
  | [] => fun s t => s = t
  | r :: others => Relation.Comp (Takes text r) (TakesAll text others)
  termination_by structural terms

end

/-- An expression has a match in a text. -/
def FoundIn (r : Regex) (text : String) : Prop :=
  ∃ s t, s <:+ Text.utf16 text.toList ∧ r.Takes (Text.utf16 text.toList) s t

/-! ## Parts of a text -/

lemma takesAll_append {text : List Nat} {terms terms' : List Regex} {s t : List Nat} :
    TakesAll text (terms ++ terms') s t ↔
      ∃ m, TakesAll text terms s m ∧ TakesAll text terms' m t := by
  induction terms generalizing s with
  | nil =>
    constructor
    · exact fun h => ⟨s, rfl, h⟩
    · rintro ⟨_, rfl, h⟩
      exact h
  | cons r others ih =>
    constructor
    · rintro ⟨m, hr, hrest⟩
      obtain ⟨n, hothers, hterms⟩ := ih.1 hrest
      exact ⟨n, ⟨m, hr, hothers⟩, hterms⟩
    · rintro ⟨n, ⟨m, hr, hothers⟩, hterms⟩
      exact ⟨m, hr, ih.2 ⟨n, hothers, hterms⟩⟩

lemma takesAll_singleton {text : List Nat} {r : Regex} {s t : List Nat} :
    TakesAll text [r] s t ↔ r.Takes text s t := by
  constructor
  · rintro ⟨_, h, rfl⟩
    exact h
  · exact fun h => ⟨t, h, rfl⟩

lemma takesSome_iff {text : List Nat} {alternatives : List (List Regex)} {s t : List Nat} :
    TakesSome text alternatives s t ↔ ∃ terms ∈ alternatives, TakesAll text terms s t := by
  induction alternatives with
  | nil => simp [TakesSome]
  | cons terms others ih => simp [TakesSome, ih]

/-- Some terms match a part of a text, wherever it stands. -/
def Spans (terms : List Regex) (part : List Nat) : Prop :=
  ∀ text rest, TakesAll text terms (part ++ rest) rest

namespace Spans

variable {terms terms' : List Regex} {r : Regex} {part part' : List Nat}

lemma nil : Spans [] [] := fun _ _ => rfl

lemma append (h : Spans terms part) (h' : Spans terms' part') :
    Spans (terms ++ terms') (part ++ part') := by
  intro text rest
  rw [List.append_assoc]
  exact takesAll_append.2 ⟨part' ++ rest, h text _, h' text rest⟩

lemma unit (u : Nat) : Spans [.unit u] [u] := fun _ _ => takesAll_singleton.2 rfl

lemma any {u : Nat} (h : endsLine u = false) : Spans [.any] [u] :=
  fun _ _ => takesAll_singleton.2 ⟨u, h, rfl⟩

lemma oneOf {ranges : List (Nat × Nat)} {range : Nat × Nat} {u : Nat} (hrange : range ∈ ranges)
    (hu : range.1 ≤ u ∧ u ≤ range.2) : Spans [.oneOf ranges] [u] :=
  fun _ _ => takesAll_singleton.2 ⟨u, ⟨range, hrange, hu⟩, rfl⟩

lemma group {alternatives : List (List Regex)} (hterms : terms ∈ alternatives)
    (h : Spans terms part) : Spans [.group alternatives] part :=
  fun text rest => takesAll_singleton.2 (takesSome_iff.2 ⟨terms, hterms, h text rest⟩)

lemma optional_nil : Spans [.optional r] [] := fun _ _ => takesAll_singleton.2 (Or.inr rfl)

lemma optional (h : Spans [r] part) : Spans [.optional r] part :=
  fun text rest => takesAll_singleton.2 (Or.inl (takesAll_singleton.1 (h text rest)))

lemma star (h : ∀ u ∈ part, Spans [r] [u]) : Spans [.star r] part := by
  intro text rest
  refine takesAll_singleton.2 ?_
  change Relation.ReflTransGen (r.Takes text) (part ++ rest) rest
  induction part with
  | nil => exact .refl
  | cons u part ih =>
    obtain ⟨hu, hpart⟩ := List.forall_mem_cons.1 h
    exact .head (takesAll_singleton.1 (hu text _)) (ih hpart)

lemma plus (hne : part ≠ []) (h : ∀ u ∈ part, Spans [r] [u]) : Spans [.plus r] part := by
  intro text rest
  refine takesAll_singleton.2 ?_
  obtain ⟨u, part, rfl⟩ := List.exists_cons_of_ne_nil hne
  obtain ⟨hu, hpart⟩ := List.forall_mem_cons.1 h
  exact .head' (takesAll_singleton.1 (hu text _)) (takesAll_singleton.1 (star hpart text rest))

end Spans

/-- Between the two anchors an expression has to take the text as a whole. -/
lemma foundIn_anchored {terms : List Regex} {text : String} :
    (group [start :: (terms ++ [finish])]).FoundIn text ↔
      TakesAll (Text.utf16 text.toList) terms (Text.utf16 text.toList) [] := by
  constructor
  · rintro ⟨_, _, -, h⟩
    obtain ⟨_, hmem, hall⟩ := takesSome_iff.1 h
    obtain rfl := List.mem_singleton.1 hmem
    obtain ⟨_, ⟨rfl, rfl⟩, hrest⟩ := hall
    obtain ⟨_, hterms, hfinish⟩ := takesAll_append.1 hrest
    obtain ⟨rfl, rfl⟩ := takesAll_singleton.1 hfinish
    exact hterms
  · intro h
    have hfinish : TakesAll (Text.utf16 text.toList) (terms ++ [finish])
        (Text.utf16 text.toList) [] := takesAll_append.2 ⟨[], h, takesAll_singleton.2 ⟨rfl, rfl⟩⟩
    refine ⟨_, [], List.suffix_refl _, takesSome_iff.2 ⟨_, List.mem_singleton_self _, ?_⟩⟩
    exact ⟨_, ⟨rfl, rfl⟩, hfinish⟩

/-! ## The notation -/

/-- The characters that have a meaning of their own. -/
def isSyntax (c : Char) : Bool :=
  c ∈ ['^', '$', '\\', '.', '*', '+', '?', '(', ')', '[', ']', '\x7b', '\x7d', '|']

/-- What has been read of a class and does not form a range yet. -/
inductive Pending where
  | nothing
  /-- A character. -/
  | one (u : Nat)
  /-- A character and a hyphen. -/
  | hyphen (u : Nat)

/-- The ranges of a class that ends here; a hyphen at its end stands for itself. -/
def Pending.close : Pending → List (Nat × Nat)
  | nothing => []
  | one u => [(u, u)]
  | hyphen u => [(u, u), ('-'.toNat, '-'.toNat)]

/-- What the next character is part of. -/
inductive Mode where
  | term
  /-- A backslash was read. -/
  | escape
  /-- An opening parenthesis was read. -/
  | opening
  /-- An opening parenthesis and a question mark were read. -/
  | question
  /-- A class, with what has been read of it. -/
  | set (ranges : List (Nat × Nat)) (pending : Pending)

/-- Alternatives that have been read, all with the last one first: those that are complete, and the
terms of the one that is not. -/
structure Level where
  complete : List (List Regex)
  terms : List Regex

/-- The alternatives, in their order. -/
def Level.alternatives (l : Level) : List (List Regex) := (l.terms.reverse :: l.complete).reverse

/-- What has been read: of the innermost group, and of those around it. -/
structure Reader where
  mode : Mode
  level : Level
  outer : List Level

namespace Reader

/-- Adds terms to what has been read. -/
def push (σ : Reader) (terms : List Regex) : Reader :=
  { σ with mode := .term, level.terms := terms.reverse ++ σ.level.terms }

/-- Whether a quantifier can follow. -/
def isQuantifiable : Regex → Bool
  | unit _ | any | oneOf _ | group _ => true
  | _ => false

/-- Applies a quantifier to the last term. -/
def quantify (σ : Reader) (quantifier : Regex → Regex) : Option Reader :=
  match σ.level.terms with
  | r :: others =>
    if isQuantifiable r then some { σ with level.terms := quantifier r :: others } else none
  | [] => none

/-- Reads a character of a class.  Characters outside the basic plane, negated classes and escapes
are left out. -/
def stepSet (σ : Reader) (ranges : List (Nat × Nat)) (pending : Pending) (c : Char) :
    Option Reader :=
  if c = ']' then some (σ.push [.oneOf (ranges ++ pending.close)])
  else if c = '^' ∨ c = '\\' ∨ 0x10000 ≤ c.toNat then none
  else match pending with
    | .nothing => some { σ with mode := .set ranges (.one c.toNat) }
    | .one u =>
      if c = '-' then some { σ with mode := .set ranges (.hyphen u) }
      else some { σ with mode := .set (ranges ++ [(u, u)]) (.one c.toNat) }
    | .hyphen u =>
      if u ≤ c.toNat then some { σ with mode := .set (ranges ++ [(u, c.toNat)]) .nothing }
      else none

/-- Reads a character of a term. -/
def stepTerm (σ : Reader) (c : Char) : Option Reader :=
  match c with
  | '\\' => some { σ with mode := .escape }
  | '(' => some { σ with mode := .opening }
  | '[' => some { σ with mode := .set [] .nothing }
  | '.' => some (σ.push [.any])
  | '^' => some (σ.push [.start])
  | '$' => some (σ.push [.finish])
  | '?' => σ.quantify .optional
  | '*' => σ.quantify .star
  | '+' => σ.quantify .plus
  | '|' => some { σ with level := ⟨σ.level.terms.reverse :: σ.level.complete, []⟩ }
  | ')' =>
    match σ.outer with
    | level :: outer => some (Reader.push ⟨.term, level, outer⟩ [.group σ.level.alternatives])
    | [] => none
  | c => if isSyntax c then none else some (σ.push ((Text.units c).map .unit))

/-- Reads a character. -/
def step (σ : Reader) (c : Char) : Option Reader :=
  match σ.mode with
  | .term => σ.stepTerm c
  | .escape => if isSyntax c then some (σ.push [.unit c.toNat]) else none
  | .opening => if c = '?' then some { σ with mode := .question } else none
  | .question => if c = ':' then some ⟨.term, ⟨[], []⟩, σ.level :: σ.outer⟩ else none
  | .set ranges pending => σ.stepSet ranges pending c

/-- Reads a text. -/
def run (σ : Reader) (text : List Char) : Option Reader := text.foldlM step σ

/-- Nothing has been read yet. -/
def initial : Reader := ⟨.term, ⟨[], []⟩, []⟩

/-- The expression that has been read, if nothing is left open. -/
def result? (σ : Reader) : Option Regex :=
  match σ.mode, σ.outer with
  | .term, [] => some (.group σ.level.alternatives)
  | _, _ => none

end Reader

/-- Reads an expression. -/
def read? (pattern : String) : Option Regex :=
  (Reader.initial.run pattern.toList).bind Reader.result?

/-- An `a`, and then any number of `b`s and digits. -/
example : read? "^a(?:b|[0-9])*$" = some (group [[start, unit 'a'.toNat,
    star (group [[unit 'b'.toNat], [oneOf [('0'.toNat, '9'.toNat)]]]), finish]]) := rfl

/-- A text matches an expression of the notation. -/
def Matches (pattern text : String) : Prop := ∃ r, read? pattern = some r ∧ r.FoundIn text

/-- A test for matches that is right about all expressions of the notation. -/
def IsDecidedBy (isMatch : String → String → Bool) : Prop :=
  ∀ pattern text, (read? pattern).isSome = true →
    (isMatch pattern text = true ↔ Matches pattern text)

open Classical in
/-- The test that asks for nothing else than a match. -/
noncomputable def search (pattern text : String) : Bool := decide (Matches pattern text)

open Classical in
lemma isDecidedBy_search : IsDecidedBy search := by
  intro pattern text _
  rw [search, decide_eq_true_iff]

end Regex

end ValueSchema
