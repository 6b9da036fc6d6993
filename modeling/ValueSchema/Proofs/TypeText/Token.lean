/-
# The tokens of type texts

The text of a type that is composed of primitives, quoted texts, brackets, `keyof` and the two
connectives is a row of tokens.  No token begins with another one, and a quoted text ends at the
first quote that is not escaped, so that a text falls into tokens in one way only.
-/
import Mathlib.Tactic.IntervalCases
import ValueSchema.Json.Parser
import ValueSchema.Schema.TypeText

namespace ValueSchema

/-! ## Quoted texts -/

namespace Json

open Text

/-- The escape of a control character by its number is read back. -/
lemma unicodeEscape?_hexPadded (lone : Option Char) {c : Char} (hc : c.toNat < 0x20)
    (rest : List Char) :
    unicodeEscape? lone (hexPadded 4 c.toNat ++ rest) = some (c, rest) := by
  have hall : ∀ n < 0x20,
      unicodeEscape? lone (hexPadded 4 n ++ rest) = some (Char.ofNat n, rest) := by
    intro n hn
    interval_cases n <;> rfl
  rw [hall c.toNat hc, Char.ofNat_toNat]

lemma stringBody?_quoteChar (lone : Option Char) (fuel : Nat) (c : Char) (rest read : List Char) :
    stringBody? lone (fuel + 1) (quoteChar c ++ rest) read =
      stringBody? lone fuel rest (c :: read) := by
  unfold quoteChar
  split_ifs with h1 h2 h3 h4 h5 h6 h7 h8
  case pos | pos | pos | pos | pos | pos | pos =>
    subst c
    rfl
  · simp only [List.cons_append, List.nil_append, stringBody?]
    rw [unicodeEscape?_hexPadded lone h8]
    rfl
  · rw [List.singleton_append, stringBody?, if_neg h8]
    · exact h1
    · exact fun _ hc _ => h2 hc
    · exact fun _ _ hc => absurd hc h2

/-- A quoted text is read back, whatever follows it. -/
lemma stringBody?_quote (lone : Option Char) {fuel : Nat} {cs : List Char}
    (hfuel : cs.length < fuel) (rest read : List Char) :
    stringBody? lone fuel (cs.flatMap quoteChar ++ '"' :: rest) read =
      some (String.ofList (read.reverse ++ cs), rest) := by
  induction cs generalizing fuel read with
  | nil =>
    obtain ⟨fuel, rfl⟩ := Nat.exists_eq_succ_of_ne_zero (Nat.ne_of_gt hfuel)
    rw [List.append_nil]
    rfl
  | cons c cs ih =>
    obtain ⟨fuel, rfl⟩ := Nat.exists_eq_succ_of_ne_zero (Nat.ne_zero_of_lt hfuel)
    rw [List.flatMap_cons, List.append_assoc, stringBody?_quoteChar,
      ih (Nat.lt_of_succ_lt_succ hfuel), List.reverse_cons, List.append_assoc]
    rfl

end Json

/-- A quoted text ends where its closing quote is. -/
lemma Text.eq_of_quote_append_eq {s t : String} {x y : List Char}
    (h : (quote s).toList ++ x = (quote t).toList ++ y) : s = t := by
  have hquote : ∀ (u : String) (z : List Char),
      (quote u).toList ++ z = '"' :: (u.toList.flatMap quoteChar ++ '"' :: z) := by
    intro u z
    rw [quote, String.toList_ofList, List.append_assoc]
    rfl
  rw [hquote, hquote, List.cons_inj_right] at h
  let fuel := max s.toList.length t.toList.length + 1
  have hs : s.toList.length < fuel := Nat.lt_succ_of_le (Nat.le_max_left ..)
  have ht : t.toList.length < fuel := Nat.lt_succ_of_le (Nat.le_max_right ..)
  have hread := congrArg (fun text => Json.stringBody? none fuel text []) h
  rw [Json.stringBody?_quote none hs, Json.stringBody?_quote none ht, Option.some_inj] at hread
  exact String.toList_inj.1 (String.ofList_inj.1 (Prod.mk.inj hread).1)

/-! ## Tokens -/

/-- The two ways to compose a type of alternatives or of parts. -/
inductive Connective where
  | union
  | intersection
deriving DecidableEq, Repr

/-- A token of a type text. -/
inductive TypeToken where
  /-- The name of a primitive type. -/
  | word (kind : Primitive)
  /-- A text in quotes. -/
  | quoted (text : String)
  | keyof
  | openParen
  | closeParen
  | openBracket
  | closeBracket
  /-- What stands between the elements of a tuple. -/
  | comma
  /-- What stands between the members of a union or an intersection. -/
  | join (connective : Connective)
deriving DecidableEq, Repr

namespace TypeToken

/-- How a token is written. -/
def text : TypeToken → String
  | word kind => kind.name
  | quoted s => Text.quote s
  | keyof => "keyof "
  | openParen => "("
  | closeParen => ")"
  | openBracket => "["
  | closeBracket => "]"
  | comma => ", "
  | join .union => " | "
  | join .intersection => " & "

/-- The tokens other than quoted texts. -/
def marks : List TypeToken :=
  Primitive.all.map word ++ [keyof, openParen, closeParen, openBracket, closeBracket, comma,
    join .union, join .intersection]

lemma mem_marks_or (a : TypeToken) : a ∈ marks ∨ ∃ s, a = quoted s := by
  cases a with
  | quoted s => exact Or.inr ⟨s, rfl⟩
  | word kind => exact Or.inl (by cases kind <;> decide)
  | join connective => exact Or.inl (by cases connective <;> decide)
  | _ => exact Or.inl (by decide)

/-- No mark begins with another one, -/
lemma eq_of_prefix_of_mem_marks :
    ∀ a ∈ marks, ∀ b ∈ marks, a.text.toList <+: b.text.toList → a = b := by
  decide +kernel

/-- and none begins with a quote. -/
lemma head?_of_mem_marks : ∀ a ∈ marks, (a.text.toList.head?.map (· == '"')) = some false := by
  decide +kernel

lemma append_ne_quoted {a : TypeToken} (ha : a ∈ marks) (s : String) (x y : List Char) :
    a.text.toList ++ x ≠ (quoted s).text.toList ++ y := by
  intro h
  have hhead := congrArg (fun cs => cs.head?.map (· == '"')) h
  have hmark := head?_of_mem_marks a ha
  cases htext : a.text.toList with
  | nil => simp [htext] at hmark
  | cons c cs =>
    rw [htext, List.head?_cons] at hmark
    rw [htext, List.cons_append, List.head?_cons, hmark, text, Text.quote,
      String.toList_ofList] at hhead
    cases hhead

/-- No token begins with another one. -/
lemma eq_of_text_append_eq {a b : TypeToken} {x y : List Char}
    (h : a.text.toList ++ x = b.text.toList ++ y) : a = b := by
  rcases mem_marks_or a with ha | ⟨s, rfl⟩ <;> rcases mem_marks_or b with hb | ⟨t, rfl⟩
  · rcases List.prefix_or_prefix_of_prefix (List.prefix_append a.text.toList x)
      (h ▸ List.prefix_append b.text.toList y) with hab | hba
    · exact eq_of_prefix_of_mem_marks a ha b hb hab
    · exact (eq_of_prefix_of_mem_marks b hb a ha hba).symm
  · exact absurd h (append_ne_quoted ha t x y)
  · exact absurd h.symm (append_ne_quoted hb s y x)
  · rw [Text.eq_of_quote_append_eq h]

lemma text_ne_nil (a : TypeToken) : a.text.toList ≠ [] := by
  rcases mem_marks_or a with ha | ⟨s, rfl⟩
  · intro h
    have hhead := head?_of_mem_marks a ha
    rw [h] at hhead
    cases hhead
  · simp [text, Text.quote]

/-- A row of tokens, written out. -/
def spell (tokens : List TypeToken) : List Char := tokens.flatMap (·.text.toList)

lemma spell_append (x y : List TypeToken) : spell (x ++ y) = spell x ++ spell y :=
  List.flatMap_append

/-- A text falls into tokens in one way only. -/
lemma spell_injective : Function.Injective spell := by
  intro x
  induction x with
  | nil =>
    rintro (_ | ⟨b, y⟩) h
    · rfl
    · exact absurd (List.append_eq_nil_iff.1 h.symm).1 b.text_ne_nil
  | cons a x ih =>
    rintro (_ | ⟨b, y⟩) h
    · exact absurd (List.append_eq_nil_iff.1 h).1 a.text_ne_nil
    · rw [spell, List.flatMap_cons, spell, List.flatMap_cons] at h
      obtain rfl := eq_of_text_append_eq h
      rw [ih (List.append_cancel_left h)]

end TypeToken

/-! ## Type expressions -/

namespace Schema

open TypeToken (spell spell_append)

/-- A schema composed of primitives and texts by arrays, tuples of required elements, unions and
intersections of at least two members, `keyof` and accesses. -/
inductive IsTypeExpression : Schema → Prop
  | primitive (kind : Primitive) (o : Option NodeId) : IsTypeExpression (primitive kind o)
  | string (text : String) : IsTypeExpression (string text)
  | array {item : Schema} (h : IsTypeExpression item) : IsTypeExpression (array item)
  | tuple {items : List Schema} (h : ∀ s ∈ items, IsTypeExpression s) :
      IsTypeExpression (tupleOf items)
  | union {items : List Schema} (hlength : 2 ≤ items.length)
      (h : ∀ s ∈ items, IsTypeExpression s) : IsTypeExpression (union items)
  | intersection {items : List Schema} (hlength : 2 ≤ items.length)
      (h : ∀ s ∈ items, IsTypeExpression s) : IsTypeExpression (intersection items)
  | keys {subject : Schema} {o : Option NodeId} (h : IsTypeExpression subject) :
      IsTypeExpression (keys subject o)
  | access {target key : Schema} {o : Option NodeId} (htarget : IsTypeExpression target)
      (hkey : IsTypeExpression key) : IsTypeExpression (access target key o)

/-- The tokens of a schema as a part of another type, from those of its text. -/
def operandTokens (s : Schema) (tokens : List TypeToken) : List TypeToken :=
  if s.bindsLoosely then .openParen :: tokens ++ [.closeParen] else tokens

mutual

/-- The tokens of the text of a type expression. -/
def tokens (s : Schema) : List TypeToken :=
  match s with
  | primitive kind _ => [.word kind]
  | literal (.string text) => [.quoted text]
  | array item => operandTokens item (tokens item) ++ [.openBracket, .closeBracket]
  | tuple items _ =>
    .openBracket :: [TypeToken.comma].intercalate (tokensOfEach items) ++ [.closeBracket]
  | union items =>
    [TypeToken.join .union].intercalate (items.zipWith operandTokens (tokensOfEach items))
  | intersection items =>
    [TypeToken.join .intersection].intercalate (items.zipWith operandTokens (tokensOfEach items))
  | keys subject _ => .keyof :: operandTokens subject (tokens subject)
  | access target key _ =>
    operandTokens target (tokens target) ++ .openBracket :: tokens key ++ [.closeBracket]
  | _ => []
  termination_by structural s

/-- The tokens of the texts of several type expressions. -/
def tokensOfEach (items : List Schema) : List (List TypeToken) :=
  match items with
  | [] => []
  | s :: rest => tokens s :: tokensOfEach rest
  termination_by structural items

end

/-- The tokens of a type expression as a part of another one. -/
def operand (s : Schema) : List TypeToken := operandTokens s s.tokens

lemma tokensOfEach_eq_map (items : List Schema) : tokensOfEach items = items.map tokens := by
  induction items with
  | nil => rfl
  | cons s rest ih => rw [tokensOfEach, ih, List.map_cons]

lemma typeTexts_eq_map (items : List Schema) : typeTexts items = items.map typeText := by
  induction items with
  | nil => rfl
  | cons s rest ih => rw [typeTexts, ih, List.map_cons]

/-! The texts of what is composed of several schemas, from the texts of these. -/

lemma typeText_union (items : List Schema) : (union items).typeText =
    String.intercalate " | " (items.map fun s => operandText s s.typeText) := by
  rw [typeText, typeTexts_eq_map, List.zipWith_map_right, List.zipWith_self]

lemma typeText_intersection (items : List Schema) : (intersection items).typeText =
    String.intercalate " & " (items.map fun s => operandText s s.typeText) := by
  rw [typeText, typeTexts_eq_map, List.zipWith_map_right, List.zipWith_self]

lemma typeText_tupleOf (items : List Schema) : (tupleOf items).typeText =
    "[" ++ String.intercalate ", " (items.map typeText) ++ "]" := by
  have helements : (items.zip (items.map fun _ => ElementFlag.required)).zipWith
      (fun e text => elementText e.1 e.2 text) (typeTexts items) = items.map typeText := by
    induction items with
    | nil => rfl
    | cons s rest ih => exact congrArg (typeText s :: ·) ih
  rw [tupleOf, typeText, helements]

lemma zipWith_operandTokens (items : List Schema) :
    items.zipWith operandTokens (tokensOfEach items) = items.map operand := by
  rw [tokensOfEach_eq_map, List.zipWith_map_right, List.zipWith_self]
  rfl

lemma spell_intercalate (mark : TypeToken) (rows : List (List TypeToken)) :
    spell ([mark].intercalate rows) = mark.text.toList.intercalate (rows.map spell) := by
  match rows with
  | [] => simp [spell]
  | [row] => simp
  | row :: next :: rest =>
    have ih := spell_intercalate mark (next :: rest)
    have hmark : spell [mark] = mark.text.toList := List.flatMap_singleton ..
    rw [List.intercalate_cons_cons, spell_append, spell_append, ih, hmark, List.map_cons,
      List.map_cons, List.map_cons, List.intercalate_cons_cons]

/-- Texts with a mark between them consist of their tokens and the mark. -/
lemma toList_intercalate_map {items : List Schema} {text : Schema → String}
    {row : Schema → List TypeToken} (mark : TypeToken)
    (h : ∀ s ∈ items, (text s).toList = spell (row s)) :
    (String.intercalate mark.text (items.map text)).toList =
      spell ([mark].intercalate (items.map row)) := by
  rw [String.toList_intercalate, spell_intercalate, List.map_map, List.map_map]
  exact congrArg _ (List.map_congr_left h)

lemma toList_operandText {s : Schema} (h : s.typeText.toList = spell s.tokens) :
    (operandText s s.typeText).toList = spell s.operand := by
  rw [operandText, operand, operandTokens]
  split
  · simp [h, spell, TypeToken.text]
  · exact h

/-- The text of a type expression consists of its tokens. -/
lemma toList_typeText {s : Schema} (hs : s.IsTypeExpression) :
    s.typeText.toList = spell s.tokens := by
  induction hs with
  | primitive kind => simp [typeText, tokens, spell, TypeToken.text]
  | string text => simp [string, typeText, literalText, tokens, spell, TypeToken.text]
  | array _ ih =>
    rw [typeText, String.toList_append, toList_operandText ih, tokens, spell_append]
    rfl
  | @tuple items _ ih =>
    have helements : (String.intercalate ", " (items.map typeText)).toList =
        spell ([TypeToken.comma].intercalate (items.map tokens)) := toList_intercalate_map .comma ih
    rw [typeText_tupleOf, String.toList_append, String.toList_append, helements, tupleOf, tokens,
      tokensOfEach_eq_map, spell_append]
    rfl
  | @union items _ _ ih =>
    rw [typeText_union, tokens, zipWith_operandTokens]
    exact toList_intercalate_map (.join .union) fun s hs => toList_operandText (ih s hs)
  | @intersection items _ _ ih =>
    rw [typeText_intersection, tokens, zipWith_operandTokens]
    exact toList_intercalate_map (.join .intersection) fun s hs => toList_operandText (ih s hs)
  | keys _ ih =>
    rw [typeText, String.toList_append, toList_operandText ih, tokens]
    rfl
  | access _ _ ihtarget ihkey =>
    rw [typeText, String.toList_append, String.toList_append, String.toList_append,
      toList_operandText ihtarget, ihkey, tokens, spell_append, spell_append]
    simp [operand, spell, TypeToken.text]

end Schema

end ValueSchema
