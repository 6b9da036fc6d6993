/-
# The texts of keys and templates

A schema inside a template stands for the texts of its values: a literal for its own text, the types
of numbers, big integers and booleans for the texts that those are converted to, a union for the
texts of its members, and a template for what its items give one after the other.  Any other schema
may stand for every text.

The pattern of a schema matches each of these texts, as long as it is in one line: a dot does not
match the end of a line.
-/
import ValueSchema.Proofs.Pattern.Numeral

namespace ValueSchema

/-- A text without the ends of lines. -/
def Text.IsOneLine (text : String) : Prop := ∀ u ∈ utf16 text.toList, Regex.endsLine u = false

instance (text : String) : Decidable (Text.IsOneLine text) :=
  inferInstanceAs (Decidable (∀ u ∈ Text.utf16 text.toList, Regex.endsLine u = false))

lemma Text.isOneLine_append {text text' : String} :
    IsOneLine (text ++ text') ↔ IsOneLine text ∧ IsOneLine text' := by
  rw [IsOneLine, String.toList_append, utf16_append, List.forall_mem_append]
  rfl

namespace Schema

/-- Whether nothing is known of the texts of a schema, so that they can be any. -/
def admitsEveryText : Schema → Bool
  | primitive .number _ | primitive .bigint _ | primitive .boolean _ => false
  | literal _ | union _ | template _ => false
  | _ => true

/-- A schema stands for a text, as a key or inside a template. -/
inductive AdmitsText : Schema → String → Prop
  | literal (value : Literal) : AdmitsText (literal value) value.toText
  | number {o : Option NodeId} {x : Float} (hx : Number.isFinite x = true) :
      AdmitsText (primitive .number o) (Number.toText x)
  | bigint {o : Option NodeId} (n : ℤ) : AdmitsText (primitive .bigint o) (Integer.write n)
  | boolean {o : Option NodeId} (b : Bool) :
      AdmitsText (primitive .boolean o) (Literal.boolean b).toText
  | union {items : List Schema} {s : Schema} {text : String} (hs : s ∈ items)
      (h : AdmitsText s text) : AdmitsText (union items) text
  | blank : AdmitsText (template []) ""
  | template {s : Schema} {items : List Schema} {text rest : String} (h : AdmitsText s text)
      (hrest : AdmitsText (template items) rest) : AdmitsText (template (s :: items)) (text ++ rest)
  | every {s : Schema} (hs : s.admitsEveryText = true) (text : String) : AdmitsText s text

lemma patterns_eq_map (items : List Schema) : patterns items = items.map pattern := by
  induction items with
  | nil => rfl
  | cons s rest ih => rw [patterns, ih, List.map_cons]

lemma pattern_of_admitsEveryText {s : Schema} (h : s.admitsEveryText = true) :
    s.pattern = .anything := by
  cases s with
  | primitive kind =>
    cases kind with
    | number | bigint | boolean => cases h
    | _ => rfl
  | literal | union | template => cases h
  | _ => rfl

open Regex Pattern

lemma spans_literalTerms (text : List Char) : Spans (literalTerms text) (Text.utf16 text) := by
  rw [literalTerms]
  induction Text.utf16 text with
  | nil => exact .nil
  | cons u rest ih => exact (Spans.unit u).append ih

lemma spans_boolean (b : Bool) :
    Spans truth.terms (Text.utf16 (Literal.boolean b).toText.toList) := by
  cases b with
  | true => exact .group (.head _) (spans_literalTerms "true".toList)
  | false => exact .group (.tail _ (.head _)) (spans_literalTerms "false".toList)

lemma spans_anything {text : String} (h : Text.IsOneLine text) :
    Spans anything.terms (Text.utf16 text.toList) :=
  .star fun u hu => .any (h u hu)

/-- What the pattern of a member matches, the pattern of the union does. -/
lemma spans_union {items : List Schema} {s : Schema} {part : List Nat} (hs : s ∈ items)
    (h : Spans s.pattern.terms part) : Spans (union items).pattern.terms part := by
  refine .group ?_ h
  rw [termsAll_eq_map, patterns_eq_map, List.map_map]
  have hmem : s.pattern.terms ∈ items.map (terms ∘ pattern) := List.mem_map_of_mem hs
  cases hitems : items.map (terms ∘ pattern) with
  | nil => rw [hitems] at hmem; cases hmem
  | cons => rwa [hitems] at hmem

/-- The pattern of a schema matches the texts in one line that the schema stands for. -/
lemma AdmitsText.spans {s : Schema} {text : String} (h : s.AdmitsText text)
    (hline : Text.IsOneLine text) : Spans s.pattern.terms (Text.utf16 text.toList) := by
  induction h with
  | literal value => exact spans_literalTerms _
  | number hx => exact spans_number hx
  | bigint n => exact spans_integer n
  | boolean b => exact spans_boolean b
  | union hs _ ih => exact spans_union hs (ih hline)
  | blank => exact .nil
  | template _ _ ih ihrest =>
    obtain ⟨htext, hrest⟩ := Text.isOneLine_append.1 hline
    rw [String.toList_append, Text.utf16_append]
    exact (ih htext).append (ihrest hrest)
  | every hs =>
    rw [pattern_of_admitsEveryText hs]
    exact spans_anything hline

lemma matches_of_spans {p : Pattern} {text : String}
    (h : Spans p.terms (Text.utf16 text.toList)) : Matches p.anchored text := by
  have htakes := h (Text.utf16 text.toList) []
  rw [List.append_nil] at htakes
  exact matches_anchored_iff.2 htakes

lemma AdmitsText.matches {s : Schema} {text : String} (h : s.AdmitsText text)
    (hline : Text.IsOneLine text) : Matches s.pattern.anchored text :=
  matches_of_spans (h.spans hline)

end Schema

end ValueSchema
