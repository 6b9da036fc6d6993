/-
# Patterns of templates

The texts that a template admits, as a regular expression.  A pattern is built from the items of the
template and then written in the notation of regular expressions.
-/
import ValueSchema.Schema.Basic

namespace ValueSchema

/-- A regular expression over the kinds of text that stand in templates. -/
inductive Pattern where
  /-- One fixed text. -/
  | text (value : String)
  /-- A number, with optional fraction and exponent. -/
  | number
  /-- An integer. -/
  | integer
  /-- One of the two truth values. -/
  | truth
  /-- Any text in one line. -/
  | anything
  /-- One of several patterns. -/
  | choice (items : List Pattern)
  /-- Several patterns, one after the other. -/
  | sequence (items : List Pattern)
deriving Inhabited

namespace Pattern

/-- Whether a character has a meaning of its own in regular expressions. -/
def isSpecial (c : Char) : Bool :=
  "\\.+*?()|[]\x7b\x7d^$".toList.contains c

/-- A fixed text, with the special characters escaped. -/
def escape (text : String) : String :=
  String.ofList (text.toList.flatMap fun c => if isSpecial c then ['\\', c] else [c])

/-- The expression for numbers. -/
def numberText : String := "-?(?:0|[1-9][0-9]*)(?:\\.[0-9]+)?(?:[eE][+-]?[0-9]+)?"

mutual

/-- The expression of a pattern. -/
def render (p : Pattern) : String :=
  match p with
  | text value => escape value
  | number => numberText
  | integer => "-?[0-9]+"
  | truth => "(?:true|false)"
  | anything => ".*"
  | choice items => "(?:" ++ String.intercalate "|" (renderAll items) ++ ")"
  | sequence items => String.join (renderAll items)
  termination_by structural p

/-- The expressions of several patterns. -/
def renderAll (items : List Pattern) : List String :=
  match items with
  | [] => []
  | p :: rest => render p :: renderAll rest
  termination_by structural items

end

/-- An expression that has to match a text as a whole. -/
def anchored (p : Pattern) : String := "^" ++ p.render ++ "$"

end Pattern

namespace Schema

mutual

/-- The pattern of an item of a template. -/
def pattern (s : Schema) : Pattern :=
  match s with
  | literal value => .text value.toText
  | primitive .number _ => .number
  | primitive .bigint _ => .integer
  | primitive .boolean _ => .truth
  | union items => .choice (patterns items)
  | template items => .sequence (patterns items)
  | _ => .anything
  termination_by structural s

/-- The patterns of several items. -/
def patterns (items : List Schema) : List Pattern :=
  match items with
  | [] => []
  | s :: rest => pattern s :: patterns rest
  termination_by structural items

end

end Schema

end ValueSchema
