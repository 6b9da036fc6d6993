/-
# Writing JSON

The compact text of a JSON value.  A double that is not finite has no JSON form and is written
`null`; other doubles keep a fraction or an exponent, so that they read back as doubles.
-/
import ValueSchema.Json.Basic
import ValueSchema.Number.Decimal
import ValueSchema.Text.Quoted

namespace ValueSchema.Json

/-- The text of a double: its shortest digits, with `.0` behind a whole number. -/
def floatText (x : Float) : String :=
  match Number.view x with
  | .finite _ _ q =>
    let text := Number.toPlain x
    if 0 ≤ q ∨ !text.toList.contains '.' then text ++ ".0" else text
  | _ => "null"

mutual

/-- The text of a value. -/
def render (j : Json) : String :=
  match j with
  | null => "null"
  | bool true => "true"
  | bool false => "false"
  | int n => toString n
  | float x => floatText x
  | str s => Text.quote s
  | arr items => "[" ++ String.intercalate "," (renderAll items) ++ "]"
  | obj entries => "\x7b" ++ String.intercalate "," (renderEntries entries) ++ "\x7d"
  termination_by structural j

/-- The texts of several values. -/
def renderAll (items : List Json) : List String :=
  match items with
  | [] => []
  | j :: rest => j.render :: renderAll rest
  termination_by structural items

/-- The texts of the entries of an object. -/
def renderEntries (entries : List (String × Json)) : List String :=
  match entries with
  | [] => []
  | (key, j) :: rest => (Text.quote key ++ ":" ++ j.render) :: renderEntries rest
  termination_by structural entries

end

/-- The text of a value on one line.  The separators of lines beyond the control characters are
escaped, so that no reader of lines splits it. -/
def renderLine (j : Json) : String :=
  String.ofList (j.render.toList.flatMap fun c =>
    if c.toNat = 0x85 ∨ c.toNat = 0x2028 ∨ c.toNat = 0x2029 then
      ['\\', 'u'] ++ Text.hexPadded 4 c.toNat
    else [c])

end ValueSchema.Json
