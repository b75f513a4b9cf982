import TableNotation.Text.Pieces
import TableNotation.Value.Basic
/-!
# The JSON text of a value

* `Json.compact` writes a value without spaces, `Json.pretty` over several lines
  with two blanks for each level.
* Doubles are written positionally from `0.00001` up to below `10^16` and with an
  exponent elsewhere (`Json.floatLayout`).
-/

namespace TableNotation.Json

/-- Doubles are written positionally when the power of ten of their first digit
is from -5 to 15; of two shortest decimals at one distance the even one counts. -/
def floatLayout : FloatLayout := ⟨fun e => -5 ≤ e && e ≤ 15, .toEven⟩

/-- The lower-case hexadecimal digits of a number below 256. -/
def hexByte (n : Nat) : List Char := [Nat.digitChar (n / 16), Nat.digitChar (n % 16)]

/-- One character inside a JSON string. -/
def escapeChar (c : Char) : List Char :=
  match c with
  | '"' => ['\\', '"']
  | '\\' => ['\\', '\\']
  | '\x08' => ['\\', 'b']
  | '\x0c' => ['\\', 'f']
  | '\n' => ['\\', 'n']
  | '\r' => ['\\', 'r']
  | '\t' => ['\\', 't']
  | c => if c.toNat < 0x20 then ['\\', 'u', '0', '0'] ++ hexByte c.toNat else [c]

/-- A JSON string. -/
def quoted (s : String) : List Char :=
  '"' :: (s.toList.flatMap escapeChar ++ ['"'])

mutual

/-- The text of a value without spaces. -/
def text : Value → List Char
  | .null => ['n', 'u', 'l', 'l']
  | .bool true => ['t', 'r', 'u', 'e']
  | .bool false => ['f', 'a', 'l', 's', 'e']
  | .number n => n.text floatLayout
  | .string s => quoted s
  | .array items => '[' :: (Text.joined [','] (itemTexts items) ++ [']'])
  | .object fields => '{' :: (Text.joined [','] (fieldTexts fields) ++ ['}'])

/-- The texts of the items of a list. -/
def itemTexts : List Value → List (List Char)
  | [] => []
  | v :: rest => text v :: itemTexts rest

/-- The texts of the fields of an object. -/
def fieldTexts : List (String × Value) → List (List Char)
  | [] => []
  | (k, v) :: rest => (quoted k ++ ':' :: text v) :: fieldTexts rest

end

/-- A line break and the blanks of a level. -/
def newLine (level : Nat) : List Char := '\n' :: List.replicate (2 * level) ' '

/-- Texts on lines of their own inside a pair of brackets. -/
def block (level : Nat) (left right : Char) (parts : List (List Char)) : List Char :=
  if parts.isEmpty then [left, right]
  else left :: (newLine (level + 1) ++ Text.joined (',' :: newLine (level + 1)) parts
    ++ newLine level ++ [right])

mutual

/-- The text of a value that stands at a level, each item and each field on a
line of its own. -/
def prettyText (level : Nat) : Value → List Char
  | .array items => block level '[' ']' (prettyItems (level + 1) items)
  | .object fields => block level '{' '}' (prettyFields (level + 1) fields)
  | v => text v

/-- The texts of the items of a list. -/
def prettyItems (level : Nat) : List Value → List (List Char)
  | [] => []
  | v :: rest => prettyText level v :: prettyItems level rest

/-- The texts of the fields of an object. -/
def prettyFields (level : Nat) : List (String × Value) → List (List Char)
  | [] => []
  | (k, v) :: rest => (quoted k ++ ':' :: ' ' :: prettyText level v) :: prettyFields level rest

end

/-- The JSON text of a value, without spaces. -/
def compact (v : Value) : String := String.ofList (text v)

/-- The JSON text of a value over several lines. -/
def pretty (v : Value) : String := String.ofList (prettyText 0 v)

end TableNotation.Json
