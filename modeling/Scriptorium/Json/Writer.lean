import Scriptorium.Json.Value
import Scriptorium.Decimal.Shortest

/-!
# Writing JSON

Values are written over several lines, indented by two blanks a level; an empty array or object stays on one
line. Strings escape the quote, the backslash and the control characters.
-/

namespace Scriptorium.Json

/-- A lower-case hexadecimal digit. -/
def hexDigit (n : Nat) : Char :=
  if n < 10 then Char.ofNat (48 + n) else Char.ofNat (87 + n)

/-- A character as it stands in a JSON string. -/
def escapeChar (c : Char) : List Char :=
  if c = '"' then ['\\', '"']
  else if c = '\\' then ['\\', '\\']
  else if c = '\n' then ['\\', 'n']
  else if c = '\r' then ['\\', 'r']
  else if c = '\t' then ['\\', 't']
  else if c.toNat = 8 then ['\\', 'b']
  else if c.toNat = 12 then ['\\', 'f']
  else if c.toNat < 32 then
    ['\\', 'u', '0', '0', hexDigit (c.toNat / 16), hexDigit (c.toNat % 16)]
  else [c]

/-- A string in quotes. -/
def quoted (s : String) : List Char := '"' :: (s.toList.flatMap escapeChar ++ ['"'])

/-- The indentation of a level. -/
def indent (level : Nat) : List Char := List.replicate (2 * level) ' '

/-- A number or a word. -/
def scalarText : Json → List Char
  | .null => "null".toList
  | .bool b => (if b then "true" else "false").toList
  | .int n => (toString n).toList
  | .float x =>
    if x.isNaN || x.isInf then "null".toList else (Decimal.pointedText x).toList
  | .str s => quoted s
  | .garbled => "null".toList
  | .arr _ | .obj _ => []

mutual

/-- A value whose first line is already indented. -/
def pretty (level : Nat) : Json → List Char
  | .arr [] => ['[', ']']
  | .arr (v :: vs) =>
    '[' :: '\n' :: (indent (level + 1) ++ pretty (level + 1) v ++ prettyItems (level + 1) vs ++
      '\n' :: (indent level ++ [']']))
  | .obj [] => ['\x7b', '\x7d']
  | .obj ((k, v) :: ms) =>
    '\x7b' :: '\n' :: (indent (level + 1) ++ quoted k ++ ':' :: ' ' :: (pretty (level + 1) v ++
      prettyMembers (level + 1) ms) ++ '\n' :: (indent level ++ ['\x7d']))
  | v => scalarText v

/-- The items of an array after the first, each on a line of its own. -/
def prettyItems (level : Nat) : List Json → List Char
  | [] => []
  | v :: vs => ',' :: '\n' :: (indent level ++ pretty level v ++ prettyItems level vs)

/-- The members of an object after the first, each on a line of its own. -/
def prettyMembers (level : Nat) : List (String × Json) → List Char
  | [] => []
  | (k, v) :: ms =>
    ',' :: '\n' :: (indent level ++ quoted k ++ ':' :: ' ' :: pretty level v ++
      prettyMembers level ms)

end

/-- The text of a value over several lines. -/
def render (v : Json) : String := String.ofList (pretty 0 v)

end Scriptorium.Json
