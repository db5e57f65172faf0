import Muster.Json.Value

namespace Muster.Json

-- Quotes, backslashes and control characters are escaped, the rest stands for itself.
def escape (c : Char) : List Char :=
  match c with
  | '"' => ['\\', '"']
  | '\\' => ['\\', '\\']
  | '\x08' => ['\\', 'b']
  | '\x0c' => ['\\', 'f']
  | '\n' => ['\\', 'n']
  | '\r' => ['\\', 'r']
  | '\t' => ['\\', 't']
  | _ => if c.toNat < 0x20 then ['\\', 'u'] ++ Text.padded 4 (Text.hexadecimal c.toNat) else [c]

def quoted (text : String) : List Char := '"' :: text.toList.flatMap escape ++ ['"']

-- What stands between the parts of a list or an object, and around a colon.
structure Layout where
  newline : Nat → List Char
  colon : List Char

def Layout.compact : Layout := ⟨fun _ => [], [':']⟩

-- A line for each part, two spaces deeper than what holds it.
def Layout.pretty : Layout := ⟨fun depth => '\n' :: List.replicate (2 * depth) ' ', [':', ' ']⟩

namespace Value

mutual

-- Numbers that are no integers and strings that are no text cannot be written and become null.
def print (layout : Layout) (depth : Nat) : Value → List Char
  | .null => ['n', 'u', 'l', 'l']
  | .bool true => ['t', 'r', 'u', 'e']
  | .bool false => ['f', 'a', 'l', 's', 'e']
  | .number (some value) => Text.signedDecimal value
  | .number none => ['n', 'u', 'l', 'l']
  | .text (some value) => quoted value
  | .text none => ['n', 'u', 'l', 'l']
  | .list [] => ['[', ']']
  | .list (item :: items) =>
    '[' :: layout.newline (depth + 1) ++ print layout (depth + 1) item
      ++ printItems layout (depth + 1) items ++ layout.newline depth ++ [']']
  | .object [] => ['\x7b', '\x7d']
  | .object ((name, value) :: fields) =>
    '\x7b' :: layout.newline (depth + 1) ++ quoted (name.getD "") ++ layout.colon
      ++ print layout (depth + 1) value ++ printFields layout (depth + 1) fields
      ++ layout.newline depth ++ ['\x7d']

-- The items behind the first one, each with a comma in front.
def printItems (layout : Layout) (depth : Nat) : List Value → List Char
  | [] => []
  | item :: items =>
    ',' :: layout.newline depth ++ print layout depth item ++ printItems layout depth items

def printFields (layout : Layout) (depth : Nat) : List (Option String × Value) → List Char
  | [] => []
  | (name, value) :: fields =>
    ',' :: layout.newline depth ++ quoted (name.getD "") ++ layout.colon ++ print layout depth value
      ++ printFields layout depth fields

end

def compact (value : Value) : String := .ofList (value.print .compact 0)

def pretty (value : Value) : String := .ofList (value.print .pretty 0)

end Value
end Muster.Json
