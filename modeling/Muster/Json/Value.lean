import Muster.Json.Token

namespace Muster.Json

-- A value as it was read. Fields keep their order and may repeat a name.
inductive Value where
  | null
  | bool (value : Bool)
  | number (value : Option Int)
  | text (value : Option String)
  | list (items : List Value)
  | object (fields : List (Option String × Value))

namespace Value

def int (value : Int) : Value := .number (some value)

def string (value : String) : Value := .text (some value)

def record (fields : List (String × Value)) : Value :=
  .object (fields.map fun (name, value) => (some name, value))

-- A value that may be left out is written as null when it is missing.
def optional (write : α → Value) : Option α → Value
  | some a => write a
  | none => .null

end Value

mutual

-- A value from the front of the tokens. The fuel bounds the nesting and the number of items together.
def takeValue? : (fuel : Nat) → List Token → Option (Value × List Token)
  | 0, _ => none
  | fuel + 1, tokens =>
    match tokens with
    | .null :: rest => some (.null, rest)
    | .bool value :: rest => some (.bool value, rest)
    | .number value :: rest => some (.number value, rest)
    | .text value :: rest => some (.text value, rest)
    | .openBracket :: .closeBracket :: rest => some (.list [], rest)
    | .openBracket :: rest => (takeItems? fuel rest).map fun (items, rest) => (.list items, rest)
    | .openBrace :: .closeBrace :: rest => some (.object [], rest)
    | .openBrace :: rest => (takeFields? fuel rest).map fun (fields, rest) => (.object fields, rest)
    | _ => none

def takeItems? : (fuel : Nat) → List Token → Option (List Value × List Token)
  | 0, _ => none
  | fuel + 1, tokens =>
    match takeValue? fuel tokens with
    | some (item, .closeBracket :: rest) => some ([item], rest)
    | some (item, .comma :: rest) => (takeItems? fuel rest).map fun (items, rest) => (item :: items, rest)
    | _ => none

def takeFields? : (fuel : Nat) → List Token → Option (List (Option String × Value) × List Token)
  | 0, _ => none
  | fuel + 1, tokens =>
    match tokens with
    | .text name :: .colon :: tokens =>
      match takeValue? fuel tokens with
      | some (value, .closeBrace :: rest) => some ([(name, value)], rest)
      | some (value, .comma :: rest) =>
        (takeFields? fuel rest).map fun (fields, rest) => ((name, value) :: fields, rest)
      | _ => none
    | _ => none

end

-- Reading an item takes a step for the list and one for the value, so two steps a token are enough.
def Value.ofTokens? (tokens : List Token) : Option Value :=
  match takeValue? (2 * tokens.length + 1) tokens with
  | some (value, []) => some value
  | _ => none

def Value.ofText? (text : String) : Option Value := (tokens? (text.toList.map some)).bind Value.ofTokens?

def Value.ofBytes? (bytes : ByteArray) : Option Value := (tokens? (decode bytes 0)).bind Value.ofTokens?

end Muster.Json
