import Muster.Text.Numeral

namespace Muster.Json

-- A string whose escapes name half a surrogate pair is no text, nor is one with a byte that no character has: its
-- value is missing. A number counts as an integer if it has neither fraction nor exponent and is not a negative zero.
inductive Token where
  | openBrace
  | closeBrace
  | openBracket
  | closeBracket
  | comma
  | colon
  | null
  | bool (value : Bool)
  | number (value : Option Int)
  | text (value : Option String)
deriving DecidableEq

-- What a string literal is made of: characters, UTF-16 units that are written as escapes, and stray bytes.
inductive Piece where
  | char (c : Char)
  | unit (value : Nat)
  | stray
deriving DecidableEq

-- The text of the pieces, if no byte is astray and every high surrogate has its low one right behind it.
def Piece.text? : List Piece → Option (List Char)
  | [] => some []
  | .char c :: rest => (text? rest).map (c :: ·)
  | .unit high :: .unit low :: rest =>
    if 0xD800 ≤ high ∧ high ≤ 0xDBFF ∧ 0xDC00 ≤ low ∧ low ≤ 0xDFFF then
      (text? rest).map (Char.ofNat ((high - 0xD800) * 1024 + (low - 0xDC00) + 0x10000) :: ·)
    else if 0xD800 ≤ high ∧ high ≤ 0xDFFF then none
    else (text? (.unit low :: rest)).map (Char.ofNat high :: ·)
  | .unit value :: rest =>
    if 0xD800 ≤ value ∧ value ≤ 0xDFFF then none else (text? rest).map (Char.ofNat value :: ·)
  | .stray :: _ => none

inductive Stage where
  | sign
  | zero
  | whole
  | point
  | fraction
  | exponent
  | exponentSign
  | power
deriving DecidableEq

def Stage.next? (stage : Stage) (c : Char) : Option Stage :=
  match stage with
  | sign => if c == '0' then some zero else if c.isDigit then some whole else none
  | zero => if c == '.' then some point else if c == 'e' || c == 'E' then some exponent else none
  | whole =>
    if c.isDigit then some whole
    else if c == '.' then some point
    else if c == 'e' || c == 'E' then some exponent
    else none
  | point => if c.isDigit then some fraction else none
  | fraction => if c.isDigit then some fraction else if c == 'e' || c == 'E' then some exponent else none
  | exponent => if c == '+' || c == '-' then some exponentSign else if c.isDigit then some power else none
  | exponentSign => if c.isDigit then some power else none
  | power => if c.isDigit then some power else none

def Stage.isComplete : Stage → Bool
  | zero | whole | fraction | power => true
  | sign | point | exponent | exponentSign => false

-- What the scanner stands in the middle of. Pieces are kept last first.
inductive Mode where
  | between
  | text (pieces : List Piece)
  | escape (pieces : List Piece)
  | unit (pieces : List Piece) (missing value : Nat)
  | word (rest : List Char) (token : Token)
  | number (stage : Stage) (negative : Bool) (magnitude : Nat)
deriving DecidableEq

def isSpace (c : Char) : Bool := c == ' ' || c == '\n' || c == '\t' || c == '\r'

def Mode.begin? (c : Char) : Option (List Token × Mode) :=
  match c with
  | '\x7b' => some ([.openBrace], between)
  | '\x7d' => some ([.closeBrace], between)
  | '[' => some ([.openBracket], between)
  | ']' => some ([.closeBracket], between)
  | ',' => some ([.comma], between)
  | ':' => some ([.colon], between)
  | '"' => some ([], text [])
  | 'n' => some ([], word ['u', 'l', 'l'] .null)
  | 't' => some ([], word ['r', 'u', 'e'] (.bool true))
  | 'f' => some ([], word ['a', 'l', 's', 'e'] (.bool false))
  | '-' => some ([], number .sign true 0)
  | '0' => some ([], number .zero false 0)
  | _ =>
    if c.isDigit then some ([], number .whole false (c.toNat - 48))
    else if isSpace c then some ([], between)
    else none

def escaped? (c : Char) : Option Char :=
  match c with
  | '"' => some '"'
  | '\\' => some '\\'
  | '/' => some '/'
  | 'b' => some '\x08'
  | 'f' => some '\x0c'
  | 'n' => some '\n'
  | 'r' => some '\r'
  | 't' => some '\t'
  | _ => none

-- The number that has been read when it ends at a given stage.
def numberToken (stage : Stage) (negative : Bool) (magnitude : Nat) : Token :=
  match stage with
  | .zero | .whole =>
    if negative && magnitude == 0 then .number none
    else .number (some (if negative then -(magnitude : Int) else magnitude))
  | _ => .number none

def Mode.step? (mode : Mode) (c : Char) : Option (List Token × Mode) :=
  match mode with
  | between => begin? c
  | text pieces =>
    if c == '"' then some ([.text ((Piece.text? pieces.reverse).map String.ofList)], between)
    else if c == '\\' then some ([], escape pieces)
    else if c.toNat < 0x20 then none
    else some ([], text (.char c :: pieces))
  | escape pieces =>
    if c == 'u' then some ([], unit pieces 4 0)
    else (escaped? c).map fun c => ([], text (.char c :: pieces))
  | unit pieces missing value =>
    (Text.hexValue? c).map fun digit =>
      let value := 16 * value + digit
      ([], if missing ≤ 1 then text (.unit value :: pieces) else unit pieces (missing - 1) value)
  | word rest token =>
    match rest with
    | [] => none
    | [last] => if c == last then some ([token], between) else none
    | first :: rest => if c == first then some ([], word rest token) else none
  | number stage negative magnitude =>
    match stage.next? c with
    | some stage =>
      let magnitude := if stage == .whole then 10 * magnitude + (c.toNat - 48) else magnitude
      some ([], number stage negative magnitude)
    | none =>
      if stage.isComplete then
        (begin? c).map fun (tokens, mode) => (numberToken stage negative magnitude :: tokens, mode)
      else none

-- A stray byte is passed over in a string and stands nowhere else.
def Mode.stray? : Mode → Option Mode
  | text pieces => some (text (.stray :: pieces))
  | _ => none

def Mode.take? (mode : Mode) : Option Char → Option (List Token × Mode)
  | some c => mode.step? c
  | none => mode.stray?.map fun mode => ([], mode)

def Mode.finish? : Mode → Option (List Token)
  | between => some []
  | number stage negative magnitude =>
    if stage.isComplete then some [numberToken stage negative magnitude] else none
  | _ => none

def scan : Mode → List (Option Char) → Option (List Token)
  | mode, [] => mode.finish?
  | mode, c :: rest => do
    let (tokens, mode) ← mode.take? c
    (scan mode rest).map (tokens ++ ·)

-- The characters that bytes are in UTF-8, with a gap for each byte that belongs to none.
def decode (bytes : ByteArray) (start : Nat) : List (Option Char) :=
  if start < bytes.size then
    match bytes.utf8DecodeChar? start with
    | some c => some c :: decode bytes (start + c.utf8Size)
    | none => none :: decode bytes (start + 1)
  else []
termination_by bytes.size - start
decreasing_by
  · have := c.utf8Size_pos
    omega
  · omega

def tokens? (text : List (Option Char)) : Option (List Token) := scan .between text

end Muster.Json
