import Muster.Net.Ip

-- Readers of addresses. Each takes what it can from the front of a text and hands back the rest.
namespace Muster.Net

def after? (mark : Char) : List Char → Option (List Char)
  | [] => none
  | c :: rest => if c = mark then some rest else none

-- One to three digits, no zero in front of others, at most 255.
def takeOctet? (text : List Char) : Option (UInt8 × List Char) :=
  let run := text.takeWhile Char.isDigit
  let value := Nat.ofDigitChars 10 run 0
  if run.isEmpty || 3 < run.length || (1 < run.length && run.head? == some '0') || 255 < value then none
  else some (UInt8.ofNat value, text.dropWhile Char.isDigit)

def takeIpv4? (text : List Char) : Option (Ipv4 × List Char) := do
  let (a, text) ← takeOctet? text
  let (b, text) ← takeOctet? (← after? '.' text)
  let (c, text) ← takeOctet? (← after? '.' text)
  let (d, text) ← takeOctet? (← after? '.' text)
  some (.of a b c d, text)

def takeGroup? (text : List Char) : Option (UInt16 × List Char) :=
  let run := text.takeWhile Text.isHexDigit
  if run.isEmpty || 4 < run.length then none
  else some (UInt16.ofNat (Text.hexNumber run), text.dropWhile Text.isHexDigit)

-- Up to `limit` groups with colons between them. A dotted quad may stand for the last two: the flag
-- tells whether one does.
def takeGroups : (limit : Nat) → (first : Bool) → List Char → List UInt16 × Bool × List Char
  | 0, _, text => ([], false, text)
  | limit + 1, first, text =>
    match if first then some text else after? ':' text with
    | none => ([], false, text)
    | some rest =>
      match if limit = 0 then none else takeIpv4? rest with
      | some (quad, rest) => (quad.groups, true, rest)
      | none =>
        match takeGroup? rest with
        | none => ([], false, text)
        | some (group, rest) =>
          let (groups, dotted, rest) := takeGroups limit false rest
          (group :: groups, dotted, rest)

-- Eight groups, or fewer with two colons where zeros are left out. A dotted quad ends the address.
def takeIpv6? (text : List Char) : Option (Ipv6 × List Char) :=
  let (front, dotted, rest) := takeGroups 8 true text
  if front.length = 8 then (Ipv6.ofGroups? front).map (·, rest)
  else if dotted then none
  else do
    let rest ← after? ':' (← after? ':' rest)
    let (back, _, rest) := takeGroups (7 - front.length) true rest
    let ip ← Ipv6.ofGroups? (front ++ List.replicate (8 - front.length - back.length) 0 ++ back)
    some (ip, rest)

def Ip.ofText? (text : List Char) : Option Ip :=
  match takeIpv4? text with
  | some (ip, []) => some (.v4 ip)
  | some _ => none
  | none =>
    match takeIpv6? text with
    | some (ip, []) => some (.v6 ip)
    | _ => none

-- A run of digits of any length whose value is below `bound`.
def takeBounded? (bound : Nat) (text : List Char) : Option (Nat × List Char) := do
  let value ← Text.readDecimal? (text.takeWhile Char.isDigit)
  if value < bound then some (value, text.dropWhile Char.isDigit) else none

end Muster.Net
