import Muster.Net.Reader
import Muster.Text.Blank
import Muster.Time.Instant

-- Two readers of instants. The strict one takes RFC 3339 alone. The lenient one takes blanks around
-- the parts, years of any length behind a sign, and one digit where two are usual.
namespace Muster.Instant

open Muster.Net (after?)
open Muster.Text (skipBlanks)

-- A reading of a wall clock somewhere, which says how far east of UTC it stands.
structure Reading where
  date : Date
  hour : Nat
  minute : Nat
  second : Nat
  nanos : Nat
  eastSeconds : Int
deriving DecidableEq

-- The sixtieth second of a minute is a leap second.
def Reading.instant? (reading : Reading) : Option Instant :=
  if reading.date.isValid && reading.hour ≤ 23 && reading.minute ≤ 59 && reading.second ≤ 60
      && reading.eastSeconds.natAbs < 86400 then
    let wall := reading.date.dayNumber * 86400
      + (reading.hour * 3600 + reading.minute * 60 + min reading.second 59 : Nat)
    let nanos := if reading.second = 60 then 1000000000 + reading.nanos else reading.nanos
    ofParts? (wall - reading.eastSeconds) nanos
  else none

-- The number made of the first digits, at least `least` and no more than `most` of them.
def takeNumber? (least most : Nat) (text : List Char) : Option (Nat × List Char) :=
  let run := (text.take most).takeWhile Char.isDigit
  if run.length < least then none else some (Nat.ofDigitChars 10 run 0, text.drop run.length)

-- Nanoseconds behind a decimal point, cut after the ninth digit. No point means none.
def takeFraction? (text : List Char) : Option (Nat × List Char) :=
  match text with
  | '.' :: rest =>
    let run := rest.takeWhile Char.isDigit
    let kept := run.take 9
    if run.isEmpty then none
    else some (Nat.ofDigitChars 10 (kept.rightpad 9 '0') 0, rest.drop run.length)
  | _ => some (0, text)

def takeSeparator? : List Char → Option (List Char)
  | c :: rest => if c == 'T' || c == 't' || c == ' ' then some rest else none
  | [] => none

-- A Z, or a sign, hours and minutes. What may stand between those two is up to `between?`.
def takeOffset? (between? : List Char → Option (List Char)) : List Char → Option (Int × List Char)
  | [] => none
  | sign :: text =>
    if sign == 'Z' || sign == 'z' then some (0, text)
    else if sign == '+' || sign == '-' || sign == '\u2212' then do
      let (hours, text) ← takeNumber? 2 2 text
      let (minutes, text) ← takeNumber? 2 2 (← between? text)
      let seconds : Int := (hours * 3600 + minutes * 60 : Nat)
      if minutes ≤ 59 then some (if sign == '+' then seconds else -seconds, text) else none
    else none

def strictReading? (text : List Char) : Option Reading := do
  let (year, text) ← takeNumber? 4 4 text
  let (month, text) ← takeNumber? 2 2 (← after? '-' text)
  let (day, text) ← takeNumber? 2 2 (← after? '-' text)
  let (hour, text) ← takeNumber? 2 2 (← takeSeparator? text)
  let (minute, text) ← takeNumber? 2 2 (← after? ':' text)
  let (second, text) ← takeNumber? 2 2 (← after? ':' text)
  let (nanos, text) ← takeFraction? text
  let (east, text) ← takeOffset? (after? ':') text
  if text.isEmpty then some ⟨⟨year, month, day⟩, hour, minute, second, nanos, east⟩ else none

-- RFC 3339, with a space or a small letter allowed as separator, and nothing around it.
def ofText? (text : String) : Option Instant := (strictReading? text.toList).bind Reading.instant?

def takeYear? (text : List Char) : Option (Int × List Char) :=
  match text with
  | '-' :: rest => (takeNumber? 1 rest.length rest).map fun (year, rest) => (-Int.ofNat year, rest)
  | '+' :: rest => (takeNumber? 1 rest.length rest).map fun (year, rest) => (Int.ofNat year, rest)
  | _ => (takeNumber? 1 4 text).map fun (year, rest) => (Int.ofNat year, rest)

def takeShort? (text : List Char) : Option (Nat × List Char) := takeNumber? 1 2 (skipBlanks text)

-- The letters UTC in any case, or an offset with colons and blanks between its halves.
def takeZone? (text : List Char) : Option (Int × List Char) :=
  if (text.take 3).map Char.toUpper == ['U', 'T', 'C'] then some (0, text.drop 3)
  else takeOffset? (fun rest => some (rest.dropWhile fun c => c == ':' || Text.isBlank c)) text

def lenientReading? (text : List Char) : Option Reading := do
  let (year, text) ← takeYear? (skipBlanks text)
  let (month, text) ← takeShort? (← after? '-' (skipBlanks text))
  let (day, text) ← takeShort? (← after? '-' (skipBlanks text))
  let (hour, text) ← takeShort? (← takeSeparator? text)
  let (minute, text) ← takeShort? (← after? ':' (skipBlanks text))
  let (second, text) ← takeShort? (← after? ':' (skipBlanks text))
  let (nanos, text) ← takeFraction? text
  let (east, text) ← takeZone? (skipBlanks text)
  if (skipBlanks text).isEmpty then some ⟨⟨year, month, day⟩, hour, minute, second, nanos, east⟩ else none

def ofLenientText? (text : String) : Option Instant := (lenientReading? text.toList).bind Reading.instant?

end Muster.Instant
