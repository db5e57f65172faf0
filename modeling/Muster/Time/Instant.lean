import Muster.Text.Numeral
import Muster.Time.Calendar

namespace Muster

-- A point in time: seconds since 1970-01-01T00:00:00Z, leap seconds not counted, and nanoseconds.
-- A leap second is the second before it with 10^9 added to the nanoseconds. One that ends no minute can be made too.
structure Instant where
  second : Int
  nanos : Nat
  nanos_lt : nanos < 2000000000
  first_le : (Date.mk Date.firstYear 1 1).dayNumber * 86400 ≤ second
  lt_last : second < ((Date.mk Date.lastYear 12 31).dayNumber + 1) * 86400
deriving DecidableEq

namespace Instant

-- The parts of a reading of a clock, on which a leap second ends a minute.
def ofParts? (second : Int) (nanos : Nat) : Option Instant :=
  if h : nanos < 2000000000 ∧ (1000000000 ≤ nanos → second % 60 = 59)
      ∧ (Date.mk Date.firstYear 1 1).dayNumber * 86400 ≤ second
      ∧ second < ((Date.mk Date.lastYear 12 31).dayNumber + 1) * 86400 then
    some ⟨second, nanos, h.1, h.2.2.1, h.2.2.2⟩
  else none

def epoch : Instant := ⟨0, 0, by decide, by decide, by decide⟩

def date (instant : Instant) : Date := .ofDayNumber (instant.second / 86400)

def secondOfDay (instant : Instant) : Nat := (instant.second % 86400).toNat

-- Four digits, or more of them behind a sign for a year that four digits cannot name.
def yearText (year : Int) : List Char :=
  if 0 ≤ year ∧ year ≤ 9999 then Text.padded 4 (Text.decimal year.toNat)
  else (if 0 ≤ year then '+' else '-') :: Text.padded 4 (Text.decimal year.natAbs)

def twoDigits (n : Nat) : List Char := Text.padded 2 (Text.decimal n)

-- As few digits as lose nothing, of none, three, six and nine.
def subsecondText (nanos : Nat) : List Char :=
  if nanos == 0 then []
  else if nanos % 1000000 == 0 then '.' :: Text.padded 3 (Text.decimal (nanos / 1000000))
  else if nanos % 1000 == 0 then '.' :: Text.padded 6 (Text.decimal (nanos / 1000))
  else '.' :: Text.padded 9 (Text.decimal nanos)

-- The instant in UTC. A leap second is the sixtieth of its minute, or is written as the second after it.
def text (instant : Instant) : String :=
  let date := instant.date
  let clock := instant.secondOfDay
  let (second, nanos) :=
    if 1000000000 ≤ instant.nanos then (clock % 60 + 1, instant.nanos - 1000000000)
    else (clock % 60, instant.nanos)
  .ofList (yearText date.year ++ '-' :: twoDigits date.month ++ '-' :: twoDigits date.day
    ++ 'T' :: twoDigits (clock / 3600) ++ ':' :: twoDigits (clock / 60 % 60) ++ ':' :: twoDigits second
    ++ subsecondText nanos ++ ['Z'])

-- A leap second ends its minute.
def Legible (instant : Instant) : Prop := 1000000000 ≤ instant.nanos → instant.second % 60 = 59

instance (instant : Instant) : Decidable instant.Legible := inferInstanceAs (Decidable (_ → _))

theorem ofParts?_self {instant : Instant} (h : instant.Legible) :
    ofParts? instant.second instant.nanos = some instant :=
  dif_pos ⟨instant.nanos_lt, h, instant.first_le, instant.lt_last⟩

theorem legible_of_ofParts? {second : Int} {nanos : Nat} {instant : Instant}
    (h : ofParts? second nanos = some instant) : instant.Legible := by
  unfold ofParts? at h
  split at h
  · next hparts =>
    cases h
    exact hparts.2.1
  · cases h

end Instant
end Muster
