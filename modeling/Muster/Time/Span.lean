import Muster.Text.Numeral

namespace Muster

-- A length of time in nanoseconds, with fewer than 2^64 whole seconds.
structure Span where
  nanos : Nat
  nanos_lt : nanos < UInt64.size * 1000000000
deriving DecidableEq

namespace Span

def zero : Span := ⟨0, by decide⟩

def longest : Span := ⟨UInt64.size * 1000000000 - 1, by decide⟩

def ofNanos? (nanos : Nat) : Option Span :=
  if h : nanos < UInt64.size * 1000000000 then some ⟨nanos, h⟩ else none

-- Nanoseconds, cut off at the longest span.
def ofNanos (nanos : Nat) : Span := (ofNanos? nanos).getD longest

def ofSeconds (seconds : Nat) : Span := ofNanos (seconds * 1000000000)

def ofMillis (millis : Nat) : Span := ofNanos (millis * 1000000)

def seconds (span : Span) : Nat := span.nanos / 1000000000

def subseconds (span : Span) : Nat := span.nanos % 1000000000

def isZero (span : Span) : Bool := span.nanos == 0

instance : LE Span := ⟨fun a b => a.nanos ≤ b.nanos⟩

instance : LT Span := ⟨fun a b => a.nanos < b.nanos⟩

instance (a b : Span) : Decidable (a ≤ b) := Nat.decLe a.nanos b.nanos

instance (a b : Span) : Decidable (a < b) := Nat.decLt a.nanos b.nanos

protected def min (a b : Span) : Span := if a ≤ b then a else b

def double (span : Span) : Span := ofNanos (2 * span.nanos)

def half (span : Span) : Span := ⟨span.nanos / 2, Nat.lt_of_le_of_lt (Nat.div_le_self _ _) span.nanos_lt⟩

-- A decimal point and the digits behind it, without zeros at the end; nothing for a whole number.
def fractionText (places fraction : Nat) : List Char :=
  let digits := ((Text.padded places (Text.decimal fraction)).reverse.dropWhile (· == '0')).reverse
  if fraction == 0 then [] else '.' :: digits

-- The span in the largest unit of which it holds at least one, with what fraction is left.
def text (span : Span) : String :=
  let (whole, fraction, places, unit) :=
    if 1000000000 ≤ span.nanos then (span.nanos / 1000000000, span.nanos % 1000000000, 9, "s")
    else if 1000000 ≤ span.nanos then (span.nanos / 1000000, span.nanos % 1000000, 6, "ms")
    else if 1000 ≤ span.nanos then (span.nanos / 1000, span.nanos % 1000, 3, "µs")
    else (span.nanos, 0, 0, "ns")
  .ofList (Text.decimal whole ++ fractionText places fraction ++ unit.toList)

theorem ext {a b : Span} (h : a.nanos = b.nanos) : a = b := by
  cases a; cases b; cases h; rfl

theorem nanos_le_longest (span : Span) : span.nanos ≤ longest.nanos := Nat.le_sub_one_of_lt span.nanos_lt

theorem nanos_ofNanos (nanos : Nat) : (ofNanos nanos).nanos = min nanos longest.nanos := by
  unfold ofNanos ofNanos?
  split <;> simp only [Option.getD_some, Option.getD_none, longest] <;> omega

theorem nanos_min (a b : Span) : (Span.min a b).nanos = min a.nanos b.nanos := by
  unfold Span.min
  split
  · next h => exact (Nat.min_eq_left h).symm
  · next h => exact (Nat.min_eq_right (Nat.le_of_lt (Nat.not_le.mp h))).symm

end Span
end Muster
