import Muster.Time.Span

namespace Muster

-- A clock that tells time by whole ticks. How long a sleep over a span lasts and how far off a deadline at a span
-- lies is up to what the program runs on, which has to end the longest ones early.
structure Clock where
  tick : Nat
  tick_pos : 0 < tick
  sleeps : Span → Span
  reaches : Span → Span
  sleeps_zero : sleeps .zero = .zero

namespace Clock

-- A span is waited out to the end of its last tick.
def wait (clock : Clock) (span : Span) : Nat := (span.nanos + (clock.tick - 1)) / clock.tick

def ticks (clock : Clock) (limit : Span) : Nat := clock.wait (clock.reaches limit)

def sleepTicks (clock : Clock) (span : Span) : Nat := clock.wait (clock.sleeps span)

def spanOf (clock : Clock) (ticks : Nat) : Span := .ofNanos (ticks * clock.tick)

def thirtyYears : Span := .ofSeconds (30 * 365 * 86400)

-- Where a span from now ends, if the times up to `horizon` from now can be named: one that would end beyond that ends
-- after thirty years.
def endOf (horizon span : Span) : Span := if span ≤ horizon then span else thirtyYears

-- A clock of milliseconds on which sleeps and deadlines end alike.
def steady (horizon : Span) : Clock where
  tick := 1000000
  tick_pos := by decide
  sleeps := endOf horizon
  reaches := endOf horizon
  sleeps_zero := if_pos (Nat.zero_le _)

-- The clock of a bench, in milliseconds: it is moved on to where the next sleep ends, by thirty years at the most,
-- and a deadline lies as far off as it says.
def millis : Clock where
  tick := 1000000
  tick_pos := by decide
  sleeps span := .min span thirtyYears
  reaches limit := limit
  sleeps_zero := rfl

theorem sleepTicks_zero (clock : Clock) : clock.sleepTicks .zero = 0 := by
  rw [sleepTicks, clock.sleeps_zero, wait, show Span.zero.nanos = 0 from rfl, Nat.zero_add]
  exact Nat.div_eq_of_lt (Nat.sub_lt clock.tick_pos (by decide))

end Clock
end Muster
