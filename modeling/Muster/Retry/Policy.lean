import Muster.Time.Span

namespace Muster

-- A random share, from nothing to the whole.
structure Chance where
  part : Nat
  whole : Nat
  whole_pos : 0 < whole
  part_le : part ≤ whole

namespace Chance

def never : Chance := ⟨0, 1, by decide, by decide⟩

def always : Chance := ⟨1, 1, by decide, by decide⟩

-- Shares at even steps, up to the whole.
def steps (n : Nat) : List Chance := List.ofFn fun k : Fin n => ⟨k + 1, n, k.pos, k.isLt⟩

-- So large a share of a span, a broken nanosecond dropped.
def scale (chance : Chance) (span : Span) : Span := .ofNanos (span.nanos * chance.part / chance.whole)

end Chance

-- How a delay is spread at random: not at all, over the whole of it, or over its second half.
inductive Jitter where
  | none
  | full
  | equal
deriving DecidableEq

namespace Jitter

def all : List Jitter := [none, full, equal]

def standard : Jitter := full

def name : Jitter → String
  | none => "none"
  | full => "full"
  | equal => "equal"

def ofName? (name : String) : Option Jitter := all.find? fun jitter => jitter.name == name

def least : Jitter → Span → Span
  | none, delay => delay
  | full, _ => .zero
  | equal, delay => delay.half

def apply (jitter : Jitter) (chance : Chance) (delay : Span) : Span :=
  match jitter with
  | none => delay
  | full => chance.scale delay
  | equal =>
    let rest : Span := .ofNanos (delay.nanos - delay.half.nanos)
    .ofNanos (delay.half.nanos + (chance.scale rest).nanos)

end Jitter

-- How often a write that lost a race is tried again, and after which delays.
structure Policy where
  maxAttempts : UInt32
  maxAttempts_pos : maxAttempts ≠ 0
  initial : Span
  ceiling : Span
  jitter : Jitter
deriving DecidableEq

namespace Policy

def immediate (maxAttempts : UInt32) (h : maxAttempts ≠ 0) : Policy := ⟨maxAttempts, h, .zero, .zero, .none⟩

def standard : Policy := ⟨5, by decide, .ofMillis 50, .ofSeconds 2, .standard⟩

end Policy
end Muster
