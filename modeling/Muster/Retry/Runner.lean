import Muster.Retry.Policy

namespace Muster

-- A policy at work: how many retries it has left to hand out, and the delay before the next one.
structure Runner where
  policy : Policy
  left : Nat
  delay : Span
deriving DecidableEq

inductive RetryOutcome where
  | retryAfter (delay : Span)
  | giveUp
deriving DecidableEq

namespace Runner

def start (policy : Policy) : Runner := ⟨policy, policy.maxAttempts.toNat, policy.initial⟩

def attempts (runner : Runner) : Nat := runner.policy.maxAttempts.toNat - runner.left

-- Takes one retry. The delay doubles up to the ceiling of the policy.
def spend (runner : Runner) (left : Nat) : Runner :=
  { runner with left, delay := Span.min runner.delay.double runner.policy.ceiling }

def next (runner : Runner) (chance : Chance) : RetryOutcome × Runner :=
  match runner.left with
  | 0 => (.giveUp, runner)
  | left + 1 => (.retryAfter (runner.policy.jitter.apply chance runner.delay), runner.spend left)

end Runner
end Muster
