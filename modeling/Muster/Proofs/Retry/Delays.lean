import Muster.Retry.Runner

-- The delays that a policy hands out: it starts with the first one and doubles it as far as the ceiling lets it.
namespace Muster

-- The delay before a retry, the first of which has number 0, as long as it is not spread at random.
def Policy.delay (policy : Policy) : Nat → Span
  | 0 => policy.initial
  | k + 1 => Span.min (policy.delay k).double policy.ceiling

namespace Runner

variable {policy : Policy} {spent : Nat}

-- A runner that has handed out so many retries.
def past (policy : Policy) (spent : Nat) : Runner := ⟨policy, policy.maxAttempts.toNat - spent, policy.delay spent⟩

theorem start_eq_past (policy : Policy) : start policy = past policy 0 := rfl

theorem next_past (h : spent < policy.maxAttempts.toNat) (chance : Chance) :
    (past policy spent).next chance =
      (.retryAfter (policy.jitter.apply chance (policy.delay spent)), past policy (spent + 1)) := by
  obtain ⟨left, hleft⟩ := Nat.exists_eq_add_of_lt h
  have hspent : policy.maxAttempts.toNat - spent = left + 1 := by omega
  have hrest : policy.maxAttempts.toNat - (spent + 1) = left := by omega
  simp only [past, next, spend, hspent, hrest, Policy.delay]

end Runner
end Muster
