import Mathlib.Algebra.Group.Nat.Defs
import Muster.Config.Table
import Muster.Proofs.Retry.Delays

-- What a runner hands out call by call: a delay that doubles up to the ceiling, then nothing any more.
namespace Muster

theorem TableConfig.policy_of_ofDraft {draft : Draft} {config : TableConfig} (h : ofDraft draft = .ok config) :
    config.policy = draft.policy := by
  unfold ofDraft at h
  split at h
  · cases h
  · split at h
    · cases h
    · split at h
      · cases h
      · split at h
        · rw [← Except.ok.inj h]
        · cases h

theorem Chance.scale_le (chance : Chance) (span : Span) : chance.scale span ≤ span := by
  have hshare : span.nanos * chance.part / chance.whole ≤ span.nanos := by
    refine Nat.div_le_of_le_mul ?_
    rw [Nat.mul_comm chance.whole]
    exact Nat.mul_le_mul_left _ chance.part_le
  show (chance.scale span).nanos ≤ span.nanos
  rw [scale, Span.nanos_ofNanos]
  omega

namespace Jitter

theorem apply_le (jitter : Jitter) (chance : Chance) (delay : Span) : jitter.apply chance delay ≤ delay := by
  show (jitter.apply chance delay).nanos ≤ delay.nanos
  cases jitter with
  | none => exact Nat.le_refl _
  | full => exact chance.scale_le delay
  | equal =>
    have hscale : (chance.scale (.ofNanos (delay.nanos - delay.half.nanos))).nanos ≤
        (Span.ofNanos (delay.nanos - delay.half.nanos)).nanos := chance.scale_le _
    have hhalf : delay.half.nanos ≤ delay.nanos := Nat.div_le_self _ _
    rw [Span.nanos_ofNanos] at hscale
    rw [apply, Span.nanos_ofNanos]
    omega

-- The largest share is the whole delay.
theorem apply_always (jitter : Jitter) (delay : Span) : jitter.apply .always delay = delay := by
  have hscale : ∀ span : Span, Chance.always.scale span = span := fun span => by
    have hlongest := span.nanos_le_longest
    apply Span.ext
    rw [Chance.scale, Span.nanos_ofNanos, show Chance.always.part = 1 from rfl, show Chance.always.whole = 1 from rfl,
      Nat.mul_one, Nat.div_one, Nat.min_eq_left hlongest]
  cases jitter with
  | none => rfl
  | full => exact hscale delay
  | equal =>
    have hlongest := delay.nanos_le_longest
    have hhalf : delay.half.nanos ≤ delay.nanos := Nat.div_le_self _ _
    apply Span.ext
    rw [apply, hscale, Span.nanos_ofNanos, Span.nanos_ofNanos]
    omega

end Jitter

namespace Policy

variable {policy : Policy}

-- A delay that is cut off when it is doubled has passed the ceiling anyway.
theorem nanos_delay_succ (policy : Policy) (k : Nat) :
    (policy.delay (k + 1)).nanos = min (2 * (policy.delay k).nanos) policy.ceiling.nanos := by
  have hceiling := policy.ceiling.nanos_le_longest
  rw [delay, Span.nanos_min, Span.double, Span.nanos_ofNanos]
  omega

-- Whatever the first delay is, the later ones keep to the ceiling.
theorem delay_le_ceiling {k : Nat} (h : 0 < k ∨ policy.initial ≤ policy.ceiling) : policy.delay k ≤ policy.ceiling := by
  cases k with
  | zero => exact h.resolve_left (Nat.lt_irrefl 0)
  | succ k =>
    show (policy.delay (k + 1)).nanos ≤ policy.ceiling.nanos
    rw [nanos_delay_succ]
    exact Nat.min_le_right _ _

theorem nanos_delay (h : policy.initial ≤ policy.ceiling) (k : Nat) :
    (policy.delay k).nanos = min (policy.initial.nanos * 2 ^ k) policy.ceiling.nanos := by
  induction k with
  | zero =>
    rw [Nat.pow_zero, Nat.mul_one]
    exact (Nat.min_eq_left h).symm
  | succ k ih =>
    rw [nanos_delay_succ, ih, Nat.pow_succ, ← Nat.mul_assoc]
    omega

theorem delay_mono (h : policy.initial ≤ policy.ceiling) {j k : Nat} (hjk : j ≤ k) :
    policy.delay j ≤ policy.delay k := by
  have hpow : policy.initial.nanos * 2 ^ j ≤ policy.initial.nanos * 2 ^ k :=
    Nat.mul_le_mul_left _ (Nat.pow_le_pow_right (by decide) hjk)
  show (policy.delay j).nanos ≤ (policy.delay k).nanos
  rw [nanos_delay h, nanos_delay h]
  omega

end Policy

namespace Runner

variable {policy : Policy} {spent : Nat}

theorem next_past_of_le (h : policy.maxAttempts.toNat ≤ spent) (chance : Chance) :
    (past policy spent).next chance = (.giveUp, past policy spent) := by
  have hleft : policy.maxAttempts.toNat - spent = 0 := Nat.sub_eq_zero_of_le h
  simp only [past, next, hleft]

theorem attempts_past (h : spent ≤ policy.maxAttempts.toNat) : (past policy spent).attempts = spent := by
  show policy.maxAttempts.toNat - (policy.maxAttempts.toNat - spent) = spent
  omega

-- The runner of a policy after so many calls, for each of which a share is drawn.
def after (policy : Policy) (shares : Nat → Chance) : Nat → Runner
  | 0 => start policy
  | k + 1 => ((after policy shares k).next (shares k)).2

-- What a call comes to. The first one has number 0.
def outcome (policy : Policy) (shares : Nat → Chance) (k : Nat) : RetryOutcome :=
  ((after policy shares k).next (shares k)).1

variable (shares : Nat → Chance)

theorem after_eq_past (k : Nat) : after policy shares k = past policy (min k policy.maxAttempts.toNat) := by
  induction k with
  | zero => rw [after, start_eq_past, Nat.zero_min]
  | succ k ih =>
    rw [after, ih]
    by_cases hk : k < policy.maxAttempts.toNat
    · rw [Nat.min_eq_left (Nat.le_of_lt hk), Nat.min_eq_left hk, next_past hk]
    · have hle : policy.maxAttempts.toNat ≤ k := Nat.le_of_not_lt hk
      rw [Nat.min_eq_right hle, Nat.min_eq_right (Nat.le_succ_of_le hle), next_past_of_le (Nat.le_refl _)]

theorem attempts_after (k : Nat) : (after policy shares k).attempts = min k policy.maxAttempts.toNat := by
  rw [after_eq_past, attempts_past (Nat.min_le_right ..)]

theorem delay_after {k : Nat} (h : k ≤ policy.maxAttempts.toNat) : (after policy shares k).delay = policy.delay k := by
  rw [after_eq_past, Nat.min_eq_left h]
  rfl

theorem outcome_of_lt {k : Nat} (h : k < policy.maxAttempts.toNat) :
    outcome policy shares k = .retryAfter (policy.jitter.apply (shares k) (policy.delay k)) := by
  rw [outcome, after_eq_past, Nat.min_eq_left (Nat.le_of_lt h), next_past h]

theorem outcome_of_le {k : Nat} (h : policy.maxAttempts.toNat ≤ k) : outcome policy shares k = .giveUp := by
  rw [outcome, after_eq_past, Nat.min_eq_right h, next_past_of_le (Nat.le_refl _)]

theorem outcome_eq_retryAfter {k : Nat} {delay : Span} (h : outcome policy shares k = .retryAfter delay) :
    k < policy.maxAttempts.toNat ∧ delay = policy.jitter.apply (shares k) (policy.delay k) := by
  by_cases hk : k < policy.maxAttempts.toNat
  · rw [outcome_of_lt shares hk] at h
    exact ⟨hk, (RetryOutcome.retryAfter.inj h).symm⟩
  · rw [outcome_of_le shares (Nat.le_of_not_lt hk)] at h
    cases h

theorem le_ceiling_of_outcome {k : Nat} {delay : Span} (h : outcome policy shares k = .retryAfter delay)
    (hk : 0 < k ∨ policy.initial ≤ policy.ceiling) : delay ≤ policy.ceiling := by
  obtain ⟨-, rfl⟩ := outcome_eq_retryAfter shares h
  exact Nat.le_trans (policy.jitter.apply_le (shares k) (policy.delay k)) (Policy.delay_le_ceiling hk)

-- A policy that settings are made with, and that does not spread its delays at random. Its delays are the powers
-- of two times the first one, cut off at the ceiling, and no two of them decrease. Neither the doubled delay nor
-- the count of retries ever goes past what it is kept in: where the one is cut off, the ceiling is lower still.
theorem delays_double_up_to_ceiling (draft : TableConfig.Draft) (config : TableConfig)
    (hbuilt : TableConfig.ofDraft draft = .ok config) (hjitter : draft.policy.jitter = .none) :
    let policy := draft.policy
    let limit := policy.maxAttempts.toNat
    config.policy = policy ∧
    (∀ k < limit, ∃ delay, outcome policy shares k = .retryAfter delay ∧
      delay.nanos = min (policy.initial.nanos * 2 ^ k) policy.ceiling.nanos) ∧
    (∀ k, limit ≤ k → outcome policy shares k = .giveUp) ∧
    (∀ j k earlier later, j ≤ k → outcome policy shares j = .retryAfter earlier →
      outcome policy shares k = .retryAfter later → earlier ≤ later) ∧
    (∀ m, (after policy shares m).attempts = min m limit) ∧
    ∀ k < limit, (after policy shares k).attempts + 1 < UInt32.size ∧
      (after policy shares (k + 1)).delay.nanos =
        min (2 * (after policy shares k).delay.nanos) policy.ceiling.nanos := by
  intro policy limit
  have hpolicy : config.policy = policy := TableConfig.policy_of_ofDraft hbuilt
  have hle : policy.initial ≤ policy.ceiling := hpolicy ▸ config.backoff_le
  have happly : ∀ chance delay, policy.jitter.apply chance delay = delay := fun chance delay => by
    rw [hjitter, Jitter.apply]
  refine ⟨hpolicy, fun k hk => ?_, fun k => outcome_of_le shares, ?_, attempts_after shares, fun k hk => ⟨?_, ?_⟩⟩
  · refine ⟨policy.delay k, ?_, Policy.nanos_delay hle k⟩
    rw [outcome_of_lt shares hk, happly]
  · intro j k earlier later hjk hearlier hlater
    obtain ⟨-, rfl⟩ := outcome_eq_retryAfter shares hearlier
    obtain ⟨-, rfl⟩ := outcome_eq_retryAfter shares hlater
    rw [happly, happly]
    exact Policy.delay_mono hle hjk
  · rw [attempts_after, Nat.min_eq_left (Nat.le_of_lt hk)]
    exact Nat.lt_of_le_of_lt hk policy.maxAttempts.toNat_lt
  · rw [delay_after shares hk, delay_after shares (Nat.le_of_lt hk), Policy.nanos_delay_succ]

-- Settings at the upper end of everything: the second doubling goes past the longest span.
def enduring : TableConfig.Draft where
  deployment := some "dep"
  policy := ⟨4294967295, by decide, .ofSeconds (2 ^ 62), .longest, .none⟩

theorem delays_double_up_to_ceiling_enduring :
    ∃ config, TableConfig.ofDraft enduring = .ok config ∧ enduring.policy.jitter = .none ∧
    (∃ delay, outcome enduring.policy (fun _ => .never) 2 = .retryAfter delay ∧
      delay.nanos = min (2 ^ 62 * 1000000000 * 2 ^ 2) Span.longest.nanos) ∧
    outcome enduring.policy (fun _ => .never) 4294967295 = .giveUp ∧
    (after enduring.policy (fun _ => .never) 4294967294).attempts + 1 < UInt32.size := by
  let config : TableConfig := ⟨"dep", "", .ofSeconds 30, enduring.policy, by decide, by decide, by decide⟩
  have hbuilt : TableConfig.ofDraft enduring = .ok config := rfl
  obtain ⟨-, hdelays, hends, -, -, hcounts⟩ :=
    delays_double_up_to_ceiling (fun _ => .never) enduring config hbuilt rfl
  have hlimit : enduring.policy.maxAttempts.toNat = 4294967295 := by decide
  refine ⟨config, hbuilt, rfl, ?_, hends _ (Nat.le_of_eq hlimit), (hcounts _ (by omega)).1⟩
  have hinitial : enduring.policy.initial.nanos = 2 ^ 62 * 1000000000 := by decide
  rw [← hinitial]
  exact hdelays 2 (by omega)

end Runner
end Muster
