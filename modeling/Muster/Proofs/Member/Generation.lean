import Muster.Member.Silo
import Muster.Time.Instant

-- Silos that start on one endpoint one after the other, and when their generations tell them apart.
namespace Muster

-- The order in which a clock shows instants.
def Instant.Before (a b : Instant) : Prop := a.second < b.second ∨ a.second = b.second ∧ a.nanos < b.nanos

instance (a b : Instant) : Decidable (a.Before b) := inferInstanceAs (Decidable (_ ∨ _))

theorem Instant.Before.second_le {a b : Instant} (h : a.Before b) : a.second ≤ b.second := by
  rcases h with h | ⟨h, -⟩ <;> omega

namespace Silo

variable {endpoint : Net.Endpoint} {first later : Instant}

def startedAt (endpoint : Net.Endpoint) (start : Instant) : Silo := ⟨endpoint, generationAt start.second⟩

theorem toInt_generationAt (second : Int) :
    (generationAt second).toInt =
      if Int32.minValue.toInt ≤ second - generationEpoch ∧ second - generationEpoch ≤ Int32.maxValue.toInt then
        max (second - generationEpoch) 1
      else Int32.maxValue.toInt := by
  by_cases h : Int32.minValue.toInt ≤ second - generationEpoch ∧ second - generationEpoch ≤ Int32.maxValue.toInt
  · rw [generationAt, if_pos h, if_pos h]
    have hmin : Int32.minValue.toInt = -2147483648 := Int32.toInt_minValue
    have hmax : Int32.maxValue.toInt = 2147483647 := Int32.toInt_maxValue
    refine Int32.toInt_ofInt_of_le ?_ ?_ <;> omega
  · rw [generationAt, if_neg h, if_neg h]

-- Generations number whole seconds, and all seconds before the first one like that one. Later than the last one,
-- and earlier than they can count back, they do not tell one start from another.
def TellsApart (first later : Int) : Prop :=
  generationEpoch + Int32.minValue.toInt ≤ first ∧ first < generationEpoch + Int32.maxValue.toInt ∧
    max first (generationEpoch + 1) < later

instance (first later : Int) : Decidable (TellsApart first later) := inferInstanceAs (Decidable (_ ∧ _))

theorem generationAt_lt_iff {first later : Int} (h : first ≤ later) :
    generationAt first < generationAt later ↔ TellsApart first later := by
  rw [Int32.lt_iff_toInt_lt, toInt_generationAt, toInt_generationAt, TellsApart]
  simp only [Int32.toInt_minValue, Int32.toInt_maxValue]
  split <;> split <;> omega

theorem succeeds_startedAt_iff (h : first.Before later) :
    (startedAt endpoint later).succeeds (startedAt endpoint first) = true ↔ TellsApart first.second later.second := by
  rw [← generationAt_lt_iff h.second_le, succeeds, Bool.and_eq_true, decide_eq_true_iff]
  exact and_iff_right (beq_self_eq_true endpoint)

theorem ne_of_succeeds {young old : Silo} (h : young.succeeds old = true) : young ≠ old := by
  rintro rfl
  simp [succeeds] at h

end Silo
end Muster
