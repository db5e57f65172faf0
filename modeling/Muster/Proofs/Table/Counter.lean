import Mathlib.Data.List.Pairwise
import Muster.Proofs.Table.Exclusive
import Muster.Proofs.Table.Heartbeats

-- A table between two clearings. The counter in its stamp goes up with every write, so a count that is met again
-- belongs to the same rows.
namespace Muster

theorem Snapshot.activeSilos_still (snapshot : Snapshot) : snapshot.still.activeSilos = snapshot.activeSilos := by
  simp only [activeSilos, still, List.filter_map, List.map_map]
  rfl

namespace Deployment

-- How many writes the stamp counts. A table without a stamp counts none.
def counted (table : Deployment) : Int :=
  match table.version with
  | none => 0
  | some stamp => stamp.counter.toInt

theorem counted_of_version {table : Deployment} {stamp : Version} (h : table.version = some stamp) :
    table.counted = stamp.counter.toInt := by
  rw [counted, h]

theorem counted_of_still {a b : Deployment} (h : a.still = b.still) : a.counted = b.counted := by
  rw [counted, version_eq_of_still h, counted]

-- The table is not cleared, and its counter has room for all the writes that win.
structure Unbroken (table : Deployment) (life : List Operation) : Prop where
  kept : .clear ∉ life
  room : table.counted + wins (table.turns life) < 2 ^ 63

theorem Turn.counted_after (turn : Turn) (hkept : turn.operation ≠ .clear)
    (hroom : turn.before.counted + wins [turn] < 2 ^ 63) :
    turn.after.counted = turn.before.counted + wins [turn] := by
  rw [wins_cons] at hroom ⊢
  cases turn.course with
  | quiet hstill _ hwon => simp [counted_of_still hstill, hwon, wins]
  | write entry stamp hversion hafter _ hwon =>
    have hlow := stamp.counter.toInt_lt
    rw [counted_of_version hversion, hwon] at hroom ⊢
    rw [hafter, counted_of_version rfl, Version.counter_next]
    · simp [wins]
    · simp [wins] at hroom
      omega
  | draw _ hversion hafter _ hwon =>
    rw [hafter, hwon, counted_of_version rfl, counted, hversion]
    simp [wins]
  | clear _ hclear => exact absurd hclear hkept

theorem wins_append (past later : List Turn) : wins (past ++ later) = wins past + wins later :=
  List.countP_append

theorem wins_turns_cons (table : Deployment) (operation : Operation) (later : List Operation) :
    wins (table.turns (operation :: later)) =
      wins [Turn.mk table operation] + wins ((Turn.mk table operation).after.turns later) :=
  wins_append [_] _

namespace Unbroken

variable {table : Deployment} {operation : Operation} {life past later : List Operation}

theorem tail (h : table.Unbroken (operation :: later)) :
    (Turn.mk table operation).after.counted = table.counted + wins [Turn.mk table operation] ∧
      (Turn.mk table operation).after.Unbroken later := by
  obtain ⟨hkept, hroom⟩ := h
  rw [List.mem_cons, not_or] at hkept
  rw [wins_turns_cons] at hroom
  have hcounted := Turn.counted_after ⟨table, operation⟩ (Ne.symm hkept.1) (by dsimp only; omega)
  exact ⟨hcounted, hkept.2, by dsimp only at hcounted; omega⟩

theorem counted_after (h : table.Unbroken life) :
    (table.after life).counted = table.counted + wins (table.turns life) := by
  induction life generalizing table with
  | nil => simp [after, turns, wins]
  | cons operation rest ih =>
    obtain ⟨hcounted, hrest⟩ := h.tail
    rw [after, ih hrest, hcounted, wins_turns_cons]
    omega

theorem take (h : table.Unbroken (past ++ later)) : table.Unbroken past where
  kept hmem := h.kept (List.mem_append_left _ hmem)
  room := by
    have hroom := h.room
    rw [turns_append, wins_append] at hroom
    omega

theorem drop (h : table.Unbroken (past ++ later)) : (table.after past).Unbroken later := by
  induction past generalizing table with
  | nil => exact h
  | cons operation past ih => exact ih h.tail.2

end Unbroken

-- A table with a stamp keeps one until it is cleared, and draws no other incarnation.
theorem drawn_eq_nil {table : Deployment} {operations : List Operation} (hversion : table.version ≠ none)
    (hkept : .clear ∉ operations) : drawn (table.turns operations) = [] := by
  induction operations generalizing table with
  | nil => rfl
  | cons operation rest ih =>
    rw [List.mem_cons, not_or] at hkept
    have hhead : (Turn.mk table operation).drawn? = none ∧ (Turn.mk table operation).after.version ≠ none := by
      cases (Turn.mk table operation).course with
      | quiet hstill _ _ hdrawn => exact ⟨hdrawn, by rwa [version_eq_of_still hstill]⟩
      | write entry stamp _ hafter _ _ hdrawn => exact ⟨hdrawn, by simp [hafter, commit]⟩
      | draw _ hnone => exact absurd hnone hversion
      | clear _ hclear => exact absurd hclear.symm hkept.1
    rw [turns, drawn_cons, hhead.1, ih hhead.2 hkept.2]
    rfl

-- Turns that met a stamp with the same count met the same table.
def Turn.Alike (a b : Turn) : Prop :=
  a.before.version ≠ none → b.before.version ≠ none → a.before.counted = b.before.counted →
    a.before.still = b.before.still

instance : Std.Symm Turn.Alike := ⟨fun _ _ halike hb ha hsame => (halike ha hb hsame.symm).symm⟩

-- Of two turns the later one meets no lower count, and if it meets the same count, then the same table.
theorem Unbroken.turns_in_order {table : Deployment} {life : List Operation} (h : table.Unbroken life)
    {first last : Turn} (hpair : [first, last].Sublist (table.turns life)) :
    first.before.counted ≤ last.before.counted ∧ first.Alike last := by
  obtain ⟨past, rest, later, rfl, hfirst, hlast⟩ := exists_between_of_sublist_turns hpair
  have hbetween : (table.after past).Unbroken (first.operation :: rest) := h.take.drop
  have hcounted := hbetween.counted_after
  rw [Turn.Alike, hfirst, hlast]
  refine ⟨by omega, fun hversion _ hsame => ?_⟩
  exact (still_after_of_calm (drawn_eq_nil hversion hbetween.kept) (by omega) hbetween.kept).symm

theorem Unbroken.alike {table : Deployment} {life : List Operation} (h : table.Unbroken life) {a b : Turn}
    (ha : a ∈ table.turns life) (hb : b ∈ table.turns life) : a.Alike b := by
  have hpairs : (table.turns life).Pairwise Turn.Alike :=
    List.pairwise_iff_forall_sublist.mpr fun hpair => (h.turns_in_order hpair).2
  exact hpairs.forall_of_forall (fun _ _ _ _ _ => rfl) ha hb

theorem Turn.outcome_of_snapshot {turn : Turn} {snapshot : Snapshot} (h : turn.snapshot? = some snapshot) :
    turn.outcome = .shown (.ok snapshot) := by
  unfold snapshot? at h
  split at h
  · next shown houtcome => rw [houtcome, Option.some.inj h]
  · cases h

-- The same reading of the same table shows the same, alive times apart.
theorem Turn.still_of_snapshot {a b : Turn} {shown other : Snapshot} (hoperation : a.operation = b.operation)
    (hstill : a.before.still = b.before.still) (ha : a.snapshot? = some shown) (hb : b.snapshot? = some other) :
    shown.still = other.still := by
  have houtcome : a.outcome.still = b.outcome.still := by
    rw [outcome, outcome, hoperation]
    exact (perform_of_still hstill b.operation).1
  rw [outcome_of_snapshot ha, outcome_of_snapshot hb] at houtcome
  exact Except.ok.inj (Outcome.shown.inj houtcome)

end Deployment
end Muster
