import Mathlib.Algebra.Group.Int.Defs
import Mathlib.Algebra.Group.Nat.Defs
import Muster.Proofs.Table.Turn

-- The stamp of a table and the tokens that it gives out. While the table is not established anew its
-- sequence numbers only go up, so a stamp that is met again has been there all the time.
namespace Muster.Deployment

def drawn (turns : List Turn) : List UInt64 := turns.filterMap Turn.drawn?

def wins (turns : List Turn) : Nat := turns.countP fun turn => turn.won?.isSome

def issued (turns : List Turn) : List String := turns.flatMap Turn.issued

def issuedUnder (incarnation : UInt64) (turns : List Turn) : List String :=
  issued (turns.filter fun turn => turn.after.incarnation = incarnation)

-- No incarnation is drawn twice, and none has to number more tokens than it can tell apart.
structure WellSupplied (turns : List Turn) : Prop where
  drawn_nodup : (drawn turns).Nodup
  few_tokens : ∀ incarnation, (issuedUnder incarnation turns).length < 2 ^ 64

-- The stamp holds the token given out last.
def Stamped (table : Deployment) : Prop :=
  ∀ stamp, table.version = some stamp → stamp.token = tokenOf table.incarnation table.sequence

theorem stamped_new (id : String) : (new id).Stamped := by
  intro stamp h
  cases h

theorem Turn.stamped_after (turn : Turn) (h : turn.before.Stamped) : turn.after.Stamped := by
  cases turn.course with
  | quiet hstill =>
      intro stamp hstamp
      rw [version_eq_of_still hstill] at hstamp
      rw [incarnation_eq_of_still hstill, sequence_eq_of_still hstill]
      exact h stamp hstamp
  | write entry _ _ hafter =>
      intro stamp hstamp
      simp only [hafter, commit, Option.some.injEq] at hstamp ⊢
      exact hstamp ▸ rfl
  | draw incarnation _ hafter =>
      intro stamp hstamp
      simp only [hafter, Option.some.injEq] at hstamp ⊢
      exact hstamp ▸ rfl
  | clear hafter =>
      intro stamp hstamp
      simp [hafter, Deployment.clear] at hstamp

theorem stamped_after {table : Deployment} (h : table.Stamped) (operations : List Operation) :
    (table.after operations).Stamped := by
  induction operations generalizing table with
  | nil => exact h
  | cons operation rest ih => exact ih (Turn.stamped_after ⟨table, operation⟩ h)

@[simp] theorem drawn_cons (turn : Turn) (turns : List Turn) :
    drawn (turn :: turns) = turn.drawn?.toList ++ drawn turns := by
  cases h : turn.drawn? <;> simp [drawn, h]

@[simp] theorem wins_cons (turn : Turn) (turns : List Turn) :
    wins (turn :: turns) = (if turn.won?.isSome then 1 else 0) + wins turns := by
  simp only [wins, List.countP_cons, Nat.add_comm]

theorem issuedUnder_append (incarnation : UInt64) (past later : List Turn) :
    issuedUnder incarnation (past ++ later) = issuedUnder incarnation past ++ issuedUnder incarnation later := by
  simp [issuedUnder, issued]

theorem issuedUnder_cons (incarnation : UInt64) (turn : Turn) (turns : List Turn) :
    issuedUnder incarnation (turn :: turns) =
      (if turn.after.incarnation = incarnation then turn.issued else []) ++ issuedUnder incarnation turns := by
  by_cases h : turn.after.incarnation = incarnation <;> simp [issuedUnder, issued, h]

theorem Turn.length_issued (turn : Turn) (h : turn.drawn? = none) :
    turn.issued.length = 2 * if turn.won?.isSome then 1 else 0 := by
  cases turn.course with
  | quiet _ _ hwon _ hissued => simp [hwon, hissued]
  | write _ _ _ _ _ hwon _ hissued => simp [hwon, hissued]
  | draw _ _ _ _ _ hdrawn => simp [h] at hdrawn
  | clear _ _ hwon _ hissued => simp [hwon, hissued]

theorem Turn.incarnation_after (turn : Turn) {incarnation : UInt64} (h : turn.drawn? = some incarnation) :
    turn.after.incarnation = incarnation := by
  cases turn.course with
  | draw drawn _ hafter _ _ hdrawn =>
      have heq : drawn = incarnation := Option.some.inj (hdrawn.symm.trans h)
      simp [hafter, heq]
  | quiet _ _ _ hdrawn => simp [hdrawn] at h
  | write _ _ _ _ _ _ hdrawn => simp [hdrawn] at h
  | clear _ _ _ hdrawn => simp [hdrawn] at h

-- Without a draw a turn takes two numbers if it wins a write and none if it does not.
theorem Turn.sequence_after (turn : Turn) (h : turn.drawn? = none) :
    turn.after.incarnation = turn.before.incarnation ∧
    turn.after.sequence.toNat =
      (turn.before.sequence.toNat + 2 * if turn.won?.isSome then 1 else 0) % 2 ^ 64 := by
  have hlt := turn.before.sequence.toNat_lt
  cases turn.course with
  | quiet hstill _ hwon =>
      refine ⟨incarnation_eq_of_still hstill, ?_⟩
      rw [sequence_eq_of_still hstill, hwon]
      simp
  | write entry stamp _ hafter _ hwon =>
      refine ⟨by rw [hafter]; rfl, ?_⟩
      rw [hafter, hwon]
      simp [commit, UInt64.toNat_add]
  | draw _ _ _ _ _ hdrawn => simp [h] at hdrawn
  | clear hafter _ hwon =>
      refine ⟨by rw [hafter]; rfl, ?_⟩
      rw [hafter, hwon]
      simp [Deployment.clear]

-- Without a draw a table that has no stamp gets none.
theorem Turn.version_after_eq_none (turn : Turn) (hdrawn : turn.drawn? = none)
    (h : turn.before.version = none ∨ turn.operation = .clear) : turn.after.version = none := by
  cases turn.course with
  | quiet hstill hclear => exact (version_eq_of_still hstill).trans (h.resolve_right hclear)
  | write _ stamp hversion _ hclear => simp [hversion, hclear] at h
  | draw _ _ _ _ _ hdraw => simp [hdrawn] at hdraw
  | clear hafter => simp [hafter, Deployment.clear]

theorem after_of_drawn_eq_nil (table : Deployment) (operations : List Operation)
    (h : drawn (table.turns operations) = []) :
    (table.after operations).incarnation = table.incarnation ∧
    (table.after operations).sequence.toNat =
      (table.sequence.toNat + 2 * wins (table.turns operations)) % 2 ^ 64 := by
  induction operations generalizing table with
  | nil =>
      have hlt := table.sequence.toNat_lt
      refine ⟨rfl, ?_⟩
      simp only [after, turns, wins, List.countP_nil]
      omega
  | cons operation rest ih =>
      simp only [turns, drawn_cons, List.append_eq_nil_iff, Option.toList_eq_nil_iff] at h
      obtain ⟨hhead, hrest⟩ := h
      obtain ⟨hinc, hseq⟩ := Turn.sequence_after ⟨table, operation⟩ hhead
      obtain ⟨hinc', hseq'⟩ := ih _ hrest
      refine ⟨hinc'.trans hinc, ?_⟩
      dsimp only at hseq
      simp only [after, turns, wins_cons]
      omega

theorem length_issuedUnder (table : Deployment) (operations : List Operation)
    (h : drawn (table.turns operations) = []) :
    (issuedUnder table.incarnation (table.turns operations)).length =
      2 * wins (table.turns operations) := by
  induction operations generalizing table with
  | nil => rfl
  | cons operation rest ih =>
      simp only [turns, drawn_cons, List.append_eq_nil_iff, Option.toList_eq_nil_iff] at h
      obtain ⟨hhead, hrest⟩ := h
      obtain ⟨hinc, -⟩ := Turn.sequence_after ⟨table, operation⟩ hhead
      have hlen := ih _ hrest
      rw [hinc] at hlen
      rw [turns, issuedUnder_cons, List.length_append, wins_cons, hlen, if_pos hinc,
        Turn.length_issued _ hhead]
      omega

theorem length_issuedUnder_le (incarnation : UInt64) (turns : List Turn) :
    (issuedUnder incarnation turns).length ≤ 2 * turns.length := by
  induction turns with
  | nil => simp [issuedUnder, issued]
  | cons turn turns ih =>
      have hhead : turn.issued.length ≤ 2 := by
        cases turn.course with
        | quiet _ _ _ _ hissued => simp [hissued]
        | write _ _ _ _ _ _ _ hissued => simp [hissued]
        | draw _ _ _ _ _ _ hissued => simp [hissued]
        | clear _ _ _ _ hissued => simp [hissued]
      rw [issuedUnder_cons, List.length_append, List.length_cons]
      split
      · omega
      · rw [List.length_nil]
        omega

theorem incarnation_after_mem_drawn (table : Deployment) (operations : List Operation)
    (h : drawn (table.turns operations) ≠ []) :
    (table.after operations).incarnation ∈ drawn (table.turns operations) := by
  induction operations generalizing table with
  | nil => exact absurd rfl h
  | cons operation rest ih =>
      simp only [turns, drawn_cons] at h ⊢
      by_cases hrest : drawn ((Turn.mk table operation).after.turns rest) = []
      · obtain ⟨hinc, -⟩ := after_of_drawn_eq_nil _ rest hrest
        rw [hrest, List.append_nil] at h ⊢
        obtain ⟨incarnation, hdrawn⟩ := Option.ne_none_iff_exists'.mp (mt Option.toList_eq_nil_iff.mpr h)
        simp only [after, hinc, Turn.incarnation_after _ hdrawn, hdrawn, Option.toList_some,
          List.mem_singleton]
      · exact List.mem_append_right _ (ih _ hrest)

theorem version_after_eq_none (table : Deployment) (operations : List Operation)
    (hdrawn : drawn (table.turns operations) = [])
    (h : table.version = none ∨ .clear ∈ operations) : (table.after operations).version = none := by
  induction operations generalizing table with
  | nil => exact h.resolve_right (by simp)
  | cons operation rest ih =>
      simp only [turns, drawn_cons, List.append_eq_nil_iff, Option.toList_eq_nil_iff] at hdrawn
      obtain ⟨hhead, hrest⟩ := hdrawn
      apply ih _ hrest
      rcases h with hversion | hmem
      · exact Or.inl (Turn.version_after_eq_none ⟨table, operation⟩ hhead (Or.inl hversion))
      · rcases List.mem_cons.mp hmem with hclear | hmem
        · exact Or.inl (Turn.version_after_eq_none ⟨table, operation⟩ hhead (Or.inr hclear.symm))
        · exact Or.inr hmem

-- A stamp that is met again has been there all the time: nothing was written and nothing was cleared.
theorem calm_of_version_eq {table : Deployment} (hstamped : table.Stamped) {operations : List Operation}
    {stamp : Version} (hbefore : table.version = some stamp)
    (hafter : (table.after operations).version = some stamp)
    (hfresh : table.incarnation ∉ drawn (table.turns operations))
    (hfew : drawn (table.turns operations) = [] → wins (table.turns operations) < 2 ^ 63) :
    drawn (table.turns operations) = [] ∧ wins (table.turns operations) = 0 ∧ .clear ∉ operations := by
  obtain ⟨hinc, hseq⟩ := tokenOf_injective
    ((hstamped stamp hbefore).symm.trans (stamped_after hstamped operations stamp hafter))
  -- After a draw the stamp would hold a token of the incarnation drawn.
  have hdrawn : drawn (table.turns operations) = [] :=
    Decidable.byContradiction fun hne =>
      hfresh (hinc ▸ incarnation_after_mem_drawn table operations hne)
  obtain ⟨-, hnumber⟩ := after_of_drawn_eq_nil table operations hdrawn
  have hwins := hfew hdrawn
  refine ⟨hdrawn, ?_, fun hclear => ?_⟩
  -- Each write takes two numbers, so it would take 2^63 of them to come back to this one.
  · rw [← hseq] at hnumber
    have hlt := table.sequence.toNat_lt
    omega
  · rw [version_after_eq_none table operations hdrawn (Or.inr hclear)] at hafter
    cases hafter

-- Turns without a write, a draw or a clearing leave everything but alive times.
theorem still_after_of_calm {table : Deployment} {operations : List Operation}
    (hdrawn : drawn (table.turns operations) = []) (hwins : wins (table.turns operations) = 0)
    (hclear : .clear ∉ operations) : (table.after operations).still = table.still := by
  induction operations generalizing table with
  | nil => rfl
  | cons operation rest ih =>
      simp only [turns, drawn_cons, List.append_eq_nil_iff, Option.toList_eq_nil_iff] at hdrawn
      simp only [turns, wins_cons, Nat.add_eq_zero_iff] at hwins
      simp only [List.mem_cons, not_or] at hclear
      have hhead : (Turn.mk table operation).after.still = table.still := by
        cases (Turn.mk table operation).course with
        | quiet hstill => exact hstill
        | write _ _ _ _ _ hwon => simp [hwon] at hwins
        | draw _ _ _ _ _ hdraw => simp [hdraw] at hdrawn
        | clear _ hop => exact absurd hop.symm hclear.1
      exact (ih hdrawn.2 hwins.2 hclear.2).trans hhead

end Muster.Deployment
