import Muster.Proofs.Table.Stamp

-- Runs in which tokens do not run out, cut into parts.
namespace Muster.Deployment

-- How many tokens of an incarnation a table with a stamp has given out.
def used (table : Deployment) (incarnation : UInt64) : Nat :=
  if table.version ≠ none ∧ table.incarnation = incarnation then table.sequence.toNat else 0

theorem Turn.used_after_le (turn : Turn) (incarnation : UInt64) :
    turn.after.used incarnation ≤ turn.before.used incarnation +
      (if turn.after.incarnation = incarnation then turn.issued else []).length := by
  cases turn.course with
  | quiet hstill =>
      simp only [used, version_eq_of_still hstill, incarnation_eq_of_still hstill,
        sequence_eq_of_still hstill, Nat.le_add_right]
  | write entry stamp hversion hafter _ _ _ hissued =>
      by_cases h : turn.before.incarnation = incarnation
      · have hmod := Nat.mod_le (turn.before.sequence.toNat + 2) (2 ^ 64)
        simpa [used, hversion, hissued, hafter, commit, h] using hmod
      · simp [used, hafter, commit, h]
  | draw drawn hversion hafter _ _ _ hissued =>
      by_cases h : drawn = incarnation <;> simp [used, hissued, hafter, h]
  | clear hafter => simp [used, hafter, Deployment.clear]

-- A table that can go through some operations and never gives out a token twice.
structure Ready (table : Deployment) (operations : List Operation) : Prop where
  stamped : table.Stamped
  fresh : table.version ≠ none → table.incarnation ∉ drawn (table.turns operations)
  drawn_nodup : (drawn (table.turns operations)).Nodup
  few_tokens : ∀ incarnation,
    table.used incarnation + (issuedUnder incarnation (table.turns operations)).length < 2 ^ 64

theorem WellSupplied.ready {id : String} {operations : List Operation}
    (h : WellSupplied ((new id).turns operations)) : (new id).Ready operations where
  stamped := stamped_new id
  fresh := fun hversion => absurd rfl hversion
  drawn_nodup := h.drawn_nodup
  few_tokens incarnation := by
    have hnone : (new id).used incarnation = 0 := by simp [used, new]
    have hfew := h.few_tokens incarnation
    omega

namespace Ready

variable {table : Deployment} {operation : Operation} {operations past later : List Operation}

theorem take (h : table.Ready (past ++ later)) : table.Ready past := by
  obtain ⟨hstamped, hfresh, hnodup, hfew⟩ := h
  simp only [turns_append, drawn, List.filterMap_append, issuedUnder_append, List.length_append]
    at hfresh hnodup hfew
  refine ⟨hstamped, fun hversion hmem => hfresh hversion (List.mem_append_left _ hmem),
    (List.nodup_append.mp hnodup).1, fun incarnation => ?_⟩
  have := hfew incarnation
  omega

theorem tail (h : table.Ready (operation :: later)) : (Turn.mk table operation).after.Ready later where
  stamped := Turn.stamped_after ⟨table, operation⟩ h.stamped
  few_tokens incarnation := by
    have hused := Turn.used_after_le ⟨table, operation⟩ incarnation
    have hfew := h.few_tokens incarnation
    rw [turns, issuedUnder_cons, List.length_append] at hfew
    dsimp only at hused
    omega
  drawn_nodup := by
    have hnodup := h.drawn_nodup
    rw [turns, drawn_cons] at hnodup
    exact (List.nodup_append.mp hnodup).2.1
  fresh hversion := by
    have hnodup := h.drawn_nodup
    have hfresh := h.fresh
    rw [turns, drawn_cons] at hnodup hfresh
    cases hdrawn : (Turn.mk table operation).drawn? with
    | some incarnation =>
        rw [Turn.incarnation_after _ hdrawn]
        rw [hdrawn, Option.toList_some, List.singleton_append, List.nodup_cons] at hnodup
        exact hnodup.1
    | none =>
        rw [(Turn.sequence_after _ hdrawn).1]
        rw [hdrawn, Option.toList_none, List.nil_append] at hfresh
        exact hfresh fun h => hversion (Turn.version_after_eq_none ⟨table, operation⟩ hdrawn (Or.inl h))

-- A table with a stamp has numbers left for the next turn.
theorem sequence_after (h : table.Ready (operation :: later)) (hversion : table.version ≠ none)
    (hdrawn : (Turn.mk table operation).drawn? = none) :
    (Turn.mk table operation).after.sequence.toNat =
      table.sequence.toNat + 2 * if (Turn.mk table operation).won?.isSome then 1 else 0 := by
  obtain ⟨hinc, hsequence⟩ := Turn.sequence_after ⟨table, operation⟩ hdrawn
  have hfew := h.few_tokens table.incarnation
  rw [turns, issuedUnder_cons, List.length_append, if_pos hinc, Turn.length_issued _ hdrawn, used,
    if_pos ⟨hversion, rfl⟩] at hfew
  dsimp only at hsequence
  omega

theorem drop (h : table.Ready (past ++ later)) : (table.after past).Ready later := by
  induction past generalizing table with
  | nil => exact h
  | cons operation past ih => exact ih h.tail

-- A stamp that is met again: in between nothing was written and nothing was cleared.
theorem calm {between : List Operation} {stamp : Version} (h : table.Ready (past ++ between ++ later))
    (hbefore : (table.after past).version = some stamp)
    (hafter : ((table.after past).after between).version = some stamp) :
    drawn ((table.after past).turns between) = [] ∧ wins ((table.after past).turns between) = 0 ∧
      .clear ∉ between := by
  obtain ⟨hstamped, hfresh, -, hfew⟩ := h.take.drop
  refine calm_of_version_eq hstamped hbefore hafter (hfresh (by simp [hbefore])) fun hdrawn => ?_
  have hlen := length_issuedUnder (table.after past) between hdrawn
  have hlt := hfew (table.after past).incarnation
  omega

end Ready
end Muster.Deployment
