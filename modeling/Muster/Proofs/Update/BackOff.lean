import Muster.Proofs.Retry.Schedule
import Muster.Proofs.Update.Pursuit

-- How long a change of the roll waits between its rounds, and what the ceiling of its policy has to do with that.
namespace Muster.Updater

-- The waits are those that a runner of the policy hands out, one after the other.
def Paced (policy : Policy) (log : List Happening) : Prop :=
  ∃ shares count, (log.filterMap Happening.wait?).map RetryOutcome.retryAfter =
    (List.range count).map (Runner.outcome policy shares)

variable {policy : Policy} {log : List Happening}

section
variable {σ α : Type} {step : σ → List Happening → σ × Round α → Prop}

-- After so many retries the runner goes on where it has been left. One more back-off is one more call of it.
theorem waits_of_rounds {operation : String} {silo : Silo} {round : σ → Plan (σ × Round α)} (hbrisk : Brisk step)
    (hround : ∀ state log out, (round state).Goes log out → step state log out) {spent left : Nat}
    (hleft : spent + left = policy.maxAttempts.toNat) {state : σ} {final : σ × Except UpdateError α}
    (h : (rounds operation silo policy round left (policy.delay spent) state).Goes log final) :
    ∃ (shares : Nat → Chance) (count : Nat), spent + count ≤ policy.maxAttempts.toNat ∧
      log.filterMap Happening.wait? =
        (List.range' spent count).map fun k => policy.jitter.apply (shares k) (policy.delay k) := by
  induction left generalizing spent state log with
  | zero =>
    unfold rounds at h
    obtain ⟨first, last, ⟨next, result | _⟩, rfl, hfirst, rfl, rfl⟩ := h.of_bind <;>
    · rw [List.append_nil]
      exact ⟨fun _ => .never, 0, by omega, hbrisk.waits_eq (hround _ _ _ hfirst)⟩
  | succ left ih =>
    unfold rounds at h
    obtain ⟨first, last, ⟨next, result | _⟩, rfl, hfirst, hend⟩ := h.of_bind
    · obtain ⟨rfl, rfl⟩ := hend
      rw [List.append_nil]
      exact ⟨fun _ => .never, 0, by omega, hbrisk.waits_eq (hround _ _ _ hfirst)⟩
    · obtain ⟨share, _, rfl, rest, rfl, hrest⟩ := hend
      have hrest : (rounds operation silo policy round left (policy.delay (spent + 1)) next).Goes rest final := hrest
      obtain ⟨shares, count, hcount, hwaits⟩ := ih (by omega) hrest
      refine ⟨fun k => if k = spent then share else shares k, count + 1, by omega, ?_⟩
      have hlater : (List.range' (spent + 1) count).map
          (fun k => policy.jitter.apply (if k = spent then share else shares k) (policy.delay k)) =
          (List.range' (spent + 1) count).map fun k => policy.jitter.apply (shares k) (policy.delay k) := by
        refine List.map_congr_left fun k hk => ?_
        have hne : k ≠ spent := by
          have := (List.mem_range'_1.mp hk).1
          omega
        rw [if_neg hne]
      rw [List.filterMap_append, hbrisk.waits_eq (hround _ _ _ hfirst), List.range'_succ, List.map_cons, hlater,
        ← hwaits]
      simp only [if_true]
      rfl

theorem paced_of_rounds {operation : String} {silo : Silo} {round : σ → Plan (σ × Round α)} (hbrisk : Brisk step)
    (hround : ∀ state log out, (round state).Goes log out → step state log out) {state : σ}
    {final : σ × Except UpdateError α} (h : (retry operation silo policy round state).Goes log final) :
    Paced policy log := by
  obtain ⟨shares, count, hcount, hwaits⟩ := waits_of_rounds hbrisk hround (Nat.zero_add _) h
  refine ⟨shares, count, ?_⟩
  rw [hwaits, List.map_map, List.range_eq_range']
  refine List.map_congr_left fun k hk => (Runner.outcome_of_lt shares ?_).symm
  have := (List.mem_range'_1.mp hk).2
  omega

end

theorem paced_insert {entry : Entry} {result : Except UpdateError Unit} (h : (insert policy entry).Goes log result) :
    Paced policy log := by
  obtain ⟨first, last, final, rfl, hretry, rfl, rfl⟩ := h.of_bind
  rw [List.append_nil]
  refine paced_of_rounds (brisk_insertGoes entry) (fun _ _ _ hgoes => ?_) hretry
  obtain ⟨first, last, round, rfl, hfirst, rfl, rfl⟩ := Plan.Goes.of_bind hgoes
  rw [List.append_nil]
  exact insertGoes_of_goes hfirst

theorem paced_revise {silo : Silo} {decide : Decide} {final : List Entry × Except UpdateError Entry}
    (h : (revise policy silo decide).Goes log final) : Paced policy log :=
  paced_of_rounds (brisk_reviseGoes silo decide) (fun _ _ _ => reviseGoes_of_goes) h

-- Every wait but the first keeps to the ceiling, and so does the first one if the policy starts below it.
theorem Paced.le_ceiling (h : Paced policy log) {k : Nat} {delay : Span}
    (hwait : (log.filterMap Happening.wait?)[k]? = some delay) (hk : 0 < k ∨ policy.initial ≤ policy.ceiling) :
    delay ≤ policy.ceiling := by
  obtain ⟨shares, count, hwaits⟩ := h
  have houtcome := congrArg (·[k]?) hwaits
  simp only [List.getElem?_map, hwait, Option.map_some] at houtcome
  obtain ⟨call, hcall, houtcome⟩ := Option.map_eq_some_iff.mp houtcome.symm
  obtain ⟨hlt, rfl⟩ := List.getElem?_eq_some_iff.mp hcall
  rw [List.getElem_range] at houtcome
  exact Runner.le_ceiling_of_outcome shares houtcome hk

-- Any policy, any spread and any draws. A change waits as the runner of its policy tells it to, and the ceiling holds
-- for every delay but the first. It holds for all of them exactly if the policy does not start above its ceiling.
theorem delays_keep_to_ceiling (policy : Policy) :
    ((∀ shares k delay, Runner.outcome policy shares k = .retryAfter delay → delay ≤ policy.ceiling) ↔
      policy.initial ≤ policy.ceiling) ∧
    (∀ shares k delay, Runner.outcome policy shares k = .retryAfter delay → 0 < k → delay ≤ policy.ceiling) ∧
    ∀ fortune log, (∃ entry, log = ((insert policy entry).meet fortune []).1) ∨
        (∃ silo decide, log = ((revise policy silo decide).meet fortune []).1) →
      Paced policy log ∧ ∀ k delay, (log.filterMap Happening.wait?)[k]? = some delay →
        0 < k ∨ policy.initial ≤ policy.ceiling → delay ≤ policy.ceiling := by
  refine ⟨⟨fun hall => ?_, fun hle shares k delay houtcome => ?_⟩, fun shares k delay houtcome hk => ?_, ?_⟩
  · have hpos : 0 < policy.maxAttempts.toNat :=
      Nat.pos_of_ne_zero fun hzero => policy.maxAttempts_pos (UInt32.toNat_inj.mp hzero)
    have hfirst := hall (fun _ => .always) 0 _ (Runner.outcome_of_lt _ hpos)
    rwa [Jitter.apply_always] at hfirst
  · exact Runner.le_ceiling_of_outcome shares houtcome (Or.inr hle)
  · exact Runner.le_ceiling_of_outcome shares houtcome (Or.inl hk)
  · rintro fortune log hlog
    have hpaced : Paced policy log := by
      obtain ⟨entry, rfl⟩ | ⟨silo, decide, rfl⟩ := hlog
      · exact paced_insert ((insert policy entry).goes_meet fortune [])
      · exact paced_revise ((revise policy silo decide).goes_meet fortune [])
    exact ⟨hpaced, fun k delay => hpaced.le_ceiling⟩

-- A policy that starts with its longest delay and spreads it, on a table that says no to every write.
def steady : Policy := ⟨2, by decide, .ofSeconds 1, .ofSeconds 1, .full⟩

theorem delays_keep_to_ceiling_contended :
    let log := ((insert steady (.fresh (.onLoopback 11111 1) "a" .epoch)).meet
      { refusing with share := fun _ => .always } []).1
    log.filterMap Happening.wait? = [.ofSeconds 1, .ofSeconds 1] ∧ Paced steady log ∧
    Span.ofSeconds 1 ≤ steady.ceiling := by
  intro log
  have hwaits : log.filterMap Happening.wait? = [.ofSeconds 1, .ofSeconds 1] := by decide +kernel
  obtain ⟨hpaced, hceiling⟩ := (delays_keep_to_ceiling steady).2.2 _ log (Or.inl ⟨_, rfl⟩)
  exact ⟨hwaits, hpaced, hceiling 0 _ (by rw [hwaits]; rfl) (Or.inr (by decide))⟩

-- A policy that starts above its ceiling can be made, and a change pursued by it. The change waits too long.
theorem first_delay_passes_ceiling :
    let policy : Policy := ⟨3, by decide, .ofSeconds 10, .ofSeconds 1, .none⟩
    let log := ((insert policy (.fresh (.onLoopback 11111 1) "a" .epoch)).meet refusing []).1
    Runner.outcome policy (fun _ => .never) 0 = .retryAfter (.ofSeconds 10) ∧
    log.filterMap Happening.wait? = [.ofSeconds 10, .ofSeconds 1, .ofSeconds 1] ∧
    ¬Span.ofSeconds 10 ≤ policy.ceiling := by
  decide +kernel

end Muster.Updater
