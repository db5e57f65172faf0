import Muster.Proofs.Table.Legible
import Muster.Proofs.Update.Conduct

-- A party whose task comes back from a text writes nothing that does not, as long as the clock shows it such times
-- and the table such rows.
namespace Muster

namespace Entry

variable {entry : Entry}

theorem Legible.withStatus (h : entry.Legible) (status : Status) : (entry.withStatus status).Legible := h

theorem Legible.withAliveTime (h : entry.Legible) {time : Instant} (htime : time.Legible) :
    (entry.withAliveTime time).Legible := by
  obtain ⟨hsilo, hstart, -, hsuspicions⟩ := h
  exact ⟨hsilo, hstart, htime, hsuspicions⟩

theorem Legible.withSuspicion (h : entry.Legible) {suspicion : Suspicion} (hsuspicion : suspicion.Legible) :
    (entry.withSuspicion suspicion).Legible := by
  obtain ⟨hsilo, hstart, halive, hsuspicions⟩ := h
  refine ⟨hsilo, hstart, halive, fun other hother => ?_⟩
  rcases List.mem_append.mp hother with hother | hother
  · exact hsuspicions other hother
  · exact List.mem_singleton.mp hother ▸ hsuspicion

end Entry

theorem Snapshot.mem_of_rowFor? {snapshot : Snapshot} {silo : Silo} {row : Row} (h : snapshot.rowFor? silo = some row) :
    row ∈ snapshot.rows := List.mem_of_find?_eq_some h

-- Whatever legible rows and times it is shown, the plan writes legible rows and times.
def Plan.Legible : Plan α → Prop
  | done _ => True
  | ask call next => call.Legible ∧ ∀ answer, call.Shows answer → (next answer).Legible
  | wait _ next => next.Legible
  | chance next => ∀ share, (next share).Legible
  | clock next => ∀ now : Instant, now.Legible → (next now).Legible
  | publish _ next => next.Legible

theorem Plan.Legible.bind {plan : Plan α} {rest : α → Plan β} (h : plan.Legible)
    (hrest : ∀ value, (rest value).Legible) : (plan.bind rest).Legible := by
  induction plan with
  | done value => exact hrest value
  | ask call next ih => exact ⟨h.1, fun answer hshows => ih answer (h.2 answer hshows)⟩
  | wait _ next ih => exact ih h
  | chance next ih => exact fun share => ih share (h share)
  | clock next ih => exact fun now hnow => ih now (h now hnow)
  | publish _ next ih => exact ih h

namespace Updater

-- What is decided now makes a legible entry of a legible one.
def Decide.Legible (decide : Decide) (now : Instant) : Prop :=
  ∀ seen current next, current.Legible → decide seen now current = .ok (some next) → next.Legible

theorem legible_moveTo (silo : Silo) (status : Status) {now : Instant} (hnow : now.Legible) :
    Decide.Legible (moveTo silo status) now := by
  intro seen current next hcurrent hnext
  unfold moveTo at hnext
  split at hnext
  · cases hnext
  · split at hnext
    · obtain rfl := Option.some.inj (Except.ok.inj hnext)
      exact (hcurrent.withStatus status).withAliveTime hnow
    · cases hnext

theorem legible_suspect {suspicion : Suspicion} (h : suspicion.Legible) (now : Instant) :
    Decide.Legible (fun _ _ current => .ok (some (current.withSuspicion suspicion))) now := by
  intro seen current next hcurrent hnext
  obtain rfl := Option.some.inj (Except.ok.inj hnext)
  exact hcurrent.withSuspicion h

theorem legible_rounds {operation : String} {silo : Silo} {policy : Policy} {round : σ → Plan (σ × Round α)}
    (h : ∀ state, (round state).Legible) (left : Nat) (delay : Span) (state : σ) :
    (rounds operation silo policy round left delay state).Legible := by
  induction left generalizing delay state with
  | zero =>
    unfold rounds
    apply (h state).bind
    rintro ⟨state, _ | _⟩ <;> exact trivial
  | succ left ih =>
    unfold rounds
    apply (h state).bind
    rintro ⟨state, _ | _⟩
    · exact trivial
    · exact fun share => ih _ state

theorem legible_insertRound {entry : Entry} (h : entry.Legible) : (insertRound entry).Legible := by
  refine ⟨trivial, fun answer _ => ?_⟩
  obtain fault | snapshot := answer
  · exact trivial
  cases hrow : snapshot.rowFor? entry.silo with
  | some row =>
    simp only [Plan.bind, hrow]
    exact trivial
  | none =>
    simp only [Plan.bind, hrow]
    refine ⟨h, fun answer _ => ?_⟩
    obtain fault | _ | _ := answer <;> exact trivial

theorem legible_reviseRound {silo : Silo} {decide : Decide} (h : ∀ now : Instant, now.Legible → decide.Legible now)
    (seen : List Entry) : (reviseRound silo decide seen).Legible := by
  refine ⟨trivial, fun answer hshows => ?_⟩
  obtain fault | snapshot := answer
  · exact trivial
  cases hrow : snapshot.rowFor? silo with
  | none =>
    simp only [Plan.bind, hrow]
    exact trivial
  | some row =>
    simp only [Plan.bind, hrow]
    intro now hnow
    simp only [Plan.bind]
    cases hdecide : decide seen now row.entry with
    | error error => exact trivial
    | ok next =>
      cases next with
      | none => exact trivial
      | some entry =>
        have hentry : row.entry.Legible := hshows row (Snapshot.mem_of_rowFor? hrow)
        refine ⟨h now hnow seen row.entry entry hentry hdecide, fun answer _ => ?_⟩
        obtain fault | _ | _ := answer <;> exact trivial

theorem legible_insert {entry : Entry} (h : entry.Legible) (policy : Policy) :
    (Updater.insert policy entry).Legible := by
  refine (legible_rounds (fun () => ?_) _ _ ()).bind fun _ => trivial
  exact (legible_insertRound h).bind fun _ => trivial

theorem legible_updateStatus (policy : Policy) (silo : Silo) (status : Status) :
    (updateStatus policy silo status).Legible := by
  refine (legible_rounds (legible_reviseRound fun _ => legible_moveTo silo status) _ _ []).bind ?_
  rintro ⟨seen, _ | entry⟩
  · exact trivial
  · cases hseen : seen.getLast? with
    | none =>
      simp only [hseen]
      exact trivial
    | some previous =>
      simp only [hseen]
      split <;> exact trivial

theorem legible_addSuspicion (policy : Policy) (silo : Silo) {suspicion : Suspicion} (h : suspicion.Legible) :
    (addSuspicion policy silo suspicion).Legible := by
  refine (legible_rounds (legible_reviseRound fun now _ => legible_suspect h now) _ _ []).bind ?_
  rintro ⟨seen, _ | entry⟩ <;> exact trivial

-- What a task brings with it.
def Task.Legible : Task → Prop
  | insert entry => entry.Legible
  | moveTo _ _ => True
  | suspect _ suspicion => suspicion.Legible
  | heartbeat _ aliveTime => aliveTime.Legible

instance : (task : Task) → Decidable task.Legible
  | .insert entry => inferInstanceAs (Decidable entry.Legible)
  | .moveTo _ _ => instDecidableTrue
  | .suspect _ suspicion => inferInstanceAs (Decidable suspicion.Legible)
  | .heartbeat _ aliveTime => inferInstanceAs (Decidable aliveTime.Legible)

theorem Task.legible_plan {task : Task} (h : task.Legible) (policy : Policy) : (task.plan policy).Legible := by
  cases task with
  | insert entry => exact (legible_insert h policy).bind fun _ => trivial
  | moveTo silo status => exact (legible_updateStatus policy silo status).bind fun _ => trivial
  | suspect silo suspicion => exact (legible_addSuspicion policy silo h).bind fun _ => trivial
  | heartbeat entry aliveTime => exact ⟨h, fun _ _ => trivial⟩

end Updater
end Muster
