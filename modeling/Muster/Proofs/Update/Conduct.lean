import Muster.Update.Updater

-- What a change of the roll may ask of the table, and when. A plan is held to that whatever answers it
-- gets, so nothing here depends on the table or on the other parties.
namespace Muster

-- The calls that a party may make at a stage, and the stage that the answer takes it to.
structure Conduct (σ : Type) where
  may : σ → Call → Prop
  next : σ → (call : Call) → call.Answer → σ

namespace Plan

-- From a stage on the plan makes only calls that it may make, and what it is done with fits the stage
-- it has come to.
def Keeps (conduct : Conduct σ) (ends : σ → α → Prop) : Plan α → σ → Prop
  | done value, stage => ends stage value
  | ask call next, stage =>
    conduct.may stage call ∧ ∀ answer, (next answer).Keeps conduct ends (conduct.next stage call answer)
  | wait _ next, stage => next.Keeps conduct ends stage
  | chance next, stage => ∀ share, (next share).Keeps conduct ends stage
  | clock next, stage => ∀ now, (next now).Keeps conduct ends stage
  | publish _ next, stage => next.Keeps conduct ends stage

variable {conduct : Conduct σ} {middle : σ → α → Prop} {ends : σ → β → Prop}

theorem Keeps.bind {plan : Plan α} {rest : α → Plan β} {stage : σ} (h : plan.Keeps conduct middle stage)
    (hrest : ∀ value stage, middle stage value → (rest value).Keeps conduct ends stage) :
    (plan.bind rest).Keeps conduct ends stage := by
  induction plan generalizing stage with
  | done value => exact hrest value stage h
  | ask call next ih => exact ⟨h.1, fun answer => ih answer (h.2 answer)⟩
  | wait _ next ih => exact ih h
  | chance next ih => exact fun share => ih share (h share)
  | clock next ih => exact fun now => ih now (h now)
  | publish _ next ih => exact ih h

end Plan

namespace Updater

-- How far a change has come since its last round began. Once it has written it stays there, with the
-- entry it put in the place of another one.
inductive Stage where
  | idle
  | read (snapshot : Snapshot)
  | written (entry : Option Entry)
deriving DecidableEq

def Stage.next : Stage → (call : Call) → call.Answer → Stage
  | written entry, _, _ => written entry
  | _, .readRow _, .ok snapshot => read snapshot
  | _, .insertRow _ _, .ok true => written none
  | _, .updateRow entry _ _, .ok true => written (some entry)
  | _, .mergeAlive _, .ok () => written none
  | _, _, _ => idle

-- A change that has written is a success, and it gives the entry written.
def Stage.Ends : Stage → Except UpdateError (Option Entry) → Prop
  | written entry, result => result = .ok entry
  | _, _ => True

-- A change of the roll that a party sets out to make.
inductive Task where
  | insert (entry : Entry)
  | moveTo (silo : Silo) (status : Status)
  | suspect (silo : Silo) (suspicion : Suspicion)
  | heartbeat (entry : Entry) (aliveTime : Instant)
deriving DecidableEq

namespace Task

def silo : Task → Silo
  | insert entry => entry.silo
  | moveTo silo _ => silo
  | suspect silo _ => silo
  | heartbeat entry _ => entry.silo

def plan (policy : Policy) : Task → Plan (Except UpdateError (Option Entry))
  | insert entry => do pure ((← Updater.insert policy entry).map fun () => none)
  | moveTo silo status => do pure ((← updateStatus policy silo status).map some)
  | suspect silo suspicion => do pure ((← addSuspicion policy silo suspicion).map some)
  | heartbeat entry aliveTime => do pure ((← Updater.heartbeat entry aliveTime).map fun () => none)

-- What a change makes of an entry.
def Revises (task : Task) (current next : Entry) : Prop :=
  match task with
  | moveTo _ status =>
    current.status.precedes status ∧ ∃ now, next = (current.withStatus status).withAliveTime now
  | suspect _ suspicion => next = current.withSuspicion suspicion
  | _ => False

def suspicion? : Task → Option Suspicion
  | suspect _ suspicion => some suspicion
  | _ => none

-- A write goes by the row read just before it and by the stamp that came with it. Only a heartbeat is
-- sent without a reading.
inductive May (task : Task) : Stage → Call → Prop where
  | look : task.May .idle (.readRow task.silo)
  | insert (entry : Entry) (snapshot : Snapshot) (task_eq : task = .insert entry)
      (free : snapshot.rowFor? entry.silo = none) :
      task.May (.read snapshot) (.insertRow entry snapshot.version)
  | revise (row : Row) (entry : Entry) (snapshot : Snapshot) (found : snapshot.rowFor? task.silo = some row)
      (revises : task.Revises row.entry entry) :
      task.May (.read snapshot) (.updateRow entry row.etag snapshot.version)
  | beat (entry : Entry) (aliveTime : Instant) (task_eq : task = .heartbeat entry aliveTime) :
      task.May .idle (.mergeAlive (entry.withAliveTime aliveTime))

def conduct (task : Task) : Conduct Stage := ⟨task.May, Stage.next⟩

namespace May

variable {task : Task} {stage : Stage} {call : Call}

theorem of_insertRow {entry : Entry} {expected : Version} (h : task.May stage (.insertRow entry expected)) :
    task = .insert entry := by
  cases h with
  | insert _ _ htask => exact htask

theorem of_updateRow {entry : Entry} {etag : Etag} {expected : Version}
    (h : task.May stage (.updateRow entry etag expected)) :
    ∃ snapshot row, stage = .read snapshot ∧ snapshot.version = expected ∧
      snapshot.rowFor? task.silo = some row ∧ row.etag = etag ∧ task.Revises row.entry entry := by
  cases h with
  | revise row _ snapshot hfound hrevises => exact ⟨snapshot, row, rfl, rfl, hfound, rfl, hrevises⟩

theorem of_readRow {silo : Silo} (h : task.May stage (.readRow silo)) : silo = task.silo := by
  cases h
  rfl

theorem of_mergeAlive {entry : Entry} (h : task.May stage (.mergeAlive entry)) : stage = .idle := by
  cases h
  rfl

theorem ne_written (h : task.May stage call) (entry : Option Entry) : stage ≠ .written entry := by
  rintro rfl
  cases h

end May

namespace Revises

variable {task : Task} {current next : Entry}

-- An entry is moved forward in its life or suspected, and that is all.
theorem entry_cases (h : task.Revises current next) :
    (∃ status now, current.status.precedes status ∧ task.suspicion? = none ∧
      next = (current.withStatus status).withAliveTime now) ∨
    ∃ suspicion, task.suspicion? = some suspicion ∧ next = current.withSuspicion suspicion := by
  cases task with
  | moveTo silo status =>
      obtain ⟨hforward, now, hnext⟩ := h
      exact Or.inl ⟨status, now, hforward, rfl, hnext⟩
  | suspect silo suspicion => exact Or.inr ⟨suspicion, rfl, h⟩
  | insert entry => cases h
  | heartbeat entry aliveTime => cases h

theorem silo_eq (h : task.Revises current next) : next.silo = current.silo := by
  obtain ⟨status, now, -, -, rfl⟩ | ⟨suspicion, -, rfl⟩ := h.entry_cases
  · rw [Entry.silo_withAliveTime, Entry.silo_withStatus]
  · rw [Entry.silo_withSuspicion]

theorem status_forward (h : task.Revises current next) :
    next.status = current.status ∨ current.status.precedes next.status := by
  obtain ⟨status, now, hforward, -, rfl⟩ | ⟨suspicion, -, rfl⟩ := h.entry_cases
  · exact Or.inr hforward
  · exact Or.inl rfl

theorem suspicions_eq (h : task.Revises current next) :
    next.suspicions = current.suspicions ++ task.suspicion?.toList := by
  obtain ⟨status, now, -, hnone, rfl⟩ | ⟨suspicion, hsome, rfl⟩ := h.entry_cases
  · rw [hnone, Option.toList_none, List.append_nil]
    rfl
  · rw [hsome]
    rfl

end Revises

end Task

-- A round that is lost leaves its change where it began.
def Round.Ends (shown : α → Option Entry) (stage : Stage) : Round α → Prop
  | settled result => stage.Ends (result.map shown)
  | lost => stage = .idle

variable {task : Task} {shown : α → Option Entry}

theorem keeps_rounds {operation : String} {silo : Silo} {policy : Policy} {round : σ → Plan (σ × Round α)}
    (h : ∀ state, (round state).Keeps task.conduct (fun stage value => value.2.Ends shown stage) .idle)
    (left : Nat) (delay : Span) (state : σ) :
    (rounds operation silo policy round left delay state).Keeps task.conduct
      (fun stage value => stage.Ends (value.2.map shown)) .idle := by
  induction left generalizing delay state with
  | zero =>
      unfold rounds
      apply (h state).bind
      rintro ⟨state, _ | _⟩ stage hround
      · exact hround
      · obtain rfl : stage = .idle := hround
        exact trivial
  | succ left ih =>
      unfold rounds
      apply (h state).bind
      rintro ⟨state, _ | _⟩ stage hround
      · exact hround
      · obtain rfl : stage = .idle := hround
        exact fun share => ih _ state

theorem keeps_retry {operation : String} {silo : Silo} {policy : Policy} {round : σ → Plan (σ × Round α)}
    (h : ∀ state, (round state).Keeps task.conduct (fun stage value => value.2.Ends shown stage) .idle)
    (state : σ) :
    (retry operation silo policy round state).Keeps task.conduct
      (fun stage value => stage.Ends (value.2.map shown)) .idle :=
  keeps_rounds h _ _ state

theorem keeps_insertRound (entry : Entry) :
    (insertRound entry).Keeps (Task.insert entry).conduct
      (fun stage round => round.Ends (fun () => none) stage) .idle := by
  refine ⟨.look, fun answer => ?_⟩
  obtain fault | snapshot := answer
  · exact trivial
  cases hrow : snapshot.rowFor? entry.silo with
  | some row =>
      simp only [Plan.bind, hrow]
      exact trivial
  | none =>
      simp only [Plan.bind, hrow]
      refine ⟨.insert entry snapshot rfl hrow, fun answer => ?_⟩
      obtain fault | _ | _ := answer
      · exact trivial
      · exact rfl
      · exact rfl

-- Whatever is decided on the entry read is what the task makes of it.
theorem keeps_reviseRound {decide : Decide}
    (h : ∀ seen now current next, decide seen now current = .ok (some next) → task.Revises current next)
    (seen : List Entry) :
    (reviseRound task.silo decide seen).Keeps task.conduct
      (fun stage value => value.2.Ends some stage) .idle := by
  refine ⟨.look, fun answer => ?_⟩
  obtain fault | snapshot := answer
  · exact trivial
  cases hrow : snapshot.rowFor? task.silo with
  | none =>
      simp only [Plan.bind, hrow]
      exact trivial
  | some row =>
      simp only [Plan.bind, hrow]
      intro now
      simp only [Plan.bind]
      cases hdecide : decide seen now row.entry with
      | error error => exact trivial
      | ok next =>
          cases next with
          | none => exact trivial
          | some entry =>
              refine ⟨.revise row entry snapshot hrow (h _ _ _ _ hdecide), fun answer => ?_⟩
              obtain fault | _ | _ := answer
              · exact trivial
              · exact rfl
              · exact rfl

theorem keeps_revise {policy : Policy} {decide : Decide}
    (h : ∀ seen now current next, decide seen now current = .ok (some next) → task.Revises current next) :
    (revise policy task.silo decide).Keeps task.conduct
      (fun stage value => stage.Ends (value.2.map some)) .idle :=
  keeps_retry (keeps_reviseRound h) []

theorem revises_of_moveTo {silo : Silo} {status : Status} {seen : List Entry} {now : Instant}
    {current next : Entry} (h : moveTo silo status seen now current = .ok (some next)) :
    (Task.moveTo silo status).Revises current next := by
  unfold moveTo at h
  split at h
  · simp at h
  · split at h
    · next hforward =>
        simp only [Except.ok.injEq, Option.some.injEq] at h
        exact ⟨hforward, now, h.symm⟩
    · simp at h

theorem keeps_insert (policy : Policy) (entry : Entry) :
    (Updater.insert policy entry).Keeps (Task.insert entry).conduct
      (fun stage result => stage.Ends (result.map fun () => none)) .idle := by
  refine (keeps_retry (fun () => ?_) ()).bind fun _ _ hresult => hresult
  exact (keeps_insertRound entry).bind fun _ _ hround => hround

theorem keeps_updateStatus (policy : Policy) (silo : Silo) (status : Status) :
    (updateStatus policy silo status).Keeps (Task.moveTo silo status).conduct
      (fun stage result => stage.Ends (result.map some)) .idle := by
  have hrevise : (revise policy silo (moveTo silo status)).Keeps (Task.moveTo silo status).conduct
      (fun stage value => stage.Ends (value.2.map some)) .idle :=
    keeps_revise fun _ _ _ _ => revises_of_moveTo
  apply hrevise.bind
  rintro ⟨seen, _ | entry⟩ stage hresult
  · exact hresult
  · cases hseen : seen.getLast? with
    | none =>
        simp only [hseen]
        exact hresult
    | some previous =>
        simp only [hseen]
        split
        · exact hresult
        · exact hresult

theorem keeps_addSuspicion (policy : Policy) (silo : Silo) (suspicion : Suspicion) :
    (addSuspicion policy silo suspicion).Keeps (Task.suspect silo suspicion).conduct
      (fun stage result => stage.Ends (result.map some)) .idle := by
  have hrevise : (revise policy silo fun _ _ current => .ok (some (current.withSuspicion suspicion))).Keeps
      (Task.suspect silo suspicion).conduct (fun stage value => stage.Ends (value.2.map some)) .idle :=
    keeps_revise fun _ _ _ _ h => (Option.some.inj (Except.ok.inj h)).symm
  apply hrevise.bind
  rintro ⟨seen, _ | entry⟩ stage hresult
  · exact hresult
  · exact hresult

theorem keeps_heartbeat (entry : Entry) (aliveTime : Instant) :
    (Updater.heartbeat entry aliveTime).Keeps (Task.heartbeat entry aliveTime).conduct
      (fun stage result => stage.Ends (result.map fun () => none)) .idle := by
  refine ⟨.beat entry aliveTime rfl, fun answer => ?_⟩
  obtain fault | _ := answer
  · exact trivial
  · exact rfl

theorem Task.keeps_plan (task : Task) (policy : Policy) :
    (task.plan policy).Keeps task.conduct Stage.Ends .idle := by
  cases task with
  | insert entry => exact (keeps_insert policy entry).bind fun _ _ hresult => hresult
  | moveTo silo status => exact (keeps_updateStatus policy silo status).bind fun _ _ hresult => hresult
  | suspect silo suspicion =>
      exact (keeps_addSuspicion policy silo suspicion).bind fun _ _ hresult => hresult
  | heartbeat entry aliveTime => exact (keeps_heartbeat entry aliveTime).bind fun _ _ hresult => hresult

end Updater
end Muster
