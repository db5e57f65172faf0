import Muster.Proofs.Update.Conduct

-- How a party stands with the table and with those who hear of its events, whatever answers it gets: what
-- it has read, whether its last write was lost, and what it still has to tell.
namespace Muster

theorem Status.ne_of_precedes {a b : Status} (h : a.precedes b) : a ≠ b := by
  rintro rfl
  simp [Status.precedes] at h

-- The change has been given up for want of retries.
def Updater.isExhausted : Except UpdateError α → Bool
  | .error (.retryExhausted _ _ _) => true
  | _ => false

namespace Updater

theorem isExhausted_map (f : α → β) (result : Except UpdateError α) :
    isExhausted (result.map f) = isExhausted result := by
  cases result with
  | ok value => rfl
  | error error => cases error <;> rfl

-- The event that goes with a change of the table, when the change was decided on a snapshot.
def Task.news? (snapshot : Snapshot) : Task → Option Event
  | insert entry => some (.siloRegistered entry.silo)
  | moveTo silo status =>
    (snapshot.rowFor? silo).map fun row => .statusChanged silo row.entry.status status
  | suspect silo suspicion => some (.suspicionRecorded silo suspicion.voter)
  | heartbeat _ _ => none

inductive Footing where
  | idle
  | read (snapshot : Snapshot)
  | lost
  | owes (event : Event)
  | settled
deriving DecidableEq

namespace Footing

-- Before a reading there is no difference between a first round and a later one.
def IsOpen (footing : Footing) : Prop := footing = idle ∨ footing = lost

def owing : Option Event → Footing
  | some event => owes event
  | none => settled

def event? : Footing → Option Event
  | owes event => some event
  | _ => none

def stage : Footing → Stage
  | idle | lost => .idle
  | read snapshot => .read snapshot
  | owes _ | settled => .written none

-- Where an answer takes a party that has made a call.
def hear (task : Task) : Footing → (call : Call) → call.Answer → Footing
  | _, .readRow _, .ok snapshot => read snapshot
  | read snapshot, .insertRow _ _, .ok true => owing (task.news? snapshot)
  | read snapshot, .updateRow _ _ _, .ok true => owing (task.news? snapshot)
  | _, .insertRow _ _, .ok false => lost
  | _, .updateRow _ _ _, .ok false => lost
  | _, _, _ => settled

-- Nobody is done who still has something to tell, and only who has lost gives up.
structure Ends (footing : Footing) (result : Except UpdateError α) : Prop where
  told : footing.event? = none
  exhausted : isExhausted result = true → footing = lost

theorem Ends.of_told {footing : Footing} {result : Except UpdateError α} (htold : footing.event? = none)
    (hresult : isExhausted result = false) : footing.Ends result where
  told := htold
  exhausted hexhausted := by simp [hresult] at hexhausted

theorem ends_map {footing : Footing} {result : Except UpdateError α} (f : α → β) (h : footing.Ends result) :
    footing.Ends (result.map f) where
  told := h.told
  exhausted hmap := h.exhausted (isExhausted_map f result ▸ hmap)

end Footing
end Updater

namespace Plan

open Updater (Task Footing)

-- From a footing on the plan makes only calls that its task may make, pauses only behind a lost write, and
-- tells at once what it owes.
def Follows (task : Task) (ends : Footing → α → Prop) : Plan α → Footing → Prop
  | done value, footing => ends footing value
  | ask call next, footing =>
    task.May footing.stage call ∧ ∀ answer, (next answer).Follows task ends (footing.hear task call answer)
  | wait _ next, footing => footing = .lost ∧ next.Follows task ends footing
  | chance next, footing => footing = .lost ∧ ∀ share, (next share).Follows task ends footing
  | clock next, footing => ∀ now, (next now).Follows task ends footing
  | publish event next, footing => footing = .owes event ∧ next.Follows task ends .settled

variable {task : Task} {middle : Footing → α → Prop} {ends : Footing → β → Prop} {footing : Footing}

theorem Follows.bind {plan : Plan α} {rest : α → Plan β} (h : plan.Follows task middle footing)
    (hrest : ∀ value footing, middle footing value → (rest value).Follows task ends footing) :
    (plan.bind rest).Follows task ends footing := by
  induction plan generalizing footing with
  | done value => exact hrest value footing h
  | ask call next ih => exact ⟨h.1, fun answer => ih answer (h.2 answer)⟩
  | wait _ next ih => exact ⟨h.1, ih h.2⟩
  | chance next ih => exact ⟨h.1, fun share => ih share (h.2 share)⟩
  | clock next ih => exact fun now => ih now (h now)
  | publish _ next ih => exact ⟨h.1, ih h.2⟩

end Plan

namespace Updater

open Footing (IsOpen Ends)

variable {task : Task} {footing : Footing}

theorem Footing.IsOpen.stage_eq (h : footing.IsOpen) : footing.stage = .idle := by
  rcases h with rfl | rfl <;> rfl

theorem Footing.read_of_stage {snapshot : Snapshot} (h : footing.stage = .read snapshot) :
    footing = .read snapshot := by
  cases footing with
  | read shown => rw [Stage.read.inj h]
  | _ => cases h

-- A round that settles the change ends as the change is to end. Behind a lost one comes the next.
def Round.Leaves (ends : Footing → Except UpdateError α → Prop) (footing : Footing) : Round α → Prop
  | settled result => ends footing result
  | lost => footing = .lost

theorem follows_rounds {operation : String} {silo : Silo} {policy : Policy} {round : σ → Plan (σ × Round α)}
    (ends : σ → Footing → Except UpdateError α → Prop)
    (hround : ∀ state footing, footing.IsOpen →
      (round state).Follows task (fun footing value => value.2.Leaves (ends value.1) footing) footing)
    (hexhausted : ∀ state error, isExhausted (.error error : Except UpdateError α) → ends state .lost (.error error))
    (left : Nat) (delay : Span) (state : σ) (hopen : footing.IsOpen) :
    (rounds operation silo policy round left delay state).Follows task
      (fun footing value => ends value.1 footing value.2) footing := by
  induction left generalizing delay state footing with
  | zero =>
      unfold rounds
      apply (hround state footing hopen).bind
      rintro ⟨state, _ | _⟩ footing hends
      · exact hends
      · obtain rfl : footing = .lost := hends
        exact hexhausted state _ rfl
  | succ left ih =>
      unfold rounds
      apply (hround state footing hopen).bind
      rintro ⟨state, _ | _⟩ footing hends
      · exact hends
      · obtain rfl : footing = .lost := hends
        exact ⟨rfl, fun share => ⟨rfl, ih _ state (Or.inr rfl)⟩⟩

theorem follows_insertRound (entry : Entry) (hopen : footing.IsOpen) :
    (insertRound entry).Follows (.insert entry) (fun footing round => round.Leaves Ends footing) footing := by
  refine ⟨hopen.stage_eq ▸ .look, fun answer => ?_⟩
  obtain fault | snapshot := answer
  · rcases hopen with rfl | rfl <;> exact Ends.of_told rfl rfl
  cases hrow : snapshot.rowFor? entry.silo with
  | some row =>
      simp only [Plan.bind, hrow]
      exact Ends.of_told rfl rfl
  | none =>
      simp only [Plan.bind, hrow]
      refine ⟨.insert entry snapshot rfl hrow, fun answer => ?_⟩
      obtain fault | _ | _ := answer
      · exact Ends.of_told rfl rfl
      · exact rfl
      · exact ⟨rfl, Ends.of_told rfl rfl⟩

theorem follows_insert (policy : Policy) (entry : Entry) :
    (Updater.insert policy entry).Follows (.insert entry) Ends .idle := by
  have hretry : (retry "insert_entry" entry.silo policy (fun () => do pure ((), ← insertRound entry)) ()).Follows
      (.insert entry) (fun footing value => footing.Ends value.2) .idle := by
    refine follows_rounds (fun _ => Ends) (fun _ footing hopen => ?_) (fun _ _ _ => ⟨rfl, fun _ => rfl⟩)
      _ _ () (Or.inl rfl)
    exact (follows_insertRound entry hopen).bind fun _ _ hround => hround
  exact hretry.bind fun _ _ hends => hends

-- How a revision ends: with an error, or with an entry that it has written in place of the one it read
-- last, or with the one it read last.
def RevisionEnds (task : Task) (decide : Decide) (seen : List Entry) (footing : Footing) :
    Except UpdateError Entry → Prop
  | .error error => footing.Ends (.error error : Except UpdateError Entry)
  | .ok _ => ∃ snapshot row, snapshot.rowFor? task.silo = some row ∧ seen.getLast? = some row.entry ∧
    ((footing = .owing (task.news? snapshot) ∧ ∃ next, task.Revises row.entry next) ∨
      (footing = .read snapshot ∧ ∃ earlier now, decide earlier now row.entry = .ok none))

theorem follows_reviseRound {decide : Decide}
    (hrevises : ∀ seen now current next, decide seen now current = .ok (some next) → task.Revises current next)
    (herror : ∀ seen now current error, decide seen now current = .error error →
      isExhausted (.error error : Except UpdateError Entry) = false)
    (seen : List Entry) (hopen : footing.IsOpen) :
    (reviseRound task.silo decide seen).Follows task
      (fun footing value => value.2.Leaves (RevisionEnds task decide value.1) footing) footing := by
  refine ⟨hopen.stage_eq ▸ .look, fun answer => ?_⟩
  obtain fault | snapshot := answer
  · rcases hopen with rfl | rfl <;> exact Ends.of_told rfl rfl
  cases hrow : snapshot.rowFor? task.silo with
  | none =>
      simp only [Plan.bind, hrow]
      exact Ends.of_told rfl rfl
  | some row =>
      simp only [Plan.bind, hrow]
      intro now
      simp only [Plan.bind]
      cases hdecide : decide seen now row.entry with
      | error error => exact Ends.of_told rfl (herror _ _ _ _ hdecide)
      | ok next =>
          have hlast : (seen ++ [row.entry]).getLast? = some row.entry := List.getLast?_concat
          cases next with
          | none => exact ⟨snapshot, row, hrow, hlast, Or.inr ⟨rfl, seen, now, hdecide⟩⟩
          | some entry =>
              have hentry := hrevises _ _ _ _ hdecide
              refine ⟨.revise row entry snapshot hrow hentry, fun answer => ?_⟩
              obtain fault | _ | _ := answer
              · exact Ends.of_told rfl rfl
              · exact rfl
              · exact ⟨snapshot, row, hrow, hlast, Or.inl ⟨rfl, entry, hentry⟩⟩

theorem follows_revise (policy : Policy) {decide : Decide}
    (hrevises : ∀ seen now current next, decide seen now current = .ok (some next) → task.Revises current next)
    (herror : ∀ seen now current error, decide seen now current = .error error →
      isExhausted (.error error : Except UpdateError Entry) = false) :
    (revise policy task.silo decide).Follows task
      (fun footing value => RevisionEnds task decide value.1 footing value.2) .idle :=
  follows_rounds (RevisionEnds task decide) (fun seen _ hopen => follows_reviseRound hrevises herror seen hopen)
    (fun _ _ _ => ⟨rfl, fun _ => rfl⟩) _ _ [] (Or.inl rfl)

theorem moveTo_eq_none {silo : Silo} {status : Status} {seen : List Entry} {now : Instant} {current : Entry}
    (h : moveTo silo status seen now current = .ok none) : current.status = status := by
  unfold moveTo at h
  split at h
  · assumption
  · split at h <;> simp at h

theorem isExhausted_moveTo {silo : Silo} {status : Status} {seen : List Entry} {now : Instant} {current : Entry}
    {error : UpdateError} (h : moveTo silo status seen now current = .error error) :
    isExhausted (.error error : Except UpdateError Entry) = false := by
  unfold moveTo at h
  split at h
  · cases h
  · split at h
    · cases h
    · rw [← Except.error.inj h]
      rfl

theorem follows_updateStatus (policy : Policy) (silo : Silo) (status : Status) :
    (updateStatus policy silo status).Follows (.moveTo silo status) Ends .idle := by
  have hrevise : (revise policy silo (moveTo silo status)).Follows (.moveTo silo status)
      (fun footing value => RevisionEnds (.moveTo silo status) (moveTo silo status) value.1 footing value.2) .idle :=
    follows_revise policy (fun _ _ _ _ => revises_of_moveTo) (fun _ _ _ _ => isExhausted_moveTo)
  apply hrevise.bind
  rintro ⟨seen, error | entry⟩ footing hends
  · exact hends
  obtain ⟨snapshot, row, hrow, hlast, ⟨rfl, next, hforward, -⟩ | ⟨rfl, earlier, now, hnone⟩⟩ := hends
  · simp only [hlast]
    rw [if_pos (Status.ne_of_precedes hforward)]
    refine ⟨?_, Ends.of_told rfl rfl⟩
    simp only [Task.silo] at hrow
    simp only [Task.news?, hrow, Option.map_some, Footing.owing]
  · simp only [hlast]
    rw [if_neg (not_not_intro (moveTo_eq_none hnone))]
    exact Ends.of_told rfl rfl

theorem follows_addSuspicion (policy : Policy) (silo : Silo) (suspicion : Suspicion) :
    (addSuspicion policy silo suspicion).Follows (.suspect silo suspicion) Ends .idle := by
  let decide : Decide := fun _ _ current => .ok (some (current.withSuspicion suspicion))
  have hrevise : (revise policy silo decide).Follows (.suspect silo suspicion)
      (fun footing value => RevisionEnds (.suspect silo suspicion) decide value.1 footing value.2) .idle :=
    follows_revise policy (fun _ _ _ _ h => (Option.some.inj (Except.ok.inj h)).symm) fun _ _ _ _ h => by cases h
  apply hrevise.bind
  rintro ⟨seen, error | entry⟩ footing hends
  · exact hends
  obtain ⟨snapshot, row, -, -, ⟨rfl, -⟩ | ⟨rfl, earlier, now, hnone⟩⟩ := hends
  · exact ⟨rfl, Ends.of_told rfl rfl⟩
  · cases hnone

theorem follows_heartbeat (entry : Entry) (aliveTime : Instant) :
    (Updater.heartbeat entry aliveTime).Follows (.heartbeat entry aliveTime) Ends .idle := by
  refine ⟨.beat entry aliveTime rfl, fun answer => ?_⟩
  obtain fault | _ := answer <;> exact Ends.of_told rfl rfl

theorem Task.follows_plan (task : Task) (policy : Policy) : (task.plan policy).Follows task Ends .idle := by
  cases task with
  | insert entry => exact (follows_insert policy entry).bind fun _ _ => Footing.ends_map _
  | moveTo silo status => exact (follows_updateStatus policy silo status).bind fun _ _ => Footing.ends_map _
  | suspect silo suspicion =>
      exact (follows_addSuspicion policy silo suspicion).bind fun _ _ => Footing.ends_map _
  | heartbeat entry aliveTime => exact (follows_heartbeat entry aliveTime).bind fun _ _ => Footing.ends_map _

end Updater
end Muster
