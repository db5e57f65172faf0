import Muster.Retry.Runner
import Muster.Update.Error
import Muster.Update.Plan

-- Changes of the roll by a party that shares the table with others: it reads a row, decides what to
-- write, and writes it on the condition that nobody else has written since.
namespace Muster.Updater

-- How a round of reading and writing ends: with the result of the whole change, or behind another writer.
inductive Round (α : Type) where
  | settled (result : Except UpdateError α)
  | lost

-- Takes rounds until one settles the change. After a lost round comes a delay and the next round, as
-- long as there are retries left.
def rounds (operation : String) (silo : Silo) (policy : Policy) (round : σ → Plan (σ × Round α)) :
    (left : Nat) → (delay : Span) → σ → Plan (σ × Except UpdateError α)
  | left, delay, state => do
    match ← round state with
    | (state, .settled result) => pure (state, result)
    | (state, .lost) =>
      let runner : Runner := ⟨policy, left, delay⟩
      match left with
      | 0 => pure (state, .error (.retryExhausted operation silo runner.attempts))
      | left + 1 => do
        Plan.pause (policy.jitter.apply (← Plan.draw) delay)
        rounds operation silo policy round left (runner.spend left).delay state

def retry (operation : String) (silo : Silo) (policy : Policy) (round : σ → Plan (σ × Round α)) (state : σ) :
    Plan (σ × Except UpdateError α) :=
  rounds operation silo policy round (Runner.start policy).left (Runner.start policy).delay state

-- One try to add a row: it is an error if the silo has one.
def insertRound (entry : Entry) : Plan (Round Unit) := do
  match ← Plan.call (.readRow entry.silo) with
  | .error fault => pure (.settled (.error (.table fault)))
  | .ok snapshot =>
    match snapshot.rowFor? entry.silo with
    | some _ => pure (.settled (.error (.alreadyExists entry.silo)))
    | none =>
      match ← Plan.call (.insertRow entry snapshot.version) with
      | .error fault => pure (.settled (.error (.table fault)))
      | .ok true => do
        Plan.tell (.siloRegistered entry.silo)
        pure (.settled (.ok ()))
      | .ok false => pure .lost

def insert (policy : Policy) (entry : Entry) : Plan (Except UpdateError Unit) := do
  let (_, result) ← retry "insert_entry" entry.silo policy (fun () => do pure ((), ← insertRound entry)) ()
  pure result

-- What a silo's row is to become. It may depend on the entries that earlier rounds of the same change
-- have read, on the clock and on the entry now read. Nothing means that the row stays as it is.
abbrev Decide := (seen : List Entry) → (now : Instant) → (current : Entry) → Except UpdateError (Option Entry)

-- One try to revise a row. The entry read is added to those seen, if there is a row.
def reviseRound (silo : Silo) (decide : Decide) (seen : List Entry) : Plan (List Entry × Round Entry) := do
  match ← Plan.call (.readRow silo) with
  | .error fault => pure (seen, .settled (.error (.table fault)))
  | .ok snapshot =>
    match snapshot.rowFor? silo with
    | none => pure (seen, .settled (.error (.notFound silo)))
    | some row => do
      let decision := decide seen (← Plan.now) row.entry
      let seen := seen ++ [row.entry]
      match decision with
      | .error error => pure (seen, .settled (.error error))
      | .ok none => pure (seen, .settled (.ok row.entry))
      | .ok (some entry) => do
        match ← Plan.call (.updateRow entry row.etag snapshot.version) with
        | .error fault => pure (seen, .settled (.error (.table fault)))
        | .ok true => pure (seen, .settled (.ok entry))
        | .ok false => pure (seen, .lost)

-- Revises the row of a silo as decided anew in every round. Gives the entries seen, oldest first, and
-- the entry that the row holds then.
def revise (policy : Policy) (silo : Silo) (decide : Decide) :
    Plan (List Entry × Except UpdateError Entry) :=
  retry "update_entry" silo policy (reviseRound silo decide) []

-- Moves a silo forward in its life. The silo counts as alive when this is decided, and a status that it
-- has already is not written again.
def moveTo (silo : Silo) (status : Status) : Decide := fun _ now current =>
  if current.status = status then .ok none
  else if current.status.precedes status then .ok (some ((current.withStatus status).withAliveTime now))
  else .error (.invalidTransition silo current.status status)

-- Moves a silo forward in its life, and tells about it if it was not there before.
def updateStatus (policy : Policy) (silo : Silo) (status : Status) : Plan (Except UpdateError Entry) := do
  let (seen, result) ← revise policy silo (moveTo silo status)
  match result, seen.getLast? with
  | .ok entry, some previous => do
    if previous.status ≠ status then Plan.tell (.statusChanged silo previous.status status)
    pure (.ok entry)
  | result, _ => pure result

def addSuspicion (policy : Policy) (silo : Silo) (suspicion : Suspicion) : Plan (Except UpdateError Entry) := do
  let (_, result) ← revise policy silo fun _ _ current => .ok (some (current.withSuspicion suspicion))
  match result with
  | .ok entry => do
    Plan.tell (.suspicionRecorded silo suspicion.voter)
    pure (.ok entry)
  | .error error => pure (.error error)

-- Notes that a silo is alive. This is no conditional write: it takes one call and no retry.
def heartbeat (entry : Entry) (aliveTime : Instant) : Plan (Except UpdateError Unit) := do
  let answer ← Plan.call (.mergeAlive (entry.withAliveTime aliveTime))
  pure (answer.mapError .table)

end Muster.Updater
