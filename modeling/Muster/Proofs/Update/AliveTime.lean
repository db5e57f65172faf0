import Muster.Proofs.Update.Effect

-- Alive times do not go by stamps and tokens. A suspicion therefore writes back the alive time of the
-- row it was decided on, and a heartbeat that came in between is lost.
namespace Muster

-- By seconds, then by nanoseconds, so that a leap second comes before the next one.
def Instant.precedes (a b : Instant) : Bool :=
  a.second < b.second || (a.second == b.second && a.nanos < b.nanos)

-- When a silo was last alive, as far as the table knows.
def Deployment.aliveTime? (table : Deployment) (silo : Silo) : Option Instant :=
  (table.rows.get? silo.rowKey).map fun row => row.entry.aliveTime

namespace Updater

def Exchange.beats (silo : Silo) (exchange : Exchange) : Prop :=
  ∃ entry, exchange.call = .mergeAlive entry ∧ entry.silo.rowKey = silo.rowKey

theorem Exchange.get?_after_of_lost {exchange : Exchange} {stage : Stage}
    (hmay : exchange.task.May stage exchange.call) (hlost : exchange.won = false) {silo : Silo}
    (hbeats : ¬exchange.beats silo) :
    exchange.after.rows.get? silo.rowKey = exchange.before.rows.get? silo.rowKey := by
  by_cases hbeat : ∃ entry, exchange.call = .mergeAlive entry
  · obtain ⟨entry, hcall⟩ := hbeat
    obtain hsame | hmerge := Exchange.after_of_mergeAlive hcall
    · rw [hsame]
    · have hkey : silo.rowKey ≠ entry.silo.rowKey := fun heq => hbeats ⟨entry, hcall, heq.symm⟩
      rw [Deployment.get?_of_mergeAlive hmerge]
      simp only [if_neg hkey, Option.map_id']
  · rw [Exchange.after_eq_of_lost hmay hlost fun entry hcall => hbeat ⟨entry, hcall⟩]

namespace World

variable {origin : Deployment} {world : World} {past between later : List Exchange}

theorem Accounted.aliveTime?_of_suspect (h : world.Accounted origin) {write : Exchange}
    (hlog : world.log = past ++ write :: later) (hwon : write.won) {silo : Silo} {suspicion : Suspicion}
    (htask : write.task = .suspect silo suspicion) :
    ∃ before read between stamp, past = before ++ read :: between ∧ read.party = write.party ∧
      read.call = .readRow silo ∧ (∀ other ∈ between, other.party ≠ write.party) ∧
      read.before.version = some stamp ∧ write.before.version = some stamp ∧
      write.after.aliveTime? silo = read.before.aliveTime? silo := by
  have hmay := h.may past write later hlog
  obtain ⟨entry, stamp, hcall, -⟩ | ⟨entry, stamp, stored, hcall, hversion, -, hafter⟩ :=
    Exchange.won_cases hwon
  · rw [hcall] at hmay
    have hinsert := hmay.of_insertRow
    rw [htask] at hinsert
    cases hinsert
  · obtain ⟨before, read, between, row, hpast, hparty, hread, hothers, hstamp, hfound, -, hsilo, hrevises⟩ :=
      h.exists_read hlog hcall
    rw [htask] at hread hfound hsilo hrevises
    obtain rfl : entry = row.entry.withSuspicion suspicion := hrevises
    refine ⟨before, read, between, stamp, hpast, hparty, hread, hothers, hstamp, hversion, ?_⟩
    have hkey : silo.rowKey = (row.entry.withSuspicion suspicion).silo.rowKey := by
      rw [Entry.silo_withSuspicion, hsilo]
      rfl
    rw [Deployment.aliveTime?, Deployment.aliveTime?, hafter, Deployment.get?_commit, if_pos hkey]
    simp only [Task.silo] at hfound
    rw [hfound]
    rfl

-- While no heartbeat comes in between, two calls that met one stamp met one alive time.
theorem Accounted.aliveTime?_eq (h : world.Accounted origin) (hstamped : origin.Stamped)
    {first last : Exchange} (hlog : world.log = past ++ first :: (between ++ last :: later)) {stamp : Version}
    (hfirst : first.before.version = some stamp) (hlast : last.before.version = some stamp)
    (hfew : (first :: between).countP Exchange.won < 2 ^ 63) {silo : Silo}
    (hbeats : ∀ exchange ∈ first :: between, ¬exchange.beats silo) :
    last.before.aliveTime? silo = first.before.aliveTime? silo := by
  obtain ⟨hlinked, hbetween⟩ := h.linked_between hlog
  have hget : last.before.rows.get? silo.rowKey = first.before.rows.get? silo.rowKey := by
    rw [hbetween]
    apply hlinked.view_eq fun table => table.rows.get? silo.rowKey
    intro exchange hmem
    obtain ⟨⟨stage, hmay⟩, hlost⟩ := h.lost_between hstamped hlog hfirst hlast hfew exchange hmem
    exact exchange.get?_after_of_lost hmay hlost (hbeats exchange hmem)
  rw [Deployment.aliveTime?, hget, Deployment.aliveTime?]

theorem suspicion_writes_back_alive_time (id : String) (operations : List Deployment.Operation)
    (moves : List Move) (past later : List Exchange) (write : Exchange) (silo : Silo) (suspicion : Suspicion)
    (hlog : ((start ((Deployment.new id).after operations)).after moves).log = past ++ write :: later)
    (hwon : write.won) (htask : write.task = .suspect silo suspicion) :
    ∃ before read between, past = before ++ read :: between ∧ read.party = write.party ∧
      read.call = .readRow silo ∧ (∀ other ∈ between, other.party ≠ write.party) ∧
      write.after.aliveTime? silo = read.before.aliveTime? silo ∧
      ((∀ other ∈ between, ¬other.beats silo) → between.countP Exchange.won < 2 ^ 63 →
        write.after.aliveTime? silo = write.before.aliveTime? silo) := by
  have h := (accounted_start ((Deployment.new id).after operations)).after moves
  have hstamped := Deployment.stamped_after (Deployment.stamped_new id) operations
  obtain ⟨before, read, between, stamp, rfl, hparty, hread, hothers, hfirst, hlast, htime⟩ :=
    h.aliveTime?_of_suspect hlog hwon htask
  refine ⟨before, read, between, rfl, hparty, hread, hothers, htime, fun hbeats hfew => ?_⟩
  have hlog' : ((start ((Deployment.new id).after operations)).after moves).log =
      before ++ read :: (between ++ write :: later) := by
    rw [hlog, List.append_assoc, List.cons_append]
  have hlook : read.won = false := by simp [Exchange.won, hread, Call.wins]
  rw [htime]
  symm
  apply h.aliveTime?_eq hstamped hlog' hfirst hlast
  · rwa [List.countP_cons_of_neg (by simp [hlook])]
  · intro exchange hmem
    rcases List.mem_cons.mp hmem with rfl | hmem
    · rintro ⟨entry, hbeat, -⟩
      simp [hread] at hbeat
    · exact hbeats exchange hmem

-- Party 0 adds a silo, party 1 suspects it, and by party 2 it shows that it is alive, each step by step
-- in a given order.
def beatAndSuspect (steps : List Nat) : List Move :=
  let entry := Entry.fresh (.onLoopback 11111 1) "a" .epoch
  let alive := (Instant.ofParts? 60 0).getD .epoch
  let tasks := [.insert entry, .suspect entry.silo ⟨.onLoopback 22222 1, .epoch⟩, .heartbeat entry alive]
  (tasks.map fun task => .enter task .standard) ++ steps.map fun index => .step index .epoch .never 0

def callsOf (moves : List Move) : List Exchange :=
  ((start ((Deployment.new "d").after [.establish 7])).after moves).log

-- The heartbeat comes before the reading, and its time stays.
theorem suspicion_writes_back_alive_time_after_heartbeat :
    ∃ past write later, callsOf (beatAndSuspect [0, 0, 0, 2, 1, 1, 1]) = past ++ write :: later ∧
      write.won ∧ write.task = .suspect (.onLoopback 11111 1) ⟨.onLoopback 22222 1, .epoch⟩ ∧
      ∃ before read between, past = before ++ read :: between ∧ read.party = write.party ∧
        write.after.aliveTime? (.onLoopback 11111 1) = read.before.aliveTime? (.onLoopback 11111 1) := by
  obtain ⟨past, later, write, hlog, hwon, htask⟩ : ∃ past later write,
      callsOf (beatAndSuspect [0, 0, 0, 2, 1, 1, 1]) = past ++ write :: later ∧ write.won ∧
      write.task = .suspect (.onLoopback 11111 1) ⟨.onLoopback 22222 1, .epoch⟩ := by
    have hsome : ∃ write ∈ callsOf (beatAndSuspect [0, 0, 0, 2, 1, 1, 1]), write.won ∧
        write.task = .suspect (.onLoopback 11111 1) ⟨.onLoopback 22222 1, .epoch⟩ := by decide +kernel
    obtain ⟨write, hmem, hwon, htask⟩ := hsome
    obtain ⟨past, later, hlog⟩ := List.append_of_mem hmem
    exact ⟨past, later, write, hlog, hwon, htask⟩
  obtain ⟨before, read, between, hpast, hparty, -, -, htime, -⟩ :=
    suspicion_writes_back_alive_time "d" [.establish 7] _ past later write _ _ hlog hwon htask
  exact ⟨past, write, later, hlog, hwon, htask, before, read, between, hpast, hparty, htime⟩

-- The heartbeat comes between the reading and the write, and the write undoes it.
theorem suspicion_undoes_heartbeat :
    ¬∀ (id : String) (operations : List Deployment.Operation) (moves : List Move),
      ∀ write ∈ ((start ((Deployment.new id).after operations)).after moves).log,
        ∀ silo suspicion, write.won → write.task = .suspect silo suspicion →
          ∀ before after, write.before.aliveTime? silo = some before →
            write.after.aliveTime? silo = some after → after.precedes before = false := by
  intro h
  have hundone : ∃ write ∈ callsOf (beatAndSuspect [0, 0, 0, 1, 2, 1, 1]), write.won ∧
      write.task = .suspect (.onLoopback 11111 1) ⟨.onLoopback 22222 1, .epoch⟩ ∧
      write.before.aliveTime? (.onLoopback 11111 1) = Instant.ofParts? 60 0 ∧
      write.after.aliveTime? (.onLoopback 11111 1) = some .epoch := by decide +kernel
  obtain ⟨write, hmem, hwon, htask, hbefore, hafter⟩ := hundone
  have hforward := h "d" [.establish 7] _ write hmem _ _ hwon htask _ _ hbefore hafter
  exact absurd hforward (by decide)

end World

end Updater
end Muster
