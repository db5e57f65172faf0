import Muster.Placement.Service
import Muster.Proofs.Table.Counter

-- Snapshots of one table that reach a placement service, in any order and any number of times.
namespace Muster

namespace PlacementService

open Deployment (Operation Turn)

-- Every snapshot that the turns have given reaches the service, one after the other.
def told (service : PlacementService) (reads : List Turn) : PlacementService :=
  (reads.filterMap Turn.snapshot?).foldl updateMembership service

-- The service knows the active silos of the snapshot, and sends calls to no others.
structure Shows (service : PlacementService) (snapshot : Snapshot) : Prop where
  active : service.active = snapshot.activeSilos
  alive : ∀ silo, service.ensureAlive silo =
    if silo ∈ snapshot.activeSilos then .ok () else .error (.siloUnavailable silo)

-- The snapshot is among those read, and none of them has a higher version.
structure Newest (reads : List Turn) (snapshot : Snapshot) : Prop where
  read : ∃ turn ∈ reads, turn.snapshot? = some snapshot
  highest : ∀ turn ∈ reads, ∀ other, turn.snapshot? = some other → other.version.counter ≤ snapshot.version.counter

variable {service : PlacementService} {table : Deployment} {life : List Operation} {snapshot other : Snapshot}
  {reads : List Turn} {read last : Turn}

theorem shows_iff : service.Shows snapshot ↔ service.active = snapshot.activeSilos := by
  refine ⟨Shows.active, fun hactive => ⟨hactive, fun silo => ?_⟩⟩
  simp only [ensureAlive, hactive, List.contains_iff_mem]

theorem told_concat (service : PlacementService) (reads : List Turn) (h : last.snapshot? = some snapshot) :
    service.told (reads ++ [last]) = (service.told reads).updateMembership snapshot := by
  simp only [told, List.filterMap_append, List.filterMap_cons_some h, List.filterMap_nil, List.foldl_append,
    List.foldl_cons, List.foldl_nil]

theorem counted_of_snapshot (h : read.snapshot? = some snapshot) :
    read.before.counted = snapshot.version.counter.toInt :=
  Deployment.counted_of_version (Turn.version_of_snapshot h)

-- Snapshots of one version show the same active silos, if they have been asked for in the same way.
theorem activeSilos_eq (h : table.Unbroken life) (hread : read ∈ table.turns life) (hlast : last ∈ table.turns life)
    (hoperation : read.operation = last.operation) (hshown : read.snapshot? = some other)
    (hsnapshot : last.snapshot? = some snapshot) (hcounter : other.version.counter = snapshot.version.counter) :
    other.activeSilos = snapshot.activeSilos := by
  have hcounted : read.before.counted = last.before.counted := by
    rw [counted_of_snapshot hshown, counted_of_snapshot hsnapshot, hcounter]
  have hversion : ∀ {turn : Turn} {shown}, turn.snapshot? = some shown → turn.before.version ≠ none := fun hturn => by
    simp [Turn.version_of_snapshot hturn]
  have hstill := h.alike hread hlast (hversion hshown) (hversion hsnapshot) hcounted
  rw [← Snapshot.activeSilos_still, Turn.still_of_snapshot hoperation hstill hshown hsnapshot,
    Snapshot.activeSilos_still]

-- The snapshot that reaches the service last is what it shows, whatever came before. So it shows the newest one
-- if that, or another one of the same version that was asked for in the same way, comes last, as it does when the
-- snapshots come in the order in which they have been read.
theorem last_news_is_shown (service : PlacementService) (table : Deployment) (life : List Operation)
    (h : table.Unbroken life) (earlier : List Turn) (last : Turn) (snapshot : Snapshot)
    (hreads : ∀ read ∈ earlier ++ [last], read ∈ table.turns life) (hlast : last.snapshot? = some snapshot) :
    let reads := earlier ++ [last]
    (service.told reads).Shows snapshot ∧
    (∀ read ∈ reads, ∀ newest, read.snapshot? = some newest → read.operation = last.operation →
      Newest reads newest → Newest reads snapshot → (service.told reads).Shows newest) ∧
    ((∀ read ∈ reads, read = last ∨ [read, last].Sublist (table.turns life)) → Newest reads snapshot) := by
  intro reads
  have hmem : last ∈ reads := List.mem_append_right _ (List.mem_singleton_self last)
  have hactive : (service.told reads).active = snapshot.activeSilos :=
    congrArg PlacementService.active (told_concat service earlier hlast)
  refine ⟨shows_iff.mpr hactive, fun read hread newest hnewest hoperation hhigh hfresh => ?_, fun horder => ?_⟩
  · have hcounter : newest.version.counter = snapshot.version.counter :=
      Int64.le_antisymm (hfresh.highest read hread newest hnewest) (hhigh.highest last hmem snapshot hlast)
    refine shows_iff.mpr (hactive.trans ?_)
    exact (activeSilos_eq h (hreads read hread) (hreads last hmem) hoperation hnewest hlast hcounter).symm
  · refine ⟨⟨last, hmem, hlast⟩, fun read hread shown hshown => ?_⟩
    rw [Int64.le_iff_toInt_le, ← counted_of_snapshot hshown, ← counted_of_snapshot hlast]
    obtain rfl | hpair := horder read hread
    · exact Int.le_refl _
    · exact (h.turns_in_order hpair).1

-- The last days of a silo. It is read as active, and twice as dead, before and after its last heartbeat.
def lastDays : List Operation :=
  let entry := (Entry.fresh (.onLoopback 11111 1) "a" .epoch).withStatus .active
  [.establish 7, .insertRow entry ⟨0, Deployment.tokenOf 7 1⟩, .readAll,
    .updateRow (entry.withStatus .dead) ⟨Deployment.tokenOf 7 2⟩ ⟨1, Deployment.tokenOf 7 3⟩, .readAll,
    .mergeAlive (entry.withAliveTime ((Instant.ofParts? 60 0).getD .epoch)), .readAll]

def turnOf (day : Fin 7) : Turn :=
  ((Deployment.new "d").turns lastDays).get (day.cast (Deployment.length_turns _ _).symm)

def shownOn (status : Status) (seconds : Int) (sequence : UInt64) : Snapshot :=
  let entry := (Entry.fresh (.onLoopback 11111 1) "a" .epoch).withStatus status
  ⟨[⟨entry.withAliveTime ((Instant.ofParts? seconds 0).getD .epoch), ⟨Deployment.tokenOf 7 (2 * sequence)⟩⟩],
    ⟨sequence.toInt64, Deployment.tokenOf 7 (2 * sequence + 1)⟩⟩

theorem unbroken_lastDays : (Deployment.new "d").Unbroken lastDays := ⟨by decide +kernel, by decide +kernel⟩

theorem turnOf_mem (day : Fin 7) : turnOf day ∈ (Deployment.new "d").turns lastDays := List.get_mem _ _

theorem snapshots_of_lastDays :
    (turnOf 2).snapshot? = some (shownOn .active 0 1) ∧ (turnOf 4).snapshot? = some (shownOn .dead 0 2) ∧
      (turnOf 6).snapshot? = some (shownOn .dead 60 2) := by
  decide +kernel

theorem newest_of_dead {seconds : Int} (hreads : ∀ turn ∈ reads, turn ∈ [turnOf 2, turnOf 4, turnOf 6])
    (hread : read ∈ reads) (hshown : read.snapshot? = some (shownOn .dead seconds 2)) :
    Newest reads (shownOn .dead seconds 2) := by
  obtain ⟨hactive, hdead, hbeaten⟩ := snapshots_of_lastDays
  have hlower : (1 : UInt64).toInt64 ≤ (2 : UInt64).toInt64 := by decide
  refine ⟨⟨read, hread, hshown⟩, fun turn hturn => ?_⟩
  have hcases := hreads turn hturn
  simp only [List.mem_cons, List.not_mem_nil, or_false] at hcases
  obtain rfl | rfl | rfl := hcases
  · rw [hactive]
    rintro _ ⟨⟩
    exact hlower
  · rw [hdead]
    rintro _ ⟨⟩
    exact Int64.le_refl _
  · rw [hbeaten]
    rintro _ ⟨⟩
    exact Int64.le_refl _

theorem last_news_is_shown_after_heartbeat :
    let service := PlacementService.new (.onLoopback 22222 1) .standard .standard
    let reads := [turnOf 6, turnOf 2, turnOf 4]
    (Deployment.new "d").Unbroken lastDays ∧ (∀ read ∈ reads, read ∈ (Deployment.new "d").turns lastDays) ∧
    (turnOf 4).snapshot? = some (shownOn .dead 0 2) ∧ (turnOf 6).snapshot? = some (shownOn .dead 60 2) ∧
    Newest reads (shownOn .dead 0 2) ∧ Newest reads (shownOn .dead 60 2) ∧
    (service.told reads).Shows (shownOn .dead 0 2) ∧ (service.told reads).Shows (shownOn .dead 60 2) := by
  intro service reads
  obtain ⟨-, hdead, hbeaten⟩ := snapshots_of_lastDays
  have hreads : ∀ read ∈ reads, read ∈ (Deployment.new "d").turns lastDays := by
    simp only [reads, List.forall_mem_cons, turnOf_mem, true_and]
    exact List.forall_mem_nil _
  have hlast : Newest reads (shownOn .dead 0 2) := newest_of_dead (by simp [reads]) (by simp [reads]) hdead
  have hfirst : Newest reads (shownOn .dead 60 2) := newest_of_dead (by simp [reads]) (by simp [reads]) hbeaten
  obtain ⟨hshows, hsame, -⟩ := last_news_is_shown service (.new "d") lastDays unbroken_lastDays [turnOf 6, turnOf 2]
    (turnOf 4) (shownOn .dead 0 2) hreads hdead
  exact ⟨unbroken_lastDays, hreads, hdead, hbeaten, hlast, hfirst, hshows,
    hsame (turnOf 6) (by simp) _ hbeaten rfl hfirst hlast⟩

-- The reading of the silo as active is late. The silo is dead by the newest snapshot, and calls go to it again.
theorem late_news_revives_silo :
    let service := PlacementService.new (.onLoopback 22222 1) .standard .standard
    let silo := Silo.onLoopback 11111 1
    let reads := [turnOf 4, turnOf 2]
    (Deployment.new "d").Unbroken lastDays ∧ (∀ read ∈ reads, read ∈ (Deployment.new "d").turns lastDays) ∧
    Newest reads (shownOn .dead 0 2) ∧ ¬(service.told reads).Shows (shownOn .dead 0 2) ∧
    (service.told [turnOf 4]).ensureAlive silo = .error (.siloUnavailable silo) ∧
    (service.told reads).active = [silo] ∧ (service.told reads).ensureAlive silo = .ok () := by
  intro service silo reads
  have hreads : ∀ read ∈ reads, read ∈ (Deployment.new "d").turns lastDays := by
    simp only [reads, List.forall_mem_cons, turnOf_mem, true_and]
    exact List.forall_mem_nil _
  have hnewest : Newest reads (shownOn .dead 0 2) :=
    newest_of_dead (by simp [reads]) (by simp [reads]) snapshots_of_lastDays.2.1
  have hnobody : (shownOn .dead 0 2).activeSilos = [] := by decide +kernel
  have hgone : (service.told [turnOf 4]).active = [] := by decide +kernel
  have hback : (service.told reads).active = [silo] := by decide +kernel
  refine ⟨unbroken_lastDays, hreads, hnewest, fun hshows => ?_, ?_, hback, ?_⟩
  · cases hback.symm.trans (hshows.active.trans hnobody)
  · simp [ensureAlive, hgone]
  · simp [ensureAlive, hback]

end PlacementService
end Muster
