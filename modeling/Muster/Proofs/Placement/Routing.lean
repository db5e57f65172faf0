import Muster.Proofs.Placement.Decision
import Muster.Proofs.Placement.Directory
import Muster.Proofs.Time.Work
import Muster.Rig.Routing

-- Placements on a rig: what the directory answers in time, what is decided on it, and what is published.
namespace Muster

theorem Rig.set_directory (rig : Rig) (n : Nat) :
    ({ rig with directories := rig.directories.set n (rig.directory n) } : Rig) = rig := by
  rw [directory, set_getD]

namespace DirectoryHandle

-- How long a lookup takes.
def delay (clock : Clock) : DirectoryHandle → Nat
  | plain _ => 0
  | slow inner latency => clock.sleepTicks latency + inner.delay clock

-- What a lookup comes to: what the directory says, or nothing in time.
def answer (clock : Clock) (limit : Span) (way : DirectoryHandle) (grain : Grain) (rig : Rig) :
    Except DirectoryError (List Activation) :=
  if way.delay clock ≤ clock.ticks limit then (rig.directory way.number).lookup grain else .error (.timeout limit)

theorem answer_of_up {clock : Clock} {limit : Span} {way : DirectoryHandle} {rig : Rig}
    (htime : way.delay clock ≤ clock.ticks limit) (hup : (rig.directory way.number).outage = none) (grain : Grain) :
    way.answer clock limit grain rig = .ok ((rig.directory way.number).activationsOf grain) := by
  rw [answer, if_pos htime, Directory.lookup_of_up hup]

theorem eq_of_answer {clock : Clock} {limit : Span} {way : DirectoryHandle} {rig : Rig} {grain : Grain}
    {existing : List Activation} (h : way.answer clock limit grain rig = .ok existing) :
    existing = (rig.directory way.number).activationsOf grain := by
  rw [answer] at h
  split at h
  · exact Directory.activationsOf_of_lookup h
  · cases h

variable (clock : Clock) (grain : Grain) (way : DirectoryHandle) (rig : Rig)

theorem elapsed_lookup : (way.lookup clock grain rig).elapsed = way.delay clock := by
  induction way with
  | plain directory => rfl
  | slow inner latency ih => exact congrArg (clock.sleepTicks latency + ·) ih

theorem lookup_idles : (way.lookup clock grain rig).Idles rig fun value left =>
    value = (rig.directory way.number).lookup grain ∧ left = rig := by
  induction way with
  | plain directory => exact ⟨rfl, rig.set_directory directory⟩
  | slow inner latency ih => exact ⟨rfl, ih⟩

theorem lookupWithin_ends (limit : Span) :
    (way.lookupWithin clock limit grain rig).value = way.answer clock limit grain rig ∧
    (way.lookupWithin clock limit grain rig).state = rig := by
  have hidles := way.lookup_idles clock grain rig
  constructor
  · rw [lookupWithin, Work.within, Course.value_within, elapsed_lookup, hidles.ends_of.1, answer]
  · have hleaves : (way.lookup clock grain rig).Idles rig fun _ left => left = rig :=
      hidles.mono fun _ _ h => h.2
    exact (hleaves.within _ rfl).ends_of

end DirectoryHandle

-- What others hear of a decision.
def Decision.event (grain : Grain) (strategy : Strategy) : Decision → Event
  | place placement => .placementResolved grain placement.silo strategy
  | refuse existing => .placementRefused grain existing

namespace PlacementService

variable {service : PlacementService}

def decision (service : PlacementService) (grain : Grain) (existing : List Activation) (draw : Nat) : Decision :=
  (Director.ofStrategy (service.types.strategyFor grain)).select (service.types.strategyFor grain) grain service.view
    existing draw

theorem directorFor_standard (h : service.directors = .standard) (grain : Grain) :
    service.directorFor grain =
      .ok (service.types.strategyFor grain, .ofStrategy (service.types.strategyFor grain)) := by
  rw [directorFor, h, Directors.resolve_standard]
  rfl

theorem select_error (h : service.directors = .standard) (grain : Grain) (error : DirectoryError) (draw : Nat) :
    service.select grain (.error error) draw = .error (.directoryUnavailable error) := by
  rw [select, directorFor_standard h]
  rfl

theorem select_ok (h : service.directors = .standard) (grain : Grain) (existing : List Activation) (draw : Nat) :
    service.select grain (.ok existing) draw = .ok (service.decision grain existing draw,
      (service.decision grain existing draw).event grain (service.types.strategyFor grain)) := by
  have hanswer : (Except.ok existing : Except DirectoryError (List Activation)).mapError
      PlacementError.directoryUnavailable = .ok existing := rfl
  rw [select, directorFor_standard h, hanswer]
  simp only [bind, Except.bind, decision]
  split
  · next hplace => rw [hplace, Decision.event]
  · next hrefuse => rw [hrefuse, Decision.event]

end PlacementService

namespace Routing

variable {service : PlacementService} {clock : Clock} {way : DirectoryHandle} {queue : Option Nat} {grain : Grain}
  {draw : Nat} {rig : Rig}

theorem value_announce_ok (queue : Option Nat) (value : α) (event : Event) (rig : Rig) :
    (announce queue (.ok (value, event)) rig).value = .ok value := by
  rw [announce, Work.value_bind]
  rfl

theorem state_announce_ok (queue : Option Nat) (value : α) (event : Event) (rig : Rig) :
    (announce queue (.ok (value, event)) rig).state = (Rig.tell queue event rig).state := by
  rw [announce, Work.state_bind]
  rfl

-- A lookup leaves the rig alone, so what becomes of it is what is published.
theorem select_eq (h : service.directors = .standard) (clock : Clock) (way : DirectoryHandle) (queue : Option Nat)
    (grain : Grain) (draw : Nat) (rig : Rig) :
    let answer := way.answer clock service.config.lookupTimeout grain rig
    let told := announce queue (service.select grain answer draw) rig
    (select clock service way queue grain draw rig).value = told.value ∧
    (select clock service way queue grain draw rig).state = told.state := by
  intro answer told
  obtain ⟨hvalue, hstate⟩ := way.lookupWithin_ends clock grain rig service.config.lookupTimeout
  rw [select, PlacementService.directorFor_standard h]
  simp only [Work.value_bind, Work.state_bind, hvalue, hstate, answer, told, and_self]

theorem select_of_error (h : service.directors = .standard) {error : DirectoryError}
    (hanswer : way.answer clock service.config.lookupTimeout grain rig = .error error) :
    (select clock service way queue grain draw rig).value = .error (.directoryUnavailable error) ∧
    (select clock service way queue grain draw rig).state = rig := by
  obtain ⟨hvalue, hstate⟩ := select_eq h clock way queue grain draw rig
  rw [hvalue, hstate, hanswer, PlacementService.select_error h]
  exact ⟨rfl, rfl⟩

theorem select_of_ok (h : service.directors = .standard) (queue : Option Nat) (draw : Nat) {existing : List Activation}
    (hanswer : way.answer clock service.config.lookupTimeout grain rig = .ok existing) :
    (select clock service way queue grain draw rig).value = .ok (service.decision grain existing draw) ∧
    (select clock service way queue grain draw rig).state = (Rig.tell queue
      ((service.decision grain existing draw).event grain (service.types.strategyFor grain)) rig).state := by
  obtain ⟨hvalue, hstate⟩ := select_eq h clock way queue grain draw rig
  rw [hvalue, hstate, hanswer, PlacementService.select_ok h]
  exact ⟨value_announce_ok .., state_announce_ok ..⟩

end Routing

end Muster
