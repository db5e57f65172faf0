import Mathlib.Algebra.GroupWithZero.Nat
import Mathlib.Data.List.DropRight
import Muster.Event.Queue

-- A queue over any number of events and drainings: what has been handed out, what still waits and what has been
-- dropped make up what has been published.
namespace Muster.EventQueue

-- What is done to a queue.
inductive Act where
  | enqueue (event : Event)
  | drain
deriving DecidableEq

def Act.event? : Act → Option Event
  | enqueue event => some event
  | drain => none

-- A queue in use, and the batches that it has handed out, the earliest first.
structure Course where
  drained : List (List Event)
  queue : EventQueue

def Course.take (course : Course) : Act → Course
  | .enqueue event => { course with queue := course.queue.enqueue event }
  | .drain => ⟨course.drained ++ [course.queue.drain.1], course.queue.drain.2⟩

def Course.of (capacity : Nat) (acts : List Act) : Course := acts.foldl take ⟨[], ofCapacity capacity⟩

-- The events that are published between one drain and the next: in the spells that a drain has ended, and in the one
-- that goes on.
structure Spells where
  past : List (List Event)
  current : List Event

namespace Spells

def take (spells : Spells) : Act → Spells
  | .enqueue event => { spells with current := spells.current ++ [event] }
  | .drain => ⟨spells.past ++ [spells.current], []⟩

def of (acts : List Act) : Spells := acts.foldl take ⟨[], []⟩

def all (spells : Spells) : List (List Event) := spells.past ++ [spells.current]

-- How many events come to nothing if of every spell only the latest ones are kept.
def lost (spells : Spells) (kept : Nat) : Nat := (spells.all.map fun events => events.length - kept).sum

end Spells

variable {kept : Nat} {spells : Spells} {course : Course}

theorem rtake_concat (hkept : 0 < kept) (events : List Event) (event : Event) :
    (events ++ [event]).rtake kept =
      (if (events.rtake kept).length < kept then events.rtake kept else (events.rtake kept).drop 1) ++ [event] := by
  have hdrop : (events ++ [event]).rtake kept = events.drop (events.length + 1 - kept) ++ [event] := by
    rw [List.rtake, List.length_append, List.length_singleton, List.drop_append_of_le_length (by omega)]
  rw [hdrop, List.rtake, List.length_drop, List.drop_drop]
  split <;> congr 2 <;> omega

theorem length_rtake (events : List Event) : (events.rtake kept).length = min events.length kept := by
  rw [List.rtake, List.length_drop]
  omega

theorem capacity_pop (queue : EventQueue) : queue.pop.capacity = queue.capacity := by
  unfold pop
  split <;> rfl

theorem capacity_enqueue (queue : EventQueue) (event : Event) : (queue.enqueue event).capacity = queue.capacity := by
  unfold enqueue
  split
  · rfl
  · exact queue.capacity_pop

theorem pending_drain (queue : EventQueue) : queue.drain.2.pending = [] := rfl

-- The count of dropped events stays where it is once it can go no further.
theorem dropped_enqueue (queue : EventQueue) (event : Event) :
    (queue.enqueue event).dropped.toNat =
      if queue.pending.length < queue.capacity then queue.dropped.toNat
      else min (queue.dropped.toNat + 1) (UInt64.size - 1) := by
  have hlt := queue.dropped.toNat_lt
  rw [length_pending, enqueue]
  split
  · rfl
  · by_cases hfull : queue.dropped = UInt64.ofNat (UInt64.size - 1)
    · simp only [if_pos hfull]
      rw [hfull]
      rfl
    · have hne : queue.dropped.toNat ≠ UInt64.size - 1 := fun heq => hfull (UInt64.toNat_inj.mp heq)
      simp only [if_neg hfull]
      rw [UInt64.toNat_add, UInt64.toNat_one]
      simp only [UInt64.size] at hne ⊢
      omega

theorem lost_enqueue (spells : Spells) (event : Event) :
    (spells.take (.enqueue event)).lost kept = spells.lost kept + if spells.current.length < kept then 0 else 1 := by
  simp only [Spells.lost, Spells.all, Spells.take, List.map_append, List.sum_append, List.map_cons, List.map_nil,
    List.sum_cons, List.sum_nil, List.length_append, List.length_singleton]
  split <;> omega

theorem lost_drain (spells : Spells) : (spells.take .drain).lost kept = spells.lost kept := by
  simp [Spells.lost, Spells.all, Spells.take]

-- The queue keeps the latest events of each spell and counts the others.
structure Course.Keeps (course : Course) (kept : Nat) (spells : Spells) : Prop where
  capacity : course.queue.capacity = kept
  drained : course.drained = spells.past.map fun events => events.rtake kept
  pending : course.queue.pending = spells.current.rtake kept
  dropped : course.queue.dropped.toNat = min (spells.lost kept) (UInt64.size - 1)

theorem Course.Keeps.take (h : course.Keeps kept spells) (act : Act) :
    (course.take act).Keeps kept (spells.take act) := by
  cases act with
  | enqueue event =>
    have hkept : 0 < kept := h.capacity ▸ course.queue.capacity_pos
    refine ⟨?_, h.drained, ?_, ?_⟩
    · rw [Course.take, capacity_enqueue]
      exact h.capacity
    · rw [Course.take, pending_enqueue, h.pending, h.capacity]
      exact (rtake_concat hkept spells.current event).symm
    · rw [Course.take, dropped_enqueue, lost_enqueue, h.pending, h.capacity, h.dropped, length_rtake]
      split <;> split <;> omega
  | drain =>
    refine ⟨h.capacity, ?_, ?_, ?_⟩
    · rw [Course.take, Spells.take, h.drained, List.map_append, drain, h.pending]
      rfl
    · rw [Course.take, Spells.take, pending_drain, List.rtake_nil]
    · rw [lost_drain]
      exact h.dropped

theorem Course.Keeps.foldl (h : course.Keeps kept spells) (acts : List Act) :
    (acts.foldl Course.take course).Keeps kept (acts.foldl Spells.take spells) := by
  induction acts generalizing course spells with
  | nil => exact h
  | cons act rest ih => exact ih (h.take act)

theorem Course.keeps_of (capacity : Nat) (acts : List Act) : (of capacity acts).Keeps (max capacity 1) (.of acts) := by
  refine Keeps.foldl ⟨rfl, rfl, ?_, ?_⟩ acts
  · exact (List.rtake_nil _).symm
  · simp [Spells.lost, Spells.all, ofCapacity]

-- Nothing is published but in a spell.
theorem flatten_foldl_take (spells : Spells) (acts : List Act) :
    (acts.foldl Spells.take spells).all.flatten = spells.all.flatten ++ acts.filterMap Act.event? := by
  induction acts generalizing spells with
  | nil => simp
  | cons act rest ih =>
    rw [List.foldl_cons, ih]
    cases act <;> simp [Spells.take, Spells.all, Act.event?, List.filterMap_cons]

theorem length_flatten_eq (kept : Nat) (batches : List (List Event)) :
    batches.flatten.length =
      (batches.map fun events => events.rtake kept).flatten.length +
        (batches.map fun events => events.length - kept).sum := by
  induction batches with
  | nil => rfl
  | cons events rest ih =>
    simp only [List.flatten_cons, List.map_cons, List.length_append, List.sum_cons, ih, length_rtake]
    omega

-- Each drain hands out the latest events of its spell, as many as the queue holds. Those of the current spell wait.
-- All others have been dropped, and are counted until the count can go no further.
theorem every_event_is_accounted_for (capacity : Nat) (acts : List Act) :
    let course := Course.of capacity acts
    let spells := Spells.of acts
    let kept := max capacity 1
    spells.past.flatten ++ spells.current = acts.filterMap Act.event? ∧
    course.drained = spells.past.map (fun events => events.rtake kept) ∧
    course.queue.pending = spells.current.rtake kept ∧
    course.queue.size = min spells.current.length kept ∧
    course.queue.dropped.toNat = min (spells.lost kept) (UInt64.size - 1) ∧
    (course.queue.dropped.toNat < UInt64.size - 1 →
      (acts.filterMap Act.event?).length =
        course.drained.flatten.length + course.queue.size + course.queue.dropped.toNat) := by
  intro course spells kept
  have hkeeps : course.Keeps kept spells := Course.keeps_of capacity acts
  have hall : spells.all.flatten = acts.filterMap Act.event? := flatten_foldl_take ⟨[], []⟩ acts
  have hsize : course.queue.size = min spells.current.length kept := by
    rw [← length_pending, hkeeps.pending, length_rtake]
  refine ⟨?_, hkeeps.drained, hkeeps.pending, hsize, hkeeps.dropped, fun hcounted => ?_⟩
  · rw [← hall, Spells.all, List.flatten_append, List.flatten_singleton]
  · have hlost : course.queue.dropped.toNat = spells.lost kept := by
      have hdropped := hkeeps.dropped
      omega
    rw [← hall, length_flatten_eq kept, hkeeps.drained, hsize, hlost, Spells.lost, Spells.all, List.map_append,
      List.flatten_append, List.length_append, List.map_singleton, List.flatten_singleton, length_rtake]

-- A queue that is asked to hold nothing holds one event. Two silos sign on before it is drained, and two after that.
def crowd : List Act :=
  let signOn (port : UInt16) : Act := .enqueue (.siloRegistered (.onLoopback port 1))
  [signOn 1, signOn 2, .drain, signOn 3, signOn 4]

theorem every_event_is_accounted_for_crowd :
    let course := Course.of 0 crowd
    course.drained = [[.siloRegistered (.onLoopback 2 1)]] ∧
    course.queue.pending = [.siloRegistered (.onLoopback 4 1)] ∧
    course.queue.dropped.toNat < UInt64.size - 1 ∧
    (crowd.filterMap Act.event?).length =
      course.drained.flatten.length + course.queue.size + course.queue.dropped.toNat := by
  intro course
  have hcounted : course.queue.dropped.toNat < UInt64.size - 1 := by decide
  obtain ⟨-, hdrained, hpending, -, -, hbalance⟩ := every_event_is_accounted_for 0 crowd
  exact ⟨hdrained, hpending, hcounted, hbalance hcounted⟩

end Muster.EventQueue
