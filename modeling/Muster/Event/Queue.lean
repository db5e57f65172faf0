import Muster.Grain.Activation
import Muster.Member.Status
import Muster.Placement.Strategy

namespace Muster

inductive Event where
  | siloRegistered (silo : Silo)
  | statusChanged (silo : Silo) (source target : Status)
  | suspicionRecorded (silo voter : Silo)
  | placementResolved (grain : Grain) (silo : Silo) (strategy : Strategy)
  | placementRefused (grain : Grain) (existing : List Activation)
deriving DecidableEq

-- Events that wait for an observer. The older ones are kept oldest first and the newer ones newest
-- first, so that both ends are at hand.
structure EventQueue where
  capacity : Nat
  capacity_pos : 0 < capacity
  older : List Event
  newer : List Event
  size : Nat
  size_eq : size = older.length + newer.length
  dropped : UInt64
deriving DecidableEq

namespace EventQueue

-- No queue is so small that it holds nothing.
def ofCapacity (capacity : Nat) : EventQueue :=
  ⟨max capacity 1, Nat.le_max_right capacity 1, [], [], 0, rfl, 0⟩

def standard : EventQueue := ofCapacity 1024

-- What waits, oldest first.
def pending (queue : EventQueue) : List Event := queue.older ++ queue.newer.reverse

theorem length_pending (queue : EventQueue) : queue.pending.length = queue.size := by
  simp [pending, queue.size_eq]

def push (queue : EventQueue) (event : Event) : EventQueue :=
  { queue with
    newer := event :: queue.newer
    size := queue.size + 1
    size_eq := by rw [queue.size_eq, List.length_cons, Nat.add_assoc] }

def pop (queue : EventQueue) : EventQueue :=
  if h : queue.older = [] then
    { queue with
      older := queue.newer.reverse.drop 1
      newer := []
      size := queue.size - 1
      size_eq := by simp [queue.size_eq, h] }
  else
    { queue with
      older := queue.older.drop 1
      size := queue.size - 1
      size_eq := by
        have := List.length_pos_iff.mpr h
        rw [queue.size_eq, List.length_drop]
        omega }

-- A full queue drops its oldest event for a new one.
def enqueue (queue : EventQueue) (event : Event) : EventQueue :=
  if queue.size < queue.capacity then queue.push event
  else
    { queue.pop.push event with
      dropped := if queue.dropped = UInt64.ofNat (UInt64.size - 1) then queue.dropped else queue.dropped + 1 }

def drain (queue : EventQueue) : List Event × EventQueue :=
  (queue.pending, { queue with older := [], newer := [], size := 0, size_eq := rfl })

theorem pending_push (queue : EventQueue) (event : Event) :
    (queue.push event).pending = queue.pending ++ [event] := by
  simp [pending, push]

theorem pending_pop (queue : EventQueue) : queue.pop.pending = queue.pending.drop 1 := by
  unfold pop
  split
  · next h => simp [pending, h]
  · next h => rw [pending, pending, List.drop_append_of_le_length (List.length_pos_iff.mpr h)]

theorem pending_enqueue (queue : EventQueue) (event : Event) :
    (queue.enqueue event).pending =
      (if queue.pending.length < queue.capacity then queue.pending else queue.pending.drop 1) ++ [event] := by
  rw [length_pending, enqueue]
  split
  · exact pending_push queue event
  · rw [← pending_pop, ← pending_push]
    rfl

end EventQueue
end Muster
