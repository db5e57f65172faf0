namespace Muster

-- The life of a silo, in its order.
inductive Status where
  | created
  | joining
  | active
  | shuttingDown
  | stopping
  | dead
deriving DecidableEq

namespace Status

def all : List Status := [created, joining, active, shuttingDown, stopping, dead]

def rank : Status → Nat
  | created => 0
  | joining => 1
  | active => 2
  | shuttingDown => 3
  | stopping => 4
  | dead => 5

def name : Status → String
  | created => "Created"
  | joining => "Joining"
  | active => "Active"
  | shuttingDown => "ShuttingDown"
  | stopping => "Stopping"
  | dead => "Dead"

-- The name as it is stored; case counts.
def ofName? (name : String) : Option Status := all.find? fun status => status.name == name

-- A life goes forward only, and may leave out stages.
def precedes (source target : Status) : Bool := source.rank < target.rank

def isActive (status : Status) : Bool := status == active

-- On its way out of the cluster, or gone.
def isLeaving (status : Status) : Bool := shuttingDown.rank ≤ status.rank

def isFinal (status : Status) : Bool := status == dead

theorem ofName?_name (status : Status) : ofName? status.name = some status := by
  cases status <;> decide

theorem dead_not_precedes (status : Status) : dead.precedes status = false := by
  cases status <;> rfl

end Status

structure Status.Unknown where
  name : String
deriving DecidableEq

def Status.Unknown.message (unknown : Status.Unknown) : String := s!"unknown silo status `{unknown.name}`"

def Status.ofName (name : String) : Except Status.Unknown Status :=
  match Status.ofName? name with
  | some status => .ok status
  | none => .error ⟨name⟩

end Muster
