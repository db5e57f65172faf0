import Muster.Placement.Service
import Muster.Rig.Lookup

-- Placements that ask a directory and publish what comes of it.
namespace Muster.Routing

-- Asks a director where a call to a grain goes. A lookup that fails ends it.
def direct (clock : Clock) (directory : DirectoryHandle) (limit : Span) (director : Director) (strategy : Strategy)
    (grain : Grain) (view : View) (draw : Nat) : Work Rig (Except PlacementError Decision) := do
  match ← directory.lookupWithin clock limit grain with
  | .error error => pure (.error (.directoryUnavailable error))
  | .ok existing => pure (.ok (director.select strategy grain view existing draw))

-- Publishes the event of a success, and hands on the rest.
def announce (queue : Option Nat) (result : Except PlacementError (α × Event)) :
    Work Rig (Except PlacementError α) := do
  match result with
  | .error error => pure (.error error)
  | .ok (value, event) => do
    Rig.tell queue event
    pure (.ok value)

-- Where a service sends a call to a grain. No director, no lookup.
def select (clock : Clock) (service : PlacementService) (directory : DirectoryHandle) (queue : Option Nat)
    (grain : Grain) (draw : Nat) : Work Rig (Except PlacementError Decision) := do
  match service.directorFor grain with
  | .error error => pure (.error error)
  | .ok _ => do
    let answer ← directory.lookupWithin clock service.config.lookupTimeout grain
    announce queue (service.select grain answer draw)

def add (service : PlacementService) (queue : Option Nat) (grain : Grain) (draw : Nat) :
    Work Rig (Except PlacementError Placement) :=
  announce queue (service.add grain draw)

end Muster.Routing
