import Muster.Config.Placement
import Muster.Event.Queue
import Muster.Placement.Director
import Muster.Table.Snapshot

namespace Muster

structure PlacementService where
  home : Silo
  types : GrainTypes
  directors : Directors
  config : PlacementConfig
  active : List Silo

namespace PlacementService

-- Before any news of the roll only the silo itself counts as active.
def new (home : Silo) (types : GrainTypes) (config : PlacementConfig) : PlacementService :=
  ⟨home, types, .standard, config, [home]⟩

def withDirectors (service : PlacementService) (directors : Directors) : PlacementService :=
  { service with directors }

-- Takes the active silos of a snapshot for the active silos there are.
def updateMembership (service : PlacementService) (snapshot : Snapshot) : PlacementService :=
  { service with active := snapshot.activeSilos }

def view (service : PlacementService) : View := ⟨service.home, service.active, service.types⟩

def directorFor (service : PlacementService) (grain : Grain) : Except PlacementError (Strategy × Director) := do
  let strategy := service.types.strategyFor grain
  let director ← service.directors.resolve strategy
  .ok (strategy, director)

-- Where a call to a grain goes, given what the directory answers, and the event to publish.
def select (service : PlacementService) (grain : Grain)
    (answer : Except DirectoryError (List Activation)) (draw : Nat) :
    Except PlacementError (Decision × Event) := do
  let (strategy, director) ← service.directorFor grain
  let existing ← answer.mapError .directoryUnavailable
  match director.select strategy grain service.view existing draw with
  | .place placement => .ok (.place placement, .placementResolved grain placement.silo strategy)
  | .refuse existing => .ok (.refuse existing, .placementRefused grain existing)

-- Where a new activation of a grain goes. The directory is not asked.
def add (service : PlacementService) (grain : Grain) (draw : Nat) :
    Except PlacementError (Placement × Event) := do
  let (strategy, director) ← service.directorFor grain
  let placement := director.add strategy grain service.view draw
  .ok (placement, .placementResolved grain placement.silo strategy)

def ensureAlive (service : PlacementService) (silo : Silo) : Except PlacementError Unit :=
  if service.active.contains silo then .ok () else .error (.siloUnavailable silo)

end PlacementService
end Muster
