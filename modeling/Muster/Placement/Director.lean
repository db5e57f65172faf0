import Muster.Grain.Directory
import Muster.Placement.Types
import Muster.Text.Explained

namespace Muster

structure Placement where
  silo : Silo
  strategy : Strategy
  typeName : String
deriving DecidableEq

-- A refusal says that the grain is at work elsewhere, and where.
inductive Decision where
  | place (placement : Placement)
  | refuse (existing : List Activation)
deriving DecidableEq

inductive PlacementError where
  | directoryUnavailable (error : DirectoryError)
  | unknownStrategy (strategy : Strategy)
  | siloUnavailable (silo : Silo)
deriving DecidableEq

def PlacementError.message : PlacementError → String
  | directoryUnavailable error => s!"placement could not consult the grain directory: {error.message}"
  | unknownStrategy strategy => s!"no placement director registered for strategy `{strategy.name}`"
  | siloUnavailable silo => s!"target silo {silo.text} is not active"

instance : Explained PlacementError where
  message := PlacementError.message
  kind
    | .directoryUnavailable error => "DirectoryUnavailable." ++ Explained.kind error
    | .unknownStrategy _ => "UnknownStrategy"
    | .siloUnavailable _ => "SiloUnavailable"

-- What a silo that asks for a placement knows of the cluster.
structure View where
  home : Silo
  active : List Silo
  types : GrainTypes
deriving DecidableEq

inductive Director where
  | random
  | preferLocal
  | pinned
deriving DecidableEq

-- The silo that a random draw falls on. Every silo of the list comes up for some draw.
def drawFrom? (silos : List Silo) (draw : Nat) : Option Silo := silos[draw % silos.length]?

namespace Director

def ofStrategy : Strategy → Director
  | .random => random
  | .preferLocal => preferLocal
  | .pinned => pinned

-- Where a new activation goes: to a random active silo, or home. The strategy is only passed on.
def add (director : Director) (strategy : Strategy) (grain : Grain) (view : View) (draw : Nat) : Placement :=
  let silo :=
    match director with
    | random => (drawFrom? view.active draw).getD view.home
    | preferLocal | pinned => view.home
  ⟨silo, strategy, view.types.nameFor grain⟩

-- The silos that host the grain and are active, one for each activation.
def liveHosts (view : View) (existing : List Activation) : List Silo :=
  (existing.filter fun activation => view.active.contains activation.silo).map fun activation => activation.silo

-- Where a call to a grain goes, when the directory knows of the given activations.
def select (director : Director) (strategy : Strategy) (grain : Grain) (view : View)
    (existing : List Activation) (draw : Nat) : Decision :=
  let placed (silo : Silo) : Decision := .place ⟨silo, strategy, view.types.nameFor grain⟩
  let added : Decision := .place (director.add strategy grain view draw)
  match director with
  | random =>
    match drawFrom? (liveHosts view existing) draw with
    | some silo => placed silo
    | none => added
  | preferLocal =>
    match (liveHosts view existing).head? with
    | some silo => placed silo
    | none => added
  | pinned =>
    match existing with
    | [] => added
    | [only] => if only.silo = view.home then added else .refuse existing
    | _ => .refuse existing

end Director

structure Directors where
  serving : List (Strategy × Director)
deriving DecidableEq

namespace Directors

def empty : Directors := ⟨[]⟩

def standard : Directors := ⟨Strategy.all.map fun strategy => (strategy, .ofStrategy strategy)⟩

def find? (directors : Directors) (strategy : Strategy) : Option Director := directors.serving.lookup strategy

def register (directors : Directors) (strategy : Strategy) (director : Director) :
    Option Director × Directors :=
  (directors.find? strategy, ⟨(strategy, director) :: directors.serving⟩)

def resolve (directors : Directors) (strategy : Strategy) : Except PlacementError Director :=
  match directors.find? strategy with
  | some director => .ok director
  | none => .error (.unknownStrategy strategy)

end Directors
end Muster
