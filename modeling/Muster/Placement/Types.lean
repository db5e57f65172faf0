import Muster.Grain.Activation
import Muster.Placement.Strategy

namespace Muster

structure GrainType where
  name : String
  strategy : Strategy
deriving DecidableEq

-- The kinds of grains, last told first, and the strategy of every other kind.
structure GrainTypes where
  known : List (String × GrainType)
  fallback : Strategy
deriving DecidableEq

namespace GrainTypes

def new (fallback : Strategy) : GrainTypes := ⟨[], fallback⟩

def standard : GrainTypes := new .standard

-- Tells about a kind; what was told before about it counts no more.
def add (types : GrainTypes) (kind name : String) (strategy : Strategy) : GrainTypes :=
  { types with known := (kind, ⟨name, strategy⟩) :: types.known }

def find? (types : GrainTypes) (grain : Grain) : Option GrainType := types.known.lookup grain.kind

def strategyFor (types : GrainTypes) (grain : Grain) : Strategy :=
  match types.find? grain with
  | some type => type.strategy
  | none => types.fallback

-- A kind that nobody told about is its own type name.
def nameFor (types : GrainTypes) (grain : Grain) : String :=
  match types.find? grain with
  | some type => type.name
  | none => grain.kind

end GrainTypes
end Muster
