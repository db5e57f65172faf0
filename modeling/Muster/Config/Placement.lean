import Muster.Config.Table

namespace Muster

structure PlacementConfig where
  lookupTimeout : Span
  lookupTimeout_pos : lookupTimeout.isZero = false

namespace PlacementConfig

def of (lookupTimeout : Span) : Except ConfigError PlacementConfig :=
  if h : lookupTimeout.isZero = true then .error (.zeroTimeout "lookup_timeout")
  else .ok ⟨lookupTimeout, Bool.eq_false_iff.mpr h⟩

def standard : PlacementConfig := ⟨.ofSeconds 5, by decide⟩

end PlacementConfig
end Muster
