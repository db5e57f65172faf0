import Muster.Member.Entry

namespace Muster

-- A change to an entry: what is absent stays as it is, and suspicions are added.
structure Edit where
  status : Option Status := none
  gatewayPort : Option (Option UInt16) := none
  isPrimary : Option Bool := none
  role : Option String := none
  instanceName : Option String := none
  zones : Option (UInt32 × UInt32) := none
  aliveTime : Option Instant := none
  suspicions : List Suspicion := []
deriving DecidableEq

namespace Edit

def field (change : Entry → α → Entry) (value : Option α) (entry : Entry) : Entry :=
  match value with
  | some value => change entry value
  | none => entry

def apply (edit : Edit) (entry : Entry) : Entry :=
  let entry := field .withStatus edit.status entry
  let entry := field .withGatewayPort edit.gatewayPort entry
  let entry := field .withPrimary edit.isPrimary entry
  let entry := field .withRole edit.role entry
  let entry := field .withInstanceName edit.instanceName entry
  let entry := field (fun entry zones => entry.withZones zones.1 zones.2) edit.zones entry
  let entry := field .withAliveTime edit.aliveTime entry
  edit.suspicions.foldl .withSuspicion entry

end Edit
end Muster
