import Muster.Member.Silo
import Muster.Member.Status
import Muster.Time.Instant

namespace Muster

-- A peer's note that it takes a silo for dead.
structure Suspicion where
  voter : Silo
  time : Instant
deriving DecidableEq

structure Entry where
  silo : Silo
  host : String
  status : Status
  gatewayPort : Option UInt16
  isPrimary : Bool
  role : String
  instanceName : String
  updateZone : UInt32
  faultZone : UInt32
  startTime : Instant
  aliveTime : Instant
  suspicions : List Suspicion
deriving DecidableEq

namespace Entry

-- A silo that has just been created, and was last seen alive when it started.
def fresh (silo : Silo) (host : String) (startTime : Instant) : Entry where
  silo := silo
  host := host
  status := .created
  gatewayPort := none
  isPrimary := false
  role := ""
  instanceName := ""
  updateZone := 0
  faultZone := 0
  startTime := startTime
  aliveTime := startTime
  suspicions := []

def withStatus (entry : Entry) (status : Status) : Entry := { entry with status }

-- Port 0 means that there is no gateway.
def withGatewayPort (entry : Entry) (port : Option UInt16) : Entry :=
  { entry with gatewayPort := port.filter (· != 0) }

def withPrimary (entry : Entry) (isPrimary : Bool) : Entry := { entry with isPrimary }

def withRole (entry : Entry) (role : String) : Entry := { entry with role }

def withInstanceName (entry : Entry) (instanceName : String) : Entry := { entry with instanceName }

def withZones (entry : Entry) (updateZone faultZone : UInt32) : Entry := { entry with updateZone, faultZone }

def withAliveTime (entry : Entry) (aliveTime : Instant) : Entry := { entry with aliveTime }

-- Suspicions are added at the end and never taken back.
def withSuspicion (entry : Entry) (suspicion : Suspicion) : Entry :=
  { entry with suspicions := entry.suspicions ++ [suspicion] }

def isSuspectedBy (entry : Entry) (silo : Silo) : Bool :=
  entry.suspicions.any fun suspicion => suspicion.voter == silo

-- Where clients reach the silo. An endpoint made from an address names no flow and no link.
def gateway? (entry : Entry) : Option Net.Endpoint := entry.gatewayPort.map (.ofIp entry.silo.ip)

@[simp] theorem silo_withStatus (entry : Entry) (status : Status) :
    (entry.withStatus status).silo = entry.silo := rfl

@[simp] theorem silo_withAliveTime (entry : Entry) (time : Instant) :
    (entry.withAliveTime time).silo = entry.silo := rfl

@[simp] theorem silo_withSuspicion (entry : Entry) (suspicion : Suspicion) :
    (entry.withSuspicion suspicion).silo = entry.silo := rfl

end Entry
end Muster
