import Muster.Json.Fields
import Muster.Member.Entry
import Muster.Time.Reader

-- Silos, statuses, suspicions and entries as JSON. Times are read leniently.
namespace Muster

open Muster.Json

def Instant.toJson (instant : Instant) : Value := .string instant.text

def Instant.ofJson? (value : Value) : Option Instant := value.text?.bind Instant.ofLenientText?

namespace Silo

def fieldNames : List String := ["endpoint", "generation"]

def toJson (silo : Silo) : Value :=
  .record [("endpoint", .string (.ofList silo.endpoint.text)), ("generation", .int silo.generation.toInt)]

def endpointOfJson? (value : Value) : Option Net.Endpoint :=
  value.text?.bind fun text => Net.Endpoint.ofText? text.toList

def ofJson? (value : Value) : Option Silo := do
  let fields ← value.fields? fieldNames
  some {
    endpoint := ← required fields "endpoint" endpointOfJson?
    generation := ← required fields "generation" Value.int32? }

end Silo

namespace Status

def toJson (status : Status) : Value := .string status.name

-- A name, or an object with the name as its one field and nothing in it.
def ofJson? : Value → Option Status
  | .text (some name) => ofName? name
  | .object [(some name, .null)] => ofName? name
  | _ => none

end Status

namespace Suspicion

def fieldNames : List String := ["suspecting_silo", "suspected_at"]

def toJson (suspicion : Suspicion) : Value :=
  .record [("suspecting_silo", suspicion.voter.toJson), ("suspected_at", suspicion.time.toJson)]

def ofJson? (value : Value) : Option Suspicion := do
  let fields ← value.fields? fieldNames
  some {
    voter := ← required fields "suspecting_silo" Silo.ofJson?
    time := ← required fields "suspected_at" Instant.ofJson? }

end Suspicion

namespace Entry

def fieldNames : List String :=
  ["silo_address", "host_name", "status", "proxy_port", "is_primary", "role_name", "instance_name",
    "update_zone", "fault_zone", "start_time", "i_am_alive_time", "suspicions"]

def toJson (entry : Entry) : Value :=
  .record [
    ("silo_address", entry.silo.toJson),
    ("host_name", .string entry.host),
    ("status", entry.status.toJson),
    ("proxy_port", Value.optional (fun port => .int port.toNat) entry.gatewayPort),
    ("is_primary", .bool entry.isPrimary),
    ("role_name", .string entry.role),
    ("instance_name", .string entry.instanceName),
    ("update_zone", .int entry.updateZone.toNat),
    ("fault_zone", .int entry.faultZone.toNat),
    ("start_time", entry.startTime.toJson),
    ("i_am_alive_time", entry.aliveTime.toJson),
    ("suspicions", .list (entry.suspicions.map Suspicion.toJson))]

def ofJson? (value : Value) : Option Entry := do
  let fields ← value.fields? fieldNames
  some {
    silo := ← required fields "silo_address" Silo.ofJson?
    host := ← required fields "host_name" Value.text?
    status := ← required fields "status" Status.ofJson?
    gatewayPort := ← defaulted fields "proxy_port" none (Value.orNull? Value.uint16?)
    isPrimary := ← required fields "is_primary" Value.bool?
    role := ← required fields "role_name" Value.text?
    instanceName := ← required fields "instance_name" Value.text?
    updateZone := ← required fields "update_zone" Value.uint32?
    faultZone := ← required fields "fault_zone" Value.uint32?
    startTime := ← required fields "start_time" Instant.ofJson?
    aliveTime := ← required fields "i_am_alive_time" Instant.ofJson?
    suspicions := ← required fields "suspicions" (Value.list? Suspicion.ofJson?) }

end Entry
end Muster
