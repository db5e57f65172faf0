import Muster.Json.Member
import Muster.Member.RowKey
import Muster.Text.Explained

namespace Muster

-- An entry laid out in columns. Nothing keeps the columns from disagreeing with each other.
structure Record where
  deployment : String
  rowKey : String
  status : String
  host : String
  address : String
  port : UInt16
  generation : Int32
  gatewayPort : Option UInt16
  isPrimary : Bool
  role : String
  instanceName : String
  updateZone : UInt32
  faultZone : UInt32
  startTime : Instant
  aliveTime : Instant
  tableVersion : Option Int64
  voters : String
  voteTimes : String
deriving DecidableEq

namespace Record

inductive Error where
  | invalidAddress (address : String)
  | unknownStatus (status : Status.Unknown)
  | rowKey (error : RowKey.Error)
  | rowKeyMismatch (stored expected : String)
  | suspicionMismatch (silos times : Nat)
  | invalidTime (time : String)
deriving DecidableEq

def Error.message : Error → String
  | invalidAddress address => s!"invalid silo address `{address}`"
  | unknownStatus status => status.message
  | rowKey error => error.message
  | rowKeyMismatch stored expected => s!"row key `{stored}` does not match address columns `{expected}`"
  | suspicionMismatch silos times => s!"{silos} suspecting silos but {times} suspicion times"
  | invalidTime time => s!"invalid timestamp `{time}`"

instance : Explained Record.Error where
  message := Record.Error.message
  kind
    | .invalidAddress _ => "InvalidAddress"
    | .unknownStatus _ => "UnknownStatus"
    | .rowKey error => "RowKey." ++ Explained.kind error
    | .rowKeyMismatch _ _ => "RowKeyMismatch"
    | .suspicionMismatch _ _ => "SuspicionMismatch"
    | .invalidTime _ => "InvalidTime"

-- The parts of a text between its bars.
def partsOf : List Char → List (List Char)
  | [] => [[]]
  | c :: rest =>
    if c = '|' then [] :: partsOf rest
    else
      match partsOf rest with
      | [] => [[c]]
      | part :: parts => (c :: part) :: parts

-- A column of several values with bars between them. An empty column holds none.
def splitColumn (column : String) : List String :=
  if column.isEmpty then [] else (partsOf column.toList).map String.ofList

def joinColumn (values : List String) : String :=
  .ofList (List.intercalate ['|'] (values.map String.toList))

def ofEntry (deployment : String) (entry : Entry) (tableVersion : Option Int64) : Record where
  deployment := deployment
  rowKey := entry.silo.rowKey
  status := entry.status.name
  host := entry.host
  address := .ofList entry.silo.ip.text
  port := entry.silo.port
  generation := entry.silo.generation
  gatewayPort := entry.gatewayPort
  isPrimary := entry.isPrimary
  role := entry.role
  instanceName := entry.instanceName
  updateZone := entry.updateZone
  faultZone := entry.faultZone
  startTime := entry.startTime
  aliveTime := entry.aliveTime
  tableVersion := tableVersion
  voters := joinColumn (entry.suspicions.map fun suspicion => suspicion.voter.rowKey)
  voteTimes := joinColumn (entry.suspicions.map fun suspicion => suspicion.time.text)

def fresh (deployment : String) (silo : Silo) (host : String) (startTime : Instant) : Record :=
  ofEntry deployment (.fresh silo host startTime) none

def withGatewayPort (record : Record) (port : UInt16) : Record :=
  { record with gatewayPort := (some port).filter (· != 0) }

def withPrimary (record : Record) (isPrimary : Bool) : Record := { record with isPrimary }

def withNames (record : Record) (role instanceName : String) : Record := { record with role, instanceName }

def withZones (record : Record) (updateZone faultZone : UInt32) : Record :=
  { record with updateZone, faultZone }

-- The silo that the address columns name, if the row key names it too.
def silo (record : Record) : Except Error Silo :=
  match Net.Ip.ofText? record.address.toList with
  | none => .error (.invalidAddress record.address)
  | some ip =>
    let silo : Silo := ⟨.ofIp ip record.port, record.generation⟩
    if silo.rowKey = record.rowKey then .ok silo
    else .error (.rowKeyMismatch record.rowKey silo.rowKey)

def suspicionOf (voter time : String) : Except Error Suspicion :=
  match Silo.ofRowKey voter with
  | .error error => .error (.rowKey error)
  | .ok voter =>
    match Instant.ofText? time with
    | none => .error (.invalidTime time)
    | some time => .ok ⟨voter, time⟩

def suspicions (record : Record) : Except Error (List Suspicion) :=
  let voters := splitColumn record.voters
  let times := splitColumn record.voteTimes
  if voters.length = times.length then
    (voters.zip times).mapM fun (voter, time) => suspicionOf voter time
  else .error (.suspicionMismatch voters.length times.length)

def entry (record : Record) : Except Error Entry := do
  let silo ← record.silo
  let status ← (Status.ofName record.status).mapError .unknownStatus
  let suspicions ← record.suspicions
  .ok {
    silo
    host := record.host
    status
    gatewayPort := record.gatewayPort.filter (· != 0)
    isPrimary := record.isPrimary
    role := record.role
    instanceName := record.instanceName
    updateZone := record.updateZone
    faultZone := record.faultZone
    startTime := record.startTime
    aliveTime := record.aliveTime
    suspicions }

def fieldNames : List String :=
  ["deployment_id", "row_key", "status", "host_name", "address", "port", "generation", "proxy_port",
    "is_primary", "role_name", "instance_name", "update_zone", "fault_zone", "start_time",
    "i_am_alive_time", "membership_version", "suspecting_silos", "suspecting_times"]

open Muster.Json

def toJson (record : Record) : Value :=
  .record [
    ("deployment_id", .string record.deployment),
    ("row_key", .string record.rowKey),
    ("status", .string record.status),
    ("host_name", .string record.host),
    ("address", .string record.address),
    ("port", .int record.port.toNat),
    ("generation", .int record.generation.toInt),
    ("proxy_port", Value.optional (fun port => .int port.toNat) record.gatewayPort),
    ("is_primary", .bool record.isPrimary),
    ("role_name", .string record.role),
    ("instance_name", .string record.instanceName),
    ("update_zone", .int record.updateZone.toNat),
    ("fault_zone", .int record.faultZone.toNat),
    ("start_time", record.startTime.toJson),
    ("i_am_alive_time", record.aliveTime.toJson),
    ("membership_version", Value.optional (fun version => .int version.toInt) record.tableVersion),
    ("suspecting_silos", .string record.voters),
    ("suspecting_times", .string record.voteTimes)]

def ofJson? (value : Value) : Option Record := do
  let fields ← value.fields? fieldNames
  some {
    deployment := ← required fields "deployment_id" Value.text?
    rowKey := ← required fields "row_key" Value.text?
    status := ← required fields "status" Value.text?
    host := ← required fields "host_name" Value.text?
    address := ← required fields "address" Value.text?
    port := ← required fields "port" Value.uint16?
    generation := ← required fields "generation" Value.int32?
    gatewayPort := ← defaulted fields "proxy_port" none (Value.orNull? Value.uint16?)
    isPrimary := ← required fields "is_primary" Value.bool?
    role := ← required fields "role_name" Value.text?
    instanceName := ← required fields "instance_name" Value.text?
    updateZone := ← required fields "update_zone" Value.uint32?
    faultZone := ← required fields "fault_zone" Value.uint32?
    startTime := ← required fields "start_time" Instant.ofJson?
    aliveTime := ← required fields "i_am_alive_time" Instant.ofJson?
    tableVersion := ← defaulted fields "membership_version" none (Value.orNull? Value.int64?)
    voters := ← required fields "suspecting_silos" Value.text?
    voteTimes := ← required fields "suspecting_times" Value.text? }

end Record
end Muster
