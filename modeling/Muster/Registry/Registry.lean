import Muster.Config.Table
import Muster.Registry.Record
import Muster.Text.Explained
import Muster.Update.Updater

namespace Muster

inductive RegistryError where
  | deploymentMismatch (expected actual : String)
  | record (error : Record.Error)
  | update (error : UpdateError)
  | table (fault : Fault)
deriving DecidableEq

def RegistryError.message : RegistryError → String
  | deploymentMismatch expected actual =>
    s!"record for deployment `{actual}` handed to registry of `{expected}`"
  | record error => error.message
  | update error => error.message
  | table fault => fault.message

instance : Explained RegistryError where
  message := RegistryError.message
  kind
    | .deploymentMismatch _ _ => "DeploymentMismatch"
    | .record error => "Record." ++ Explained.kind error
    | .update error => "Update." ++ Explained.kind error
    | .table fault => "Table." ++ Explained.kind fault

-- Where silos of a deployment sign on and off, and others look for them.
structure Registry where
  deployment : String
  policy : Policy
deriving DecidableEq

namespace Registry

def ofConfig (config : TableConfig) : Registry := ⟨config.deployment, config.policy⟩

-- What a registry is asked for, given the answer of the table.
def readThen (call : Call) (next : call.Result → Except RegistryError α) : Plan (Except RegistryError α) := do
  match ← Plan.call call with
  | .error fault => pure (.error (.table fault))
  | .ok result => pure (next result)

def createVersion (_registry : Registry) : Plan (Except RegistryError Bool) :=
  readThen (.establish true) .ok

def check (registry : Registry) (record : Record) : Except RegistryError Unit :=
  if record.deployment = registry.deployment then .ok ()
  else .error (.deploymentMismatch registry.deployment record.deployment)

-- The entry that a record registers: whatever its status column says, the silo has just been created.
def newcomer (registry : Registry) (record : Record) : Except RegistryError Entry := do
  registry.check record
  let entry ← record.entry.mapError .record
  .ok (entry.withStatus .created)

def register (registry : Registry) (record : Record) : Plan (Except RegistryError Unit) := do
  match registry.newcomer record with
  | .error error => pure (.error error)
  | .ok entry => do
    let result ← Updater.insert registry.policy entry
    pure (result.mapError .update)

-- The silo of a record. Its other columns do not count.
def siloOf (registry : Registry) (record : Record) : Except RegistryError Silo := do
  registry.check record
  record.silo.mapError .record

def moveTo (registry : Registry) (record : Record) (status : Status) : Plan (Except RegistryError Unit) := do
  match registry.siloOf record with
  | .error error => pure (.error error)
  | .ok silo => do
    let result ← Updater.updateStatus registry.policy silo status
    pure ((result.map fun _ => ()).mapError .update)

def activate (registry : Registry) (record : Record) : Plan (Except RegistryError Unit) :=
  registry.moveTo record .active

def unregister (registry : Registry) (record : Record) : Plan (Except RegistryError Unit) :=
  registry.moveTo record .dead

def dropRepeated [DecidableEq α] : List α → List α
  | [] => []
  | [a] => [a]
  | a :: b :: rest => if a = b then dropRepeated (b :: rest) else a :: dropRepeated (b :: rest)

-- Where clients reach the active silos: every endpoint once, in order.
def gatewaysOf (snapshot : Snapshot) : List Net.Endpoint :=
  let active := snapshot.rows.filter fun row => row.entry.status.isActive
  let endpoints := active.filterMap fun row => row.entry.gateway?
  dropRepeated (endpoints.mergeSort fun a b => !(b.sortKey < a.sortKey))

def gateways (_registry : Registry) : Plan (Except RegistryError (List Net.Endpoint)) :=
  readThen .readAll fun snapshot => .ok (gatewaysOf snapshot)

-- A later start goes before an earlier one; of equal generations the silo that is listed last.
def outranks (a b : Silo) : Bool := b.generation < a.generation || (a.generation == b.generation && b.le a)

def primaryOf (snapshot : Snapshot) : Option Silo :=
  let rows := snapshot.rows.filter fun row => row.entry.status.isActive && row.entry.isPrimary
  (rows.map fun row => row.entry.silo).foldl
    (fun best silo =>
      match best with
      | none => some silo
      | some best => if outranks silo best then some silo else some best)
    none

def primary (_registry : Registry) : Plan (Except RegistryError (Option Net.Endpoint)) :=
  readThen .readAll fun snapshot => .ok ((primaryOf snapshot).map fun silo => silo.endpoint)

-- A row as it is handed out: a record, which tells the version of the table, and the row's token.
def recordOf (registry : Registry) (snapshot : Snapshot) (row : Row) : Record × Etag :=
  (.ofEntry registry.deployment row.entry (some snapshot.version.counter), row.etag)

-- One record by its keys. Another deployment's record is not there.
def read (registry : Registry) (deployment rowKey : String) :
    Plan (Except RegistryError (Option (Record × Etag))) :=
  if deployment ≠ registry.deployment then pure (.ok none)
  else
    match Silo.ofRowKey rowKey with
    | .error error => pure (.error (.record (.rowKey error)))
    | .ok silo =>
      readThen (.readRow silo) fun snapshot => .ok ((snapshot.rowFor? silo).map (registry.recordOf snapshot))

def readAll (registry : Registry) : Plan (Except RegistryError (List (Record × Etag))) :=
  readThen .readAll fun snapshot => .ok (snapshot.rows.map (registry.recordOf snapshot))

def delete (registry : Registry) : Plan (Except RegistryError Unit) :=
  readThen (.delete registry.deployment) fun _ => .ok ()

end Registry
end Muster
