import Muster.Config.Table
import Muster.Json.Deployment
import Muster.Table.Call
import Muster.Table.FileName
import Muster.Table.Files

namespace Muster

-- A table of which every deployment is kept as a document in a folder.
structure FileTable where
  folder : String
  deployment : String
deriving DecidableEq

-- Work on files. What it has done stays done when a fault ends it.
abbrev Disk := ExceptT Fault (StateM Files)

namespace Disk

def ofExcept : Except Fault α → Disk α
  | .ok value => pure value
  | .error fault => throw fault

def change (action : Files → Except IoFault Files) : Disk Unit := do
  match action (← get) with
  | .ok files => set files
  | .error fault => throw (.io fault)

def makeFolders (path : Path) : Disk Unit := do
  let (files, fault?) := (← get).makeFolders path
  set files
  match fault? with
  | none => pure ()
  | some fault => throw (.io fault)

end Disk

namespace FileTable

-- A connection that shows nothing names no folder.
def ofConfig (config : TableConfig) : Except Fault FileTable :=
  if Text.allBlank config.connection then
    .error (.invalidConfig "file membership table needs a directory path as connection string")
  else .ok ⟨config.connection, config.deployment⟩

def documentPath (table : FileTable) (deployment : String) : String :=
  Path.inFolder table.folder (FileName.document deployment)

def path (table : FileTable) (name : String) : Path := .ofText (Path.inFolder table.folder name)

-- Calls for one deployment take turns by its lock. Nobody ever removes the file of the lock.
def lock (table : FileTable) (deployment : String) : Disk Unit := do
  Disk.makeFolders (.ofText table.folder)
  Disk.change fun files => files.touch (table.path (FileName.lock deployment))

def load (table : FileTable) : Disk Deployment := do
  match (← get).read (table.path (FileName.document table.deployment)) with
  | .error .notFound => pure (.new table.deployment)
  | .error fault => throw (.io fault)
  | .ok bytes =>
    match Deployment.ofBytes? bytes with
    | none => throw (.corrupted .unreadable)
    | some stored =>
      if stored.id = table.deployment then pure stored
      else throw (.corrupted (.foreign (table.documentPath table.deployment) stored.id))

def save (table : FileTable) (stored : Deployment) : Disk Unit := do
  let draft := table.path (FileName.draft table.deployment)
  Disk.change fun files => files.write draft stored.document.toUTF8
  Disk.change fun files => files.rename draft (table.path (FileName.document table.deployment))

def read (table : FileTable) (f : Deployment → Except Fault α) : Disk α := do
  table.lock table.deployment
  Disk.ofExcept (f (← table.load))

-- A write that does not win leaves the document alone.
def write (table : FileTable) (f : Deployment → Except Fault (Bool × Deployment)) : Disk Bool := do
  table.lock table.deployment
  let (won, stored) ← Disk.ofExcept (f (← table.load))
  if won then table.save stored
  pure won

def delete (table : FileTable) (deployment : String) : Disk Unit := do
  if (← get).isThere (.ofText table.folder) then
    table.lock deployment
    match (← get).remove (table.path (FileName.document deployment)) with
    | .ok files => set files
    | .error .notFound => pure ()
    | .error fault => throw (.io fault)

def act (table : FileTable) (drawn : UInt64) (call : Call) : Disk call.Result :=
  match call with
  | .establish false => table.read fun stored => .ok stored.isInitialized
  | .establish true => do
    let _ ← table.write fun stored => .ok (stored.establish drawn)
    pure true
  | .delete deployment => table.delete deployment
  | .readRow silo => table.read fun stored => stored.readRow silo
  | .readAll => table.read Deployment.readAll
  | .insertRow entry expected => table.write fun stored => stored.insertRow entry expected
  | .updateRow entry etag expected => table.write fun stored => stored.updateRow entry etag expected
  | .mergeAlive entry => do
    let _ ← table.write fun stored => (stored.mergeAlive entry).map fun stored => (true, stored)
    pure ()

-- The answer to a call. A table that gets its stamp here takes the incarnation drawn.
def answer (table : FileTable) (drawn : UInt64) (call : Call) (files : Files) : call.Answer × Files :=
  (table.act drawn call).run.run files

end FileTable
end Muster
