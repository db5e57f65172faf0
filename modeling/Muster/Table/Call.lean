import Muster.Table.Fault
import Muster.Table.Snapshot

namespace Muster

-- What a table can be asked for. Every table serves one deployment, but deletes any.
inductive Call where
  | establish (create : Bool)
  | delete (deployment : String)
  | readRow (silo : Silo)
  | readAll
  | insertRow (entry : Entry) (expected : Version)
  | updateRow (entry : Entry) (etag : Etag) (expected : Version)
  | mergeAlive (entry : Entry)
deriving DecidableEq

namespace Call

-- Establishing tells whether the table has a stamp then, and a write whether it won.
abbrev Result : Call → Type
  | establish _ => Bool
  | delete _ => Unit
  | readRow _ => Snapshot
  | readAll => Snapshot
  | insertRow _ _ => Bool
  | updateRow _ _ _ => Bool
  | mergeAlive _ => Unit

abbrev Answer (call : Call) : Type := Except Fault call.Result

def name : Call → String
  | establish _ => "initialize"
  | delete _ => "delete_deployment_entries"
  | readRow _ => "read_row"
  | readAll => "read_all"
  | insertRow _ _ => "insert_row"
  | updateRow _ _ _ => "update_row"
  | mergeAlive _ => "merge_alive"

end Call
end Muster
