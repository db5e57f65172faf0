import Muster.Member.RowKey
import Muster.Table.Fault
import Muster.Table.Snapshot

namespace Muster

-- The table of one deployment: its rows and the stamp that every write is checked against. It gives
-- out tokens made of the incarnation drawn when it was established and of a sequence number.
structure Deployment where
  id : String
  version : Option Version
  rows : Rows
  incarnation : UInt64
  sequence : UInt64
deriving DecidableEq

namespace Deployment

def new (id : String) : Deployment := ⟨id, none, .empty, 0, 0⟩

def isInitialized (table : Deployment) : Bool := table.version.isSome

def tokenOf (incarnation sequence : UInt64) : String :=
  .ofList (Text.wordText incarnation ++ '-' :: Text.wordText sequence)

theorem tokenOf_injective {i j s t : UInt64} (h : tokenOf i s = tokenOf j t) : i = j ∧ s = t := by
  have hchars := String.ofList_injective h
  have hlen : (Text.wordText i).length = (Text.wordText j).length := by
    rw [Text.length_wordText, Text.length_wordText]
  obtain ⟨hi, hs⟩ := List.append_inj hchars hlen
  exact ⟨Text.wordText_injective hi, Text.wordText_injective (List.cons.inj hs).2⟩

def token (table : Deployment) (n : UInt64) : String := tokenOf table.incarnation (table.sequence + n)

-- Stamps the table unless it has a stamp; tells whether it had none. Every stamping draws another
-- incarnation, so that tokens from before a clearing fit nothing after it.
def establish (table : Deployment) (drawn : UInt64) : Bool × Deployment :=
  match table.version with
  | some _ => (false, table)
  | none =>
    (true, { table with version := some ⟨0, tokenOf drawn 1⟩, incarnation := drawn, sequence := 1 })

-- The stamp of the table; without one there is nothing to read or to write.
def stamp (table : Deployment) : Except Fault Version :=
  match table.version with
  | some version => .ok version
  | none => .error (.notInitialized table.id)

def readRow (table : Deployment) (silo : Silo) : Except Fault Snapshot := do
  let version ← table.stamp
  .ok (.of (table.rows.get? silo.rowKey).toList version)

def readAll (table : Deployment) : Except Fault Snapshot := do
  let version ← table.stamp
  .ok (.of table.rows.values version)

-- Writes the row of an entry under the next token and stamps the table with the one after it.
def commit (table : Deployment) (entry : Entry) (stamp : Version) : Deployment :=
  { table with
    version := some (stamp.next (table.token 2))
    rows := table.rows.insert entry.silo.rowKey ⟨entry, ⟨table.token 1⟩⟩
    sequence := table.sequence + 2 }

theorem get?_commit (table : Deployment) (entry : Entry) (stamp : Version) (key : String) :
    (table.commit entry stamp).rows.get? key =
      if key = entry.silo.rowKey then some ⟨entry, ⟨table.token 1⟩⟩ else table.rows.get? key :=
  Rows.get?_insert _ _ _ _

-- Adds a row if the stamp is the expected one and the row's key is free.
def insertRow (table : Deployment) (entry : Entry) (expected : Version) :
    Except Fault (Bool × Deployment) := do
  let version ← table.stamp
  if version ≠ expected then .ok (false, table)
  else
    match table.rows.get? entry.silo.rowKey with
    | some _ => .ok (false, table)
    | none => .ok (true, table.commit entry expected)

-- Replaces a row if the stamp and the row's token are the expected ones.
def updateRow (table : Deployment) (entry : Entry) (etag : Etag) (expected : Version) :
    Except Fault (Bool × Deployment) := do
  let version ← table.stamp
  if version ≠ expected then .ok (false, table)
  else
    match table.rows.get? entry.silo.rowKey with
    | none => .ok (false, table)
    | some row => if row.etag = etag then .ok (true, table.commit entry expected) else .ok (false, table)

-- Notes the time at which a silo was last alive. Tokens and stamp stay as they are, and a silo
-- without a row is passed over.
def mergeAlive (table : Deployment) (entry : Entry) : Except Fault Deployment := do
  let _ ← table.stamp
  .ok { table with
    rows := table.rows.adjust entry.silo.rowKey fun row =>
      { row with entry := row.entry.withAliveTime entry.aliveTime } }

def clear (table : Deployment) : Deployment := { table with version := none, rows := .empty }

end Deployment
end Muster
