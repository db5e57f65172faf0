import Muster.Rig.State
import Muster.Table.FileTable
import Muster.Update.Surroundings

namespace Muster

-- A way to a table: kept in memory or in files, under deadlines, contested by rivals.
inductive Handle where
  | memory (store : Nat) (deployment : String)
  | files (table : FileTable)
  | deadline (inner : Handle) (limit : Span)
  | contested (inner : Handle) (script : Nat)
deriving DecidableEq

-- The answer of a write that has lost a race; other calls race with nobody.
def Call.lost? : (call : Call) → Option call.Result
  | .insertRow _ _ => some false
  | .updateRow _ _ _ => some false
  | _ => none

namespace Handle

def deployment : Handle → String
  | memory _ deployment => deployment
  | files table => table.deployment
  | deadline inner _ => inner.deployment
  | contested inner _ => inner.deployment

structure Hour where
  clock : Clock
  now : Instant

-- A write for which a rival comes first. The rival uses the same table, and a fault that it meets ends
-- the write too.
def contest (hour : Hour) (script : Nat) (ask : (call : Call) → Work Rig call.Answer) (call : Call) :
    Work Rig call.Answer :=
  match call.lost? with
  | none => ask call
  | some lost => do
    match ← Rig.takeRival script with
    | .lose => pure (.ok lost)
    | .outage reason => pure (.error (.unavailable reason))
    | .acts acts => do
      match ← (Rival.plan acts).carryOut ⟨ask, fun _ => pure (), hour.clock, hour.now, .never⟩ with
      | .error fault => pure (.error fault)
      | .ok () => ask call

def perform (hour : Hour) (drawn : UInt64) : Handle → (call : Call) → Work Rig call.Answer
  | memory store deployment, call => Rig.onStore store (Store.perform hour.clock deployment drawn call)
  | files table, call => Rig.onFiles (table.answer drawn call)
  | deadline inner limit, call => call.within hour.clock limit (inner.perform hour drawn call)
  | contested inner script, call => contest hour script (inner.perform hour drawn) call

-- Carries out a plan on the table behind a handle, and publishes to a queue if there is one.
def carryOut (hour : Hour) (drawn : UInt64) (handle : Handle) (queue : Option Nat) (plan : Plan α) : Work Rig α :=
  plan.carryOut ⟨handle.perform hour drawn, Rig.tell queue, hour.clock, hour.now, .never⟩

end Handle
end Muster
