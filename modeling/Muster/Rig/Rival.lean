import Muster.Member.Edit
import Muster.Update.Plan

namespace Muster

-- One thing that another party does to the table that a write is meant for.
inductive Rival.Act where
  | delete (deployment : String)
  | insert (entry : Entry)
  | patch (silo : Silo) (edit : Edit)
  | alive (entry : Entry)
deriving DecidableEq

-- What a write meets before it gets through: a lost race, an outage, or what another party does first.
inductive Rival where
  | lose
  | outage (reason : String)
  | acts (acts : List Rival.Act)
deriving DecidableEq

namespace Rival

def pass : Rival := acts []

-- The rival's own calls. Whether its write wins does not matter to it, and a silo that has no row is
-- not patched.
def Act.plan : Act → Plan (Except Fault Unit)
  | delete deployment => Plan.call (.delete deployment)
  | insert entry => do
    match ← Plan.call .readAll with
    | .error fault => pure (.error fault)
    | .ok snapshot => do
      let answer ← Plan.call (.insertRow entry snapshot.version)
      pure (answer.map fun _ => ())
  | patch silo edit => do
    match ← Plan.call (.readRow silo) with
    | .error fault => pure (.error fault)
    | .ok snapshot =>
      match snapshot.rowFor? silo with
      | none => pure (.ok ())
      | some row => do
        let answer ← Plan.call (.updateRow (edit.apply row.entry) row.etag snapshot.version)
        pure (answer.map fun _ => ())
  | alive entry => Plan.call (.mergeAlive entry)

def plan : List Act → Plan (Except Fault Unit)
  | [] => pure (.ok ())
  | act :: rest => do
    match ← act.plan with
    | .error fault => pure (.error fault)
    | .ok () => plan rest

end Rival
end Muster
