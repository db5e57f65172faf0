import Muster.Registry.Registry
import Muster.Rig.Handle
import Muster.Rig.Routing

namespace Muster

-- What is called by a name when one works on a rig: its parts, the ways to them, and those who use them.
inductive Part where
  | queue (n : Nat)
  | directory (handle : DirectoryHandle)
  | store (n : Nat)
  | table (handle : Handle)
  | deployment (table : Deployment)
  | updater (handle : Handle) (policy : Policy) (queue : Option Nat)
  | registry (bare handle : Handle) (registry : Registry) (queue : Option Nat)
  | directors (directors : Directors)
  | view (view : View) (directory : DirectoryHandle) (limit : Span)
  | service (service : PlacementService) (directory : DirectoryHandle) (queue : Option Nat)

namespace Part

def queue? : Part → Option Nat
  | queue n => some n
  | _ => none

def directory? : Part → Option DirectoryHandle
  | directory way => some way
  | _ => none

def store? : Part → Option Nat
  | store n => some n
  | _ => none

def table? : Part → Option Handle
  | table way => some way
  | _ => none

def deployment? : Part → Option Deployment
  | deployment rows => some rows
  | _ => none

def updater? : Part → Option (Handle × Policy × Option Nat)
  | updater way policy events => some (way, policy, events)
  | _ => none

def registry? : Part → Option (Handle × Handle × Registry × Option Nat)
  | registry bare way office events => some (bare, way, office, events)
  | _ => none

def directors? : Part → Option Directors
  | directors serving => some serving
  | _ => none

def view? : Part → Option (View × DirectoryHandle × Span)
  | view seen lookups limit => some (seen, lookups, limit)
  | _ => none

def service? : Part → Option (PlacementService × DirectoryHandle × Option Nat)
  | service placing lookups events => some (placing, lookups, events)
  | _ => none

end Part

-- Names and what they stand for, the latest first. A name may stand for several things of different sorts.
structure Names where
  toList : List (String × Part)

namespace Names

def empty : Names := ⟨[]⟩

def bind (names : Names) (name : String) (part : Part) : Names := ⟨(name, part) :: names.toList⟩

def find? (names : Names) (name : String) (pick : Part → Option α) : Option α :=
  names.toList.findSome? fun (other, part) => if other == name then pick part else none

end Names
end Muster
