import Muster.Rig.State

namespace Muster

-- A way to a directory, on which lookups may take their time.
inductive DirectoryHandle where
  | plain (directory : Nat)
  | slow (inner : DirectoryHandle) (latency : Span)
deriving DecidableEq

namespace DirectoryHandle

def number : DirectoryHandle → Nat
  | plain directory => directory
  | slow inner _ => inner.number

def lookup (clock : Clock) (grain : Grain) : DirectoryHandle → Work Rig (Except DirectoryError (List Activation))
  | plain directory => Rig.onDirectory directory fun directory => (directory.lookup grain, directory)
  | slow inner latency => do
    Work.sleep (clock.sleepTicks latency)
    inner.lookup clock grain

def lookupWithin (clock : Clock) (limit : Span) (handle : DirectoryHandle) (grain : Grain) :
    Work Rig (Except DirectoryError (List Activation)) :=
  (handle.lookup clock grain).within (clock.ticks limit) (.error (.timeout limit))

end DirectoryHandle
end Muster
