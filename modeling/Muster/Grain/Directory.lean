import Muster.Grain.Activation
import Muster.Text.Explained
import Muster.Time.Span

namespace Muster

inductive DirectoryError where
  | unavailable (reason : String)
  | timeout (limit : Span)
deriving DecidableEq

def DirectoryError.message : DirectoryError → String
  | unavailable reason => s!"grain directory unavailable: {reason}"
  | timeout limit => s!"grain directory lookup timed out after {limit.text}"

instance : Explained DirectoryError where
  message := DirectoryError.message
  kind
    | .unavailable _ => "Unavailable"
    | .timeout _ => "Timeout"

inductive RegistrationError where
  | alreadyRegistered (existing : Activation)
  | directory (error : DirectoryError)
deriving DecidableEq

def RegistrationError.message : RegistrationError → String
  | alreadyRegistered existing => s!"grain already registered at {existing.text}"
  | directory error => error.message

instance : Explained RegistrationError where
  message := RegistrationError.message
  kind
    | .alreadyRegistered _ => "AlreadyRegistered"
    | .directory error => "Directory." ++ Explained.kind error

-- Where grains are at work: the activations in the order in which they were noted.
structure Directory where
  sequence : UInt64
  activations : List Activation
  outage : Option String
deriving DecidableEq

namespace Directory

def empty : Directory := ⟨0, [], none⟩

def activationsOf (directory : Directory) (grain : Grain) : List Activation :=
  directory.activations.filter fun activation => activation.grain == grain

-- An outage stops lookups and registrations, and nothing else.
def available (directory : Directory) : Except DirectoryError Unit :=
  match directory.outage with
  | some reason => .error (.unavailable reason)
  | none => .ok ()

def lookup (directory : Directory) (grain : Grain) : Except DirectoryError (List Activation) := do
  directory.available
  .ok (directory.activationsOf grain)

-- Notes another activation, whether the grain has one already or not.
def record (directory : Directory) (grain : Grain) (silo : Silo) : Activation × Directory :=
  let sequence := directory.sequence + 1
  let activation : Activation := ⟨grain, silo, sequence⟩
  (activation, { directory with sequence, activations := directory.activations ++ [activation] })

def register (directory : Directory) (grain : Grain) (silo : Silo) :
    Except RegistrationError (Activation × Directory) :=
  match directory.available with
  | .error error => .error (.directory error)
  | .ok () =>
    match (directory.activationsOf grain).head? with
    | some existing => .error (.alreadyRegistered existing)
    | none => .ok (directory.record grain silo)

def unregister (directory : Directory) (activation : Activation) : Bool × Directory :=
  (directory.activations.contains activation,
    { directory with activations := directory.activations.filter (· != activation) })

def removeSilo (directory : Directory) (silo : Silo) : List Activation × Directory :=
  let (gone, left) := directory.activations.partition fun activation => activation.silo == silo
  (gone, { directory with activations := left })

def size (directory : Directory) : Nat :=
  (directory.activations.map fun activation => activation.grain).eraseDups.length

end Directory
end Muster
