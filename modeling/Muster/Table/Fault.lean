import Muster.Text.Explained
import Muster.Time.Span

namespace Muster

-- What is wrong with a stored document: it cannot be read, or it is another deployment's.
inductive Corruption where
  | unreadable
  | foreign (path deployment : String)
deriving DecidableEq

inductive IoFault where
  | notFound
  | isFolder
  | notFolder
  | invalidName
deriving DecidableEq

-- Why a table gives no answer. A write that loses a race is an answer.
inductive Fault where
  | notInitialized (deployment : String)
  | unavailable (reason : String)
  | timeout (operation : String) (limit : Span)
  | corrupted (corruption : Corruption)
  | io (fault : IoFault)
  | invalidConfig (reason : String)
deriving DecidableEq

def Corruption.message : Corruption → String
  | unreadable => "the document cannot be read"
  | foreign path deployment => s!"document {path} belongs to deployment `{deployment}`"

def IoFault.message : IoFault → String
  | notFound => "no such file or folder"
  | isFolder => "there is a folder in the place of a file"
  | notFolder => "there is a file in the place of a folder"
  | invalidName => "no file can have that name"

def Fault.message : Fault → String
  | notInitialized deployment => s!"membership table for deployment `{deployment}` is not initialized"
  | unavailable reason => s!"membership table backend unavailable: {reason}"
  | timeout operation limit => s!"membership table operation `{operation}` timed out after {limit.text}"
  | corrupted corruption => s!"membership table data is corrupted: {corruption.message}"
  | io fault => s!"membership table io error: {fault.message}"
  | invalidConfig reason => s!"membership table configuration rejected: {reason}"

instance : Explained Fault where
  message := Fault.message
  kind
    | .notInitialized _ => "NotInitialized"
    | .unavailable _ => "Unavailable"
    | .timeout _ _ => "Timeout"
    | .corrupted _ => "Corrupted"
    | .io _ => "Io"
    | .invalidConfig _ => "InvalidConfig"

end Muster
