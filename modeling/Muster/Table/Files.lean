import Muster.Table.Fault

namespace Muster

-- Bytes are compared as the core library compares them, whatever else is imported.
local instance decidableEqBytes : DecidableEq ByteArray := ByteArray.instDecidableEq

inductive Node where
  | folder
  | file (bytes : ByteArray)
deriving DecidableEq

-- Where a folder or a file is: the names of the folders around it, the outermost first, and its own.
abbrev Place := List String

-- A way from the outermost folder to a place, as the parts that strokes divide it into.
structure Path where
  parts : List String
deriving DecidableEq

namespace Path

def ofText (text : String) : Path := ⟨(text.toList.splitOn '/').map String.ofList⟩

def text (path : Path) : String := "/".intercalate path.parts

def inFolder (folder name : String) : String :=
  if folder.toList.getLast? = some '/' then folder ++ name else folder ++ "/" ++ name

-- A path has up to 4095 bytes, none of them zero.
def fits (path : Path) : Bool := path.text.utf8ByteSize ≤ 4095 && !path.text.toList.contains '\x00'

-- A part that says nothing, or a full stop, stays in the folder that has been reached.
def stays (part : String) : Bool := part == "" || part == "."

def trimmed (path : Path) : Path := ⟨(path.parts.reverse.dropWhile (· == "")).reverse⟩

-- The paths to the folders that a path leads through, the outermost first. Each ends in a part that
-- does not stay.
def around (path : Path) : List Path :=
  let heads := (List.range path.parts.length).map fun n => path.parts.take (n + 1)
  ((heads.filter fun parts => !stays (parts.getLast?.getD "")).dropLast).map Path.mk

def parent (path : Path) : Path := path.around.getLast?.getD ⟨[]⟩

end Path

-- Folders and files. The outermost folder is always there.
structure Files where
  nodes : List (Place × Node)
deriving DecidableEq

namespace Files

def empty : Files := ⟨[]⟩

def node? (files : Files) (place : Place) : Option Node :=
  if place.isEmpty then some .folder else files.nodes.lookup place

def set (files : Files) (place : Place) (node : Node) : Files :=
  ⟨(place, node) :: files.nodes.filter fun (other, _) => other != place⟩

def unset (files : Files) (place : Place) : Files := ⟨files.nodes.filter fun (other, _) => other != place⟩

-- One part of a path leads from a folder to what is in it, or to the folder around it if the part is
-- two full stops. A name has up to 255 bytes.
def follow (files : Files) (here : Place) (part : String) : Except IoFault Place :=
  match files.node? here with
  | none => .error .notFound
  | some (.file _) => .error .notFolder
  | some .folder =>
    if Path.stays part then .ok here
    else if part == ".." then .ok here.dropLast
    else if part.utf8ByteSize ≤ 255 then .ok (here ++ [part])
    else .error .invalidName

-- The place that a path leads to. What it leads through has to be there, but the place may be free.
def reach (files : Files) (path : Path) : Except IoFault Place :=
  if path.fits then path.parts.foldlM files.follow [] else .error .invalidName

def find (files : Files) (path : Path) : Except IoFault (Place × Node) := do
  let place ← files.reach path
  match files.node? place with
  | some node => .ok (place, node)
  | none => .error .notFound

def isThere (files : Files) (path : Path) : Bool := (files.find path).isOk

def makeFolder (files : Files) (path : Path) : Except IoFault Files := do
  let place ← files.reach path.trimmed
  match files.node? place with
  | none => .ok (files.set place .folder)
  | some .folder => .ok files
  | some (.file _) => .error .notFolder

-- Makes folders one after the other. The first fault ends it, and the folders made until then stay.
def makeEach (files : Files) : List Path → Files × Option IoFault
  | [] => (files, none)
  | path :: rest =>
    match files.makeFolder path with
    | .ok files => files.makeEach rest
    | .error fault => (files, some fault)

-- Makes a folder and those that its path leads through, as far as they are missing.
def makeFolders (files : Files) (path : Path) : Files × Option IoFault :=
  if path.fits then files.makeEach (path.around ++ [path]) else (files, some .invalidName)

def read (files : Files) (path : Path) : Except IoFault ByteArray := do
  match ← files.find path with
  | (_, .folder) => .error .isFolder
  | (_, .file bytes) => .ok bytes

def write (files : Files) (path : Path) (bytes : ByteArray) : Except IoFault Files := do
  let place ← files.reach path
  if files.node? place = some .folder then .error .isFolder else .ok (files.set place (.file bytes))

def touch (files : Files) (path : Path) : Except IoFault Files := do
  let place ← files.reach path
  match files.node? place with
  | none => .ok (files.set place (.file .empty))
  | some .folder => .error .isFolder
  | some (.file _) => .ok files

def remove (files : Files) (path : Path) : Except IoFault Files := do
  match ← files.find path with
  | (_, .folder) => .error .isFolder
  | (place, .file _) => .ok (files.unset place)

-- Moves a file to where another one may be, which is lost then.
def rename (files : Files) (source target : Path) : Except IoFault Files := do
  let bytes ← files.read source
  (← files.remove source).write target bytes

def names? (files : Files) (path : Path) : Option (List String) :=
  match files.find path with
  | .ok (place, .folder) =>
    let inside := files.nodes.filter fun (other, _) => other.length == place.length + 1 && other.dropLast == place
    some ((inside.filterMap fun (other, _) => other.getLast?).mergeSort fun a b => a ≤ b)
  | _ => none

end Files
end Muster
