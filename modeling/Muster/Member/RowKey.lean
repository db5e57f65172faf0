import Muster.Member.Silo
import Muster.Text.Explained

namespace Muster

open Muster.Net

namespace RowKey

inductive Part where
  | address
  | port
  | generation
deriving DecidableEq

def Part.name : Part → String
  | address => "address"
  | port => "port"
  | generation => "generation"

inductive Error where
  | missing (key : String) (part : Part)
  | invalid (key : String) (part : Part)
deriving DecidableEq

def Error.message : Error → String
  | missing key part => s!"row key `{key}` is missing its {part.name} component"
  | invalid key part => s!"row key `{key}` has an invalid {part.name} component"

instance : Explained RowKey.Error where
  message := RowKey.Error.message
  kind
    | .missing _ _ => "MissingComponent"
    | .invalid _ _ => "InvalidComponent"

def cut? : List Char → Option (List Char × List Char)
  | [] => none
  | c :: rest =>
    if c = '-' then some ([], rest) else (cut? rest).map fun (before, after) => (c :: before, after)

end RowKey

namespace Silo

-- Address, port and generation with hyphens between them. The link of an IPv6 endpoint is left out.
def rowKey (silo : Silo) : String :=
  .ofList (silo.ip.text ++ '-' :: Text.decimal silo.port.toNat
    ++ '-' :: Text.signedDecimal silo.generation.toInt)

-- No address and no port holds a hyphen, so the first two part the key and a third one is the sign
-- of the generation.
def ofRowKey (key : String) : Except RowKey.Error Silo :=
  match RowKey.cut? key.toList with
  | none => .error (.missing key .port)
  | some (address, rest) =>
    match RowKey.cut? rest with
    | none => .error (.missing key .generation)
    | some (port, generation) =>
      if address.isEmpty then .error (.missing key .address)
      else
        match Ip.ofText? address, Text.readUInt16? port, Text.readInt32? generation with
        | none, _, _ => .error (.invalid key .address)
        | some _, none, _ => .error (.invalid key .port)
        | some _, some _, none => .error (.invalid key .generation)
        | some ip, some port, some generation => .ok ⟨.ofIp ip port, generation⟩

end Silo
end Muster
