import Muster.Text.Numeral

namespace Muster.FileName

def isPlain (byte : UInt8) : Bool :=
  (Char.ofNat byte.toNat).isAlphanum || byte == 0x2d || byte == 0x5f || byte == 0x2e

def upperDigit (n : Nat) : Char := (Nat.digitChar n).toUpper

-- A byte that may not stand in a name is written as a percent sign and two hexadecimal digits.
def escapeByte (byte : UInt8) : List Char :=
  if isPlain byte then [Char.ofNat byte.toNat]
  else ['%', upperDigit (byte.toNat / 16), upperDigit (byte.toNat % 16)]

-- The part of the file names that tells deployments apart.
def stem (deployment : String) : String := .ofList (deployment.toUTF8.data.toList.flatMap escapeByte)

def document (deployment : String) : String := stem deployment ++ ".json"

-- Where a document is written before it takes the place of the one before.
def draft (deployment : String) : String := stem deployment ++ ".json.tmp"

def lock (deployment : String) : String := stem deployment ++ ".lock"

end Muster.FileName
