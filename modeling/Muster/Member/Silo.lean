import Muster.Net.Endpoint

namespace Muster

open Muster.Net

-- One incarnation of a server: a restart on the same endpoint takes a larger generation.
structure Silo where
  endpoint : Endpoint
  generation : Int32
deriving DecidableEq

namespace Silo

def onLoopback (port : UInt16) (generation : Int32) : Silo := ⟨.v4 .loopback port, generation⟩

def ip (silo : Silo) : Ip := silo.endpoint.ip

def port (silo : Silo) : UInt16 := silo.endpoint.port

def text (silo : Silo) : String :=
  .ofList ('S' :: silo.endpoint.text ++ ':' :: Text.signedDecimal silo.generation.toInt)

-- Silos are listed by endpoint, then by generation.
def sortKey (silo : Silo) : List Int := silo.endpoint.sortKey.map Int.ofNat ++ [silo.generation.toInt]

def le (a b : Silo) : Bool := !(b.sortKey < a.sortKey)

def order (a b : Silo) : Ordering := compareOfLessAndEq a.sortKey b.sortKey

def succeeds (later earlier : Silo) : Bool :=
  later.endpoint == earlier.endpoint && earlier.generation < later.generation

-- 2010-01-01T00:00:00Z in seconds since 1970, where generations start.
def generationEpoch : Int := 1262304000

-- The generation for a silo that starts at a given second since 1970. It is positive; a reading that
-- lies outside the range of generations gives the largest one.
def generationAt (second : Int) : Int32 :=
  let elapsed := second - generationEpoch
  if Int32.minValue.toInt ≤ elapsed ∧ elapsed ≤ Int32.maxValue.toInt then Int32.ofInt (max elapsed 1)
  else Int32.maxValue

end Silo
end Muster
