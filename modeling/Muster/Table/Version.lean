import Muster.Text.Numeral

namespace Muster

-- The stamp of a whole table. Every write that wins counts it up and gives it a new token.
structure Version where
  counter : Int64
  token : String
deriving DecidableEq

-- The stamp after a write. The counter stays where it is once it can go no further.
def Version.next (version : Version) (token : String) : Version :=
  ⟨if version.counter = Int64.maxValue then version.counter else version.counter + 1, token⟩

def Version.text (version : Version) : String :=
  .ofList ('<' :: Text.signedDecimal version.counter.toInt ++ [',', ' '] ++ version.token.toList ++ ['>'])

structure Etag where
  token : String
deriving DecidableEq

end Muster
