import Muster.Member.Silo

namespace Muster

-- What a grain is called: its kind and a key within the kind.
structure Grain where
  kind : String
  key : String
deriving DecidableEq

namespace Grain

def text (grain : Grain) : String := s!"{grain.kind}/{grain.key}"

def order (a b : Grain) : Ordering := (compare a.kind b.kind).then (compare a.key b.key)

end Grain

structure Activation where
  grain : Grain
  silo : Silo
  id : UInt64
deriving DecidableEq

namespace Activation

def idText (id : UInt64) : String := .ofList ('@' :: Text.wordText id)

def text (activation : Activation) : String :=
  s!"{activation.grain.text}{idText activation.id} on {activation.silo.text}"

end Activation
end Muster
