namespace Muster

-- How the silo of a grain is chosen: any active one, the silo that asks unless the grain is at work
-- already, or only the silo where it is at work.
inductive Strategy where
  | random
  | preferLocal
  | pinned
deriving DecidableEq

namespace Strategy

def all : List Strategy := [random, preferLocal, pinned]

def standard : Strategy := random

def name : Strategy → String
  | random => "random"
  | preferLocal => "prefer-local"
  | pinned => "pinned"

-- The case of ASCII letters does not count.
def ofName? (name : String) : Option Strategy :=
  all.find? fun strategy => strategy.name.toList.map Char.toLower == name.toList.map Char.toLower

theorem ofName?_name (strategy : Strategy) : ofName? strategy.name = some strategy := by
  cases strategy <;> decide

end Strategy

structure Strategy.Unknown where
  name : String
deriving DecidableEq

def Strategy.Unknown.message (unknown : Strategy.Unknown) : String :=
  s!"unknown placement strategy `{unknown.name}`"

def Strategy.ofName (name : String) : Except Strategy.Unknown Strategy :=
  match Strategy.ofName? name with
  | some strategy => .ok strategy
  | none => .error ⟨name⟩

end Muster
