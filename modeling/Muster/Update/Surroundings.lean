import Muster.Time.Clock
import Muster.Time.Work
import Muster.Update.Plan

namespace Muster

-- What a party finds around it when it acts: a table, whoever hears of its events, the clock that its
-- waits go by, and what it reads from the calendar and from chance.
structure Surroundings (σ : Type) where
  ask : (call : Call) → Work σ call.Answer
  tell : Event → Work σ Unit
  clock : Clock
  now : Instant
  chance : Chance

def Plan.carryOut (around : Surroundings σ) : Plan α → Work σ α
  | done value => pure value
  | ask call next => do (next (← around.ask call)).carryOut around
  | wait delay next => do
    Work.sleep (around.clock.sleepTicks delay)
    next.carryOut around
  | chance next => (next around.chance).carryOut around
  | clock next => (next around.now).carryOut around
  | publish event next => do
    around.tell event
    next.carryOut around

end Muster
