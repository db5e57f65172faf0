import Muster.Event.Queue
import Muster.Retry.Policy
import Muster.Table.Call

namespace Muster

-- What a party does, as far as others can see it: it asks a table and goes on with the answer, waits,
-- draws a chance, looks at the clock, publishes events.
inductive Plan (α : Type) where
  | done (value : α)
  | ask (call : Call) (next : call.Answer → Plan α)
  | wait (delay : Span) (next : Plan α)
  | chance (next : Chance → Plan α)
  | clock (next : Instant → Plan α)
  | publish (event : Event) (next : Plan α)

namespace Plan

def bind : Plan α → (α → Plan β) → Plan β
  | done value, rest => rest value
  | ask call next, rest => ask call fun answer => (next answer).bind rest
  | wait delay next, rest => wait delay (next.bind rest)
  | chance next, rest => chance fun share => (next share).bind rest
  | clock next, rest => clock fun now => (next now).bind rest
  | publish event next, rest => publish event (next.bind rest)

instance : Monad Plan where
  pure := done
  bind := bind

def call (call : Call) : Plan call.Answer := ask call done

def pause (delay : Span) : Plan Unit := wait delay (done ())

def draw : Plan Chance := chance done

def now : Plan Instant := clock done

def tell (event : Event) : Plan Unit := publish event (done ())

end Plan
end Muster
