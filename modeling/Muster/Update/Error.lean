import Muster.Member.Silo
import Muster.Member.Status
import Muster.Table.Fault
import Muster.Text.Explained

namespace Muster

inductive UpdateError where
  | notFound (silo : Silo)
  | alreadyExists (silo : Silo)
  | invalidTransition (silo : Silo) (source target : Status)
  | retryExhausted (operation : String) (silo : Silo) (attempts : Nat)
  | table (fault : Fault)
deriving DecidableEq

def UpdateError.message : UpdateError → String
  | notFound silo => s!"silo {silo.text} has no membership row"
  | alreadyExists silo => s!"silo {silo.text} already has a membership row"
  | invalidTransition silo source target =>
    s!"silo {silo.text} cannot move from {source.name} to {target.name}"
  | retryExhausted operation silo attempts =>
    s!"`{operation}` on silo {silo.text} still contended after {attempts} retries"
  | table fault => fault.message

instance : Explained UpdateError where
  message := UpdateError.message
  kind
    | .notFound _ => "NotFound"
    | .alreadyExists _ => "AlreadyExists"
    | .invalidTransition _ _ _ => "InvalidTransition"
    | .retryExhausted _ _ _ => "RetryExhausted"
    | .table fault => "Table." ++ Explained.kind fault

end Muster
