import Muster.Placement.Director

-- Where calls to grains and new activations may go, whatever the directory knows and whatever is drawn.
namespace Muster

theorem Directors.resolve_standard (strategy : Strategy) :
    standard.resolve strategy = .ok (.ofStrategy strategy) := by
  cases strategy <;> rfl

def Decision.silo? : Decision → Option Silo
  | place placement => some placement.silo
  | refuse _ => none

namespace Director

variable {view : View} {grain : Grain} {existing : List Activation} {draw : Nat}

-- The ways in which the director for a grain decides.
inductive Course (view : View) (grain : Grain) (existing : List Activation) (draw : Nat) (decision : Decision) :
    Prop where
  | reuse (activation : Activation) (known : activation ∈ existing) (active : activation.silo ∈ view.active)
      (strategy : view.types.strategyFor grain ≠ .pinned)
      (head : view.types.strategyFor grain = .preferLocal → (liveHosts view existing).head? = some activation.silo)
      (decision_eq : decision = .place ⟨activation.silo, view.types.strategyFor grain, view.types.nameFor grain⟩)
  -- A new activation, for want of one to go to, or because the grain is pinned here already.
  | fresh (none : view.types.strategyFor grain ≠ .pinned →
        ∀ activation ∈ existing, activation.silo ∉ view.active)
      (own : view.types.strategyFor grain = .pinned →
        existing = [] ∨ ∃ only, existing = [only] ∧ only.silo = view.home)
      (decision_eq : decision = .place
        ((ofStrategy (view.types.strategyFor grain)).add (view.types.strategyFor grain) grain view draw))
  | refuse (strategy : view.types.strategyFor grain = .pinned) (known : existing ≠ [])
      (elsewhere : ∀ only, existing = [only] → only.silo ≠ view.home) (decision_eq : decision = .refuse existing)

variable {decision : Decision}

end Director
end Muster
