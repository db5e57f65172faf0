import Muster.Update.Plan

-- What a party meets when it carries out a plan, whatever the table, the clock and chance are like.
namespace Muster

-- What happens to a party, one thing after the other.
inductive Happening where
  | called (call : Call) (answer : call.Answer)
  | waited (delay : Span)
  | drew (share : Chance)
  | looked (now : Instant)
  | told (event : Event)

-- Any table, any clock and any source of chance. They may go by all that has happened before.
structure Fortune where
  answer : List Happening → (call : Call) → call.Answer
  share : List Happening → Chance
  now : List Happening → Instant

namespace Plan

variable {α β : Type}

-- What happens from here on, and what the plan is done with in the end. Every plan comes to an end.
def meet (fortune : Fortune) : Plan α → List Happening → List Happening × α
  | done value, _ => ([], value)
  | ask call next, past =>
    let happening := .called call (fortune.answer past call)
    ((next (fortune.answer past call)).meet fortune (past ++ [happening])).map (happening :: ·) id
  | wait delay next, past => (next.meet fortune (past ++ [.waited delay])).map (.waited delay :: ·) id
  | chance next, past =>
    let share := fortune.share past
    ((next share).meet fortune (past ++ [.drew share])).map (.drew share :: ·) id
  | clock next, past =>
    let now := fortune.now past
    ((next now).meet fortune (past ++ [.looked now])).map (.looked now :: ·) id
  | publish event next, past => (next.meet fortune (past ++ [.told event])).map (.told event :: ·) id

-- The plan can go so: it is done with the value after these happenings.
def Goes : Plan α → List Happening → α → Prop
  | done value, log, result => log = [] ∧ result = value
  | ask call next, log, result => ∃ answer rest, log = .called call answer :: rest ∧ (next answer).Goes rest result
  | wait delay next, log, result => ∃ rest, log = .waited delay :: rest ∧ next.Goes rest result
  | chance next, log, result => ∃ share rest, log = .drew share :: rest ∧ (next share).Goes rest result
  | clock next, log, result => ∃ now rest, log = .looked now :: rest ∧ (next now).Goes rest result
  | publish event next, log, result => ∃ rest, log = .told event :: rest ∧ next.Goes rest result

theorem goes_meet (fortune : Fortune) (plan : Plan α) (past : List Happening) :
    plan.Goes (plan.meet fortune past).1 (plan.meet fortune past).2 := by
  induction plan generalizing past with
  | done value => exact ⟨rfl, rfl⟩
  | ask call next ih => exact ⟨_, _, rfl, ih _ _⟩
  | wait delay next ih => exact ⟨_, rfl, ih _⟩
  | chance next ih => exact ⟨_, _, rfl, ih _ _⟩
  | clock next ih => exact ⟨_, _, rfl, ih _ _⟩
  | publish event next ih => exact ⟨_, rfl, ih _⟩

-- A plan made of two goes as the first one goes, and then as the second one.
theorem Goes.of_bind {plan : Plan α} {rest : α → Plan β} {log : List Happening} {result : β}
    (h : (plan.bind rest).Goes log result) :
    ∃ first second value, log = first ++ second ∧ plan.Goes first value ∧ (rest value).Goes second result := by
  induction plan generalizing log with
  | done value => exact ⟨[], log, value, rfl, ⟨rfl, rfl⟩, h⟩
  | ask call next ih =>
    obtain ⟨answer, log, rfl, h⟩ := h
    obtain ⟨first, second, value, rfl, hfirst, hsecond⟩ := ih answer h
    exact ⟨_ :: first, second, value, rfl, ⟨answer, first, rfl, hfirst⟩, hsecond⟩
  | wait delay next ih =>
    obtain ⟨log, rfl, h⟩ := h
    obtain ⟨first, second, value, rfl, hfirst, hsecond⟩ := ih h
    exact ⟨_ :: first, second, value, rfl, ⟨first, rfl, hfirst⟩, hsecond⟩
  | chance next ih =>
    obtain ⟨share, log, rfl, h⟩ := h
    obtain ⟨first, second, value, rfl, hfirst, hsecond⟩ := ih share h
    exact ⟨_ :: first, second, value, rfl, ⟨share, first, rfl, hfirst⟩, hsecond⟩
  | clock next ih =>
    obtain ⟨now, log, rfl, h⟩ := h
    obtain ⟨first, second, value, rfl, hfirst, hsecond⟩ := ih now h
    exact ⟨_ :: first, second, value, rfl, ⟨now, first, rfl, hfirst⟩, hsecond⟩
  | publish event next ih =>
    obtain ⟨log, rfl, h⟩ := h
    obtain ⟨first, second, value, rfl, hfirst, hsecond⟩ := ih h
    exact ⟨_ :: first, second, value, rfl, ⟨first, rfl, hfirst⟩, hsecond⟩

end Plan
end Muster
