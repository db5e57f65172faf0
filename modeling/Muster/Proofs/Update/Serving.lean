import Muster.Proofs.Rig.Handle
import Muster.Proofs.Update.Legible
import Muster.Update.Updater

-- A party that has a table to itself: every call is a call on that table, and a change takes one round.
namespace Muster

namespace Plan

variable {σ α β : Type} {around : Surroundings σ} {state : σ} {middle : α → σ → Prop} {result : α → σ → Prop}
  {ends : β → σ → Prop}

-- How a plan ends when it is carried out: with what value, in what state.
def Yields (around : Surroundings σ) (plan : Plan α) (state : σ) (result : α → σ → Prop) : Prop :=
  result (plan.carryOut around state).value (plan.carryOut around state).state

theorem yields_ask {call : Call} {next : call.Answer → Plan α} : (ask call next).Yields around state result ↔
    (next (around.ask call state).value).Yields around (around.ask call state).state result := by
  simp only [Yields, carryOut, Work.value_bind, Work.state_bind]

theorem yields_publish {event : Event} {next : Plan α} : (publish event next).Yields around state result ↔
    next.Yields around (around.tell event state).state result := by
  simp only [Yields, carryOut, Work.value_bind, Work.state_bind]

theorem yields_now {next : Instant → Plan α} : (now >>= next).Yields around state result ↔
    (next around.now).Yields around state result := Iff.rfl

theorem Yields.bind {plan : Plan α} {rest : α → Plan β} (h : plan.Yields around state middle)
    (hrest : ∀ value state, middle value state → (rest value).Yields around state ends) :
    (plan.bind rest).Yields around state ends := by
  induction plan generalizing state with
  | done value => exact hrest value state h
  | ask call next ih => exact yields_ask.mpr (ih _ (yields_ask.mp h))
  | wait delay next ih => exact ih (h : next.Yields around state middle)
  | chance next ih => exact ih _ (h : (next around.chance).Yields around state middle)
  | clock next ih => exact ih _ (h : (next around.now).Yields around state middle)
  | publish event next ih => exact yields_publish.mpr (ih (yields_publish.mp h))

end Plan

-- The surroundings have the table of a deployment in them, and it answers. A deletion leaves a new table. A table that
-- is kept in files keeps what comes back from a text, and is given nothing else.
structure Surroundings.Serves {σ : Type} (around : Surroundings σ) (deployment : String) (filed : Prop)
    (holds : σ → Deployment → Prop) : Prop where
  id : ∀ {state table}, holds state table → table.id = deployment
  answer : ∀ {state table} (call : Call), holds state table → (∀ other, call ≠ .delete other) →
    (filed → call.Legible) → ∃ drawn, (around.ask call state).value = (table.answer drawn call).1 ∧
      holds (around.ask call state).state (table.answer drawn call).2
  delete : ∀ {state table}, holds state table → (around.ask (.delete deployment) state).value = .ok () ∧
    holds (around.ask (.delete deployment) state).state (.new deployment)
  tell : ∀ {state table} (event : Event), holds state table → holds (around.tell event state).state table
  legible : filed → ∀ {state table}, holds state table → table.Legible

-- Somebody who deletes may name another deployment than that of the table. The table does not notice.
structure Surroundings.Hosts {σ : Type} (around : Surroundings σ) (named deployment : String) (filed : Prop)
    (holds : σ → Deployment → Prop) : Prop extends around.Serves deployment filed holds where
  other : named ≠ deployment → ∀ {state table}, holds state table →
    (around.ask (.delete named) state).value = .ok () ∧ holds (around.ask (.delete named) state).state table

theorem Surroundings.Serves.hosts {σ : Type} {around : Surroundings σ} {deployment : String} {filed : Prop}
    {holds : σ → Deployment → Prop} (h : around.Serves deployment filed holds) :
    around.Hosts deployment deployment filed holds :=
  ⟨h, fun hne => absurd rfl hne⟩

namespace Updater

open Plan

variable {σ : Type} {around : Surroundings σ} {deployment : String} {filed : Prop} {holds : σ → Deployment → Prop}
  {state : σ} {table : Deployment} {α τ : Type}

theorem yields_call (hserves : around.Serves deployment filed holds) (hholds : holds state table) (call : Call)
    (hcall : ∀ other, call ≠ .delete other) (hlegible : filed → call.Legible) {next : call.Answer → Plan α}
    {result : α → σ → Prop}
    (hnext : ∀ drawn state', holds state' (table.answer drawn call).2 →
      (next (table.answer drawn call).1).Yields around state' result) :
    (ask call next).Yields around state result := by
  obtain ⟨drawn, hvalue, hstate⟩ := hserves.answer call hholds hcall hlegible
  rw [yields_ask, hvalue]
  exact hnext drawn _ hstate

-- What is revised in a table is written as it was read, up to the decision.
theorem legible_revised (hserves : around.Serves deployment filed holds) (hholds : holds state table)
    {decide : Decide} (hdecide : filed → decide.Legible around.now) {seen : List Entry} {key : String} {row : Row}
    {next : Entry} (hrow : table.rows.get? key = some row)
    (hnext : decide seen around.now row.entry = .ok (some next)) : filed → next.Legible :=
  fun hfiled => hdecide hfiled seen row.entry next (hserves.legible hfiled hholds key row hrow) hnext

-- Whoever is alone needs one round.
theorem rounds_yields {operation : String} {silo : Silo} {policy : Policy} {round : τ → Plan (τ × Round α)}
    {seen : τ} (ends : τ × Except UpdateError α → σ → Prop)
    (h : (round seen).Yields around state fun (seen, round) state' =>
      ∃ result, round = .settled result ∧ ends (seen, result) state') (left : Nat) (delay : Span) :
    (rounds operation silo policy round left delay seen).Yields around state ends := by
  cases left with
  | zero | succ _ =>
    unfold rounds
    refine h.bind ?_
    rintro ⟨seen, _⟩ state' ⟨result, rfl, hends⟩
    exact hends

end Updater

namespace Handle

theorem serves (handle : Handle) (hour : Hour) (latency : Span) (drawn : UInt64) (queue : Option Nat) :
    Surroundings.Serves ⟨handle.perform hour drawn, Rig.tell queue, hour.clock, hour.now, .never⟩ handle.deployment
      handle.Filed (handle.Shows hour.clock latency) where
  id := by
    rintro rig _ ⟨-, store, -, rfl⟩
    exact store.id_table handle.deployment
  answer call hshows hcall hlegible := ⟨drawn, hshows.answer hour drawn hcall hlegible⟩
  delete := by
    rintro rig _ ⟨hlatency, store, hbacks, rfl⟩
    have hanswers := hbacks.answers_own drawn (.delete handle.deployment) rfl fun _ => trivial
    refine ⟨hanswers.value, hanswers.latency.trans hlatency, _, hanswers.backs, ?_⟩
    rw [Store.answer, Store.table, Store.find?_remove, if_pos rfl, Option.getD_none]
  tell := by
    intro rig _ event hshows
    obtain ⟨queues, htell⟩ := tell_eq queue event rig
    exact htell ▸ hshows.queues queues
  legible hfiled _ _ hshows := hshows.legible hfiled

end Handle

end Muster
