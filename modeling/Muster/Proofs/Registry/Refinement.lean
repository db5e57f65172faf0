import Muster.Proofs.Registry.Errand
import Muster.Proofs.Registry.Lookup
import Muster.Proofs.Rig.Handle

-- Registries of a deployment, kept in memory or in files, serve its roll.
namespace Muster

namespace Registry

open Updater (Held)

-- Somebody goes to a registry of their own, with a policy, a limit for each call and a queue for events.
structure Visit where
  policy : Policy
  limit : Span
  queue : Option Nat
  now : Instant
  drawn : UInt64

-- The registry works for the deployment of the table that it has been given.
def Visit.carryOut {α : Type} (visit : Visit) (clock : Clock) (handle : Handle)
    (plan : Registry → Plan (Except RegistryError α)) : Work Rig (Except RegistryError α) :=
  (Handle.deadline handle visit.limit).carryOut ⟨clock, visit.now⟩ visit.drawn visit.queue
    (plan ⟨handle.deployment, visit.policy⟩)

-- Visits one after the other, each with an errand: the replies, and the rig after them.
def allOnRig (clock : Clock) (handle : Handle) : List (Visit × Errand) → Rig → List Errand.Reply × Rig
  | [], rig => ([], rig)
  | (visit, errand) :: rest, rig =>
    let course := visit.carryOut clock handle errand.plan rig
    let (replies, left) := allOnRig clock handle rest course.state
    (⟨errand, course.value⟩ :: replies, left)

variable {clock : Clock} {handle : Handle} {latency : Span} {rig : Rig} {roll? : Option Roll}

-- Whoever is given enough time finds the roll, and leaves it for the next visit.
theorem Visit.yields {α : Type} (visit : Visit) (plan : Registry → Plan (Except RegistryError α))
    (result : Except RegistryError α → Prop) (left? : Option Roll)
    (hlimit : clock.sleepTicks latency ≤ clock.ticks visit.limit)
    (hplan : ∀ {around : Surroundings Rig} {holds : Rig → Deployment → Prop}, around.now = visit.now →
      around.Serves handle.deployment handle.Filed holds → Held holds roll? rig →
      (plan ⟨handle.deployment, visit.policy⟩).Yields around rig fun value state =>
        result value ∧ Held holds left? state)
    (hheld : Held (handle.Shows clock latency) roll? rig) :
    result (visit.carryOut clock handle plan rig).value ∧
      Held (handle.Shows clock latency) left? (visit.carryOut clock handle plan rig).state := by
  have hwithin : Held ((Handle.deadline handle visit.limit).Shows clock latency) roll? rig := by
    obtain ⟨table, ⟨hlatency, store, hbacks, htable⟩, hkeeps⟩ := hheld
    exact ⟨table, ⟨hlatency, store, ⟨hbacks, hlatency ▸ hlimit⟩, htable⟩, hkeeps⟩
  have hserves := Handle.serves (.deadline handle visit.limit) ⟨clock, visit.now⟩ latency visit.drawn visit.queue
  obtain ⟨hresult, table, ⟨hlatency, store, ⟨hbacks, -⟩, htable⟩, hkeeps⟩ := hplan rfl hserves hwithin
  exact ⟨hresult, table, ⟨hlatency, store, hbacks, htable⟩, hkeeps⟩

theorem allOnRig_eq {visits : List (Visit × Errand)}
    (hlimits : ∀ visit ∈ visits, clock.sleepTicks latency ≤ clock.ticks visit.1.limit)
    (hlegible : handle.Filed → ∀ visit ∈ visits, visit.1.now.Legible ∧ visit.2.Legible)
    (hheld : Held (handle.Shows clock latency) roll? rig) :
    (allOnRig clock handle visits rig).1 = (Errand.allOnRoll handle.deployment (visits.map Prod.snd) roll?).1 ∧
      Held (handle.Shows clock latency) (Errand.allOnRoll handle.deployment (visits.map Prod.snd) roll?).2
        (allOnRig clock handle visits rig).2 := by
  induction visits generalizing rig roll? with
  | nil => exact ⟨rfl, hheld⟩
  | cons head rest ih =>
    obtain ⟨visit, errand⟩ := head
    obtain ⟨hlimit, hrest⟩ := List.forall_mem_cons.mp hlimits
    have hhead : handle.Filed → visit.now.Legible ∧ errand.Legible :=
      fun hfiled => hlegible hfiled (visit, errand) List.mem_cons_self
    have htail := fun hfiled => (List.forall_mem_cons.mp (hlegible hfiled)).2
    obtain ⟨hvalue, hstate⟩ := visit.yields errand.plan (· = (errand.onRoll handle.deployment roll?).1)
      (errand.onRoll handle.deployment roll?).2 hlimit (fun hnow hserves hheld => errand.across_self _ _ ▸
        Errand.yields hserves.hosts hheld visit.policy errand (fun hfiled => (hhead hfiled).2)
          fun hfiled => hnow ▸ (hhead hfiled).1) hheld
    obtain ⟨hreplies, hleft⟩ := ih hrest htail hstate
    simp only [allOnRig, Errand.allOnRoll, List.map_cons]
    exact ⟨by rw [hvalue, hreplies], hleft⟩

-- However many registries are visited, in whatever order: they reply as the roll does, and the table is
-- what the roll is, apart from tokens and alive times. After that whoever looks for gateways or for the
-- primary finds those on the roll. Times that are to be kept in files have to come back from them.
theorem visits_refine_roll (clock : Clock) (handle : Handle) (rig : Rig) (store : Store) (roll? : Option Roll)
    (hbacks : handle.Backs clock rig store) (hkeeps : (store.table handle.deployment).Keeps roll?)
    (visits : List (Visit × Errand))
    (hlimits : ∀ visit ∈ visits, clock.sleepTicks (handle.latency rig) ≤ clock.ticks visit.1.limit)
    (hlegible : handle.Filed → ∀ visit ∈ visits, visit.1.now.Legible ∧ visit.2.Legible) :
    let (replies, left) := allOnRig clock handle visits rig
    let (replies', left?) := Errand.allOnRoll handle.deployment (visits.map Prod.snd) roll?
    replies = replies' ∧
    (∃ store', handle.Backs clock left store' ∧ (store'.table handle.deployment).Keeps left?) ∧
    ∀ visit : Visit, clock.sleepTicks (handle.latency rig) ≤ clock.ticks visit.limit →
      Finds handle.deployment Roll.Gateways left? (visit.carryOut clock handle gateways left).value ∧
      Finds handle.deployment Roll.Primary left? (visit.carryOut clock handle primary left).value := by
  have hfirst : Held (handle.Shows clock (handle.latency rig)) roll? rig := ⟨_, ⟨rfl, store, hbacks, rfl⟩, hkeeps⟩
  obtain ⟨hreplies, hheld⟩ := allOnRig_eq hlimits hlegible hfirst
  refine ⟨hreplies, ?_, fun visit hlimit => ⟨?_, ?_⟩⟩
  · obtain ⟨_, ⟨-, store', hbacks', rfl⟩, hkeeps'⟩ := hheld
    exact ⟨store', hbacks', hkeeps'⟩
  · exact (visit.yields gateways _ _ hlimit (fun _ hserves hheld => gateways_yields hserves hheld _) hheld).1
  · exact (visit.yields primary _ _ hlimit (fun _ hserves hheld => primary_yields hserves hheld _) hheld).1

-- Two registries take turns. A silo signs on twice, leaves, and cannot come back. It can after everything
-- has been deleted.
def lifecycle : List (Visit × Errand) :=
  let record := (Record.fresh "orders" (.onLoopback 11111 1) "node" .epoch).withGatewayPort 30000
  let here : Visit := ⟨.standard, .ofSeconds 1, none, .epoch, 7⟩
  let there : Visit := ⟨.immediate 1 (by decide), .ofSeconds 2, none, .epoch, 8⟩
  [(here, .register record), (here, .createVersion), (here, .register record), (there, .register record),
    (there, .activate record), (here, .unregister record), (there, .activate record), (here, .unregister record),
    (there, .delete), (here, .createVersion), (here, .register record), (there, .activate record)]

theorem visits_refine_roll_lifecycle :
    let rig : Rig := { Rig.empty with stores := [{ Store.empty with latency := .ofMillis 300 }] }
    let store : Store := { Store.empty with latency := .ofMillis 300 }
    let handle : Handle := .memory 0 "orders"
    handle.Backs .millis rig store ∧ (store.table handle.deployment).Keeps none ∧
    (∀ visit ∈ lifecycle, Clock.millis.sleepTicks (handle.latency rig) ≤ Clock.millis.ticks visit.1.limit) ∧
    (handle.Filed → ∀ visit ∈ lifecycle, visit.1.now.Legible ∧ visit.2.Legible) ∧
    (allOnRig .millis handle lifecycle rig).1 = (Errand.allOnRoll "orders" (lifecycle.map Prod.snd) none).1 ∧
    (Errand.allOnRoll "orders" (lifecycle.map Prod.snd) none).1.map (fun reply => reply.result.isOk) =
      [false, true, true, false, true, true, false, true, true, true, true, true] := by
  intro rig store handle
  have hbacks : handle.Backs .millis rig store := ⟨rfl, rfl⟩
  have hkeeps : (store.table handle.deployment).Keeps none := ⟨rfl, rfl⟩
  have hlimits : ∀ visit ∈ lifecycle,
      Clock.millis.sleepTicks (handle.latency rig) ≤ Clock.millis.ticks visit.1.limit := by
    decide +kernel
  have hmemory : handle.Filed → ∀ visit ∈ lifecycle, visit.1.now.Legible ∧ visit.2.Legible := False.elim
  exact ⟨hbacks, hkeeps, hlimits, hmemory,
    (visits_refine_roll .millis handle rig store none hbacks hkeeps lifecycle hlimits hmemory).1, by decide +kernel⟩

end Registry

end Muster
