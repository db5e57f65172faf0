import Muster.Proofs.Registry.Job
import Muster.Proofs.Registry.Refinement

-- A registry put up on a table, with settings that need not fit the table. Whatever it is asked for, the
-- table goes on to stand behind it.
namespace Muster

namespace Handle

-- The store behind the handle has the table, and a deployment that is named can be deleted there.
structure Stands (handle : Handle) (clock : Clock) (named : String) (rig : Rig) (table : Deployment) : Prop where
  store : ∃ store, handle.Backs clock rig store ∧ store.table handle.deployment = table
  takes : handle.Takes rig named

theorem hosts (handle : Handle) (hour : Hour) (drawn : UInt64) (queue : Option Nat) (named : String) :
    Surroundings.Hosts ⟨handle.perform hour drawn, Rig.tell queue, hour.clock, hour.now, .never⟩ named
      handle.deployment handle.Filed (handle.Stands hour.clock named) where
  id := by
    rintro rig table ⟨⟨store, hbacks, htable⟩, -⟩
    exact (handle.serves hour (handle.latency rig) drawn queue).id ⟨rfl, store, hbacks, htable⟩
  answer := by
    rintro rig table call ⟨⟨store, hbacks, htable⟩, htakes⟩ hcall hlegible
    obtain ⟨drawn', hvalue, hshows⟩ :=
      (handle.serves hour (handle.latency rig) drawn queue).answer call ⟨rfl, store, hbacks, htable⟩ hcall hlegible
    have hanswers := hbacks.answers_own drawn call (FileTable.target_of_ne_delete hcall _) hlegible
    exact ⟨drawn', hvalue, hshows.table, hanswers.takes _ htakes⟩
  delete := by
    rintro rig table ⟨⟨store, hbacks, htable⟩, htakes⟩
    obtain ⟨hvalue, hshows⟩ :=
      (handle.serves hour (handle.latency rig) drawn queue).delete ⟨rfl, store, hbacks, htable⟩
    have hanswers := hbacks.answers_own drawn (.delete handle.deployment) rfl fun _ => trivial
    exact ⟨hvalue, hshows.table, hanswers.takes _ htakes⟩
  tell := by
    rintro rig table event ⟨⟨store, hbacks, htable⟩, htakes⟩
    obtain ⟨queues, htell⟩ := tell_eq queue event rig
    rw [htell]
    exact ⟨⟨store, (backs_queues queues).mpr hbacks, htable⟩, (takes_queues queues).mpr htakes⟩
  legible hfiled rig table := by
    rintro ⟨⟨store, hbacks, rfl⟩, -⟩
    exact (hbacks.legible hfiled).table handle.deployment
  other := by
    rintro hne rig table ⟨⟨store, hbacks, rfl⟩, htakes⟩
    have hanswers := hbacks.answers drawn (.delete named) htakes fun _ => trivial
    refine ⟨hanswers.value, ⟨_, hanswers.backs, ?_⟩, hanswers.takes _ htakes⟩
    exact Store.table_remove_of_ne store hne

end Handle

-- A registry as it is put up: on a way to a table, with a queue for events if it has one.
structure Office where
  config : TableConfig
  handle : Handle
  queue : Option Nat

-- When a registry is asked, and what a new table would draw then.
structure Occasion where
  now : Instant
  drawn : UInt64

namespace Office

-- Calls go to the table through the registry's own deadline.
def way (office : Office) : Handle := .deadline office.handle office.config.timeout

def carryOut {α : Type} (office : Office) (clock : Clock) (occasion : Occasion)
    (plan : Registry → Plan (Except RegistryError α)) : Work Rig (Except RegistryError α) :=
  office.way.carryOut ⟨clock, occasion.now⟩ occasion.drawn office.queue (plan (.ofConfig office.config))

-- Jobs one after the other: the replies, and the rig after them.
def run (office : Office) (clock : Clock) : List (Occasion × Job) → Rig → List Job.Reply × Rig
  | [], rig => ([], rig)
  | (occasion, job) :: rest, rig =>
    let course := office.carryOut clock occasion job.plan rig
    let (replies, left) := office.run clock rest course.state
    (⟨job, course.value⟩ :: replies, left)

-- The table that the registry reads and writes. It deletes the deployment that its settings name.
def Stands (office : Office) (clock : Clock) : Rig → Deployment → Prop :=
  office.way.Stands clock office.config.deployment

variable {office : Office} {clock : Clock} {rig : Rig} {table : Deployment} {roll? : Option Roll} {α : Type}

theorem carryOut_yields (occasion : Occasion) (plan : Registry → Plan (Except RegistryError α))
    {result : Except RegistryError α → Rig → Prop}
    (h : ∀ {around : Surroundings Rig}, around.now = occasion.now →
      around.Hosts office.config.deployment office.handle.deployment office.handle.Filed (office.Stands clock) →
      (plan (.ofConfig office.config)).Yields around rig result) :
    result (office.carryOut clock occasion plan rig).value (office.carryOut clock occasion plan rig).state :=
  h rfl (office.way.hosts ⟨clock, occasion.now⟩ occasion.drawn office.queue office.config.deployment)

theorem value_readAll (hstands : office.Stands clock rig table) (occasion : Occasion) :
    (office.carryOut clock occasion Registry.readAll rig).value = (Registry.ofConfig office.config).listing table :=
  (carryOut_yields occasion Registry.readAll fun _ hhosts => Registry.listing_yields hhosts.toServes hstands _).1

theorem value_read (hstands : office.Stands clock rig table) (occasion : Occasion) (asked key : String) :
    (office.carryOut clock occasion (fun registry => registry.read asked key) rig).value =
      (Registry.ofConfig office.config).finding asked key table :=
  (carryOut_yields occasion (fun registry => registry.read asked key) fun _ hhosts =>
    Registry.finding_yields hhosts.toServes hstands _ asked key).1

-- What is brought with the jobs, and what the clock shows, comes back from a text.
def Legible (jobs : List (Occasion × Job)) : Prop := ∀ job ∈ jobs, job.1.now.Legible ∧ job.2.Legible

instance (jobs : List (Occasion × Job)) : Decidable (Legible jobs) := inferInstanceAs (Decidable (∀ job ∈ jobs, _))

theorem Legible.cons {occasion : Occasion} {job : Job} {rest : List (Occasion × Job)}
    (h : Legible ((occasion, job) :: rest)) : (occasion.now.Legible ∧ job.Legible) ∧ Legible rest :=
  List.forall_mem_cons.mp h

theorem run_stands (hstands : ∃ table, office.Stands clock rig table) (jobs : List (Occasion × Job))
    (hlegible : office.handle.Filed → Legible jobs) :
    ∃ table, office.Stands clock (office.run clock jobs rig).2 table := by
  induction jobs generalizing rig with
  | nil => exact hstands
  | cons head rest ih =>
    obtain ⟨occasion, job⟩ := head
    have hhead := fun hfiled => (hlegible hfiled).cons.1
    exact ih (carryOut_yields occasion job.plan fun hnow hhosts => job.keeps_table hhosts _
      (fun hfiled => (hhead hfiled).2) (fun hfiled => hnow ▸ (hhead hfiled).1) hstands)
      fun hfiled => (hlegible hfiled).cons.2

-- What jobs make of the roll, one after the other.
def leaves (office : Office) (roll? : Option Roll) (jobs : List (Occasion × Job)) : Option Roll :=
  jobs.foldl (fun roll? job => job.2.leaves office.config.deployment office.handle.deployment roll?) roll?

theorem run_held (hheld : Updater.Held (office.Stands clock) roll? rig) (jobs : List (Occasion × Job))
    (hlegible : office.handle.Filed → Legible jobs) :
    Updater.Held (office.Stands clock) (office.leaves roll? jobs) (office.run clock jobs rig).2 := by
  induction jobs generalizing rig roll? with
  | nil => exact hheld
  | cons head rest ih =>
    obtain ⟨occasion, job⟩ := head
    have hhead := fun hfiled => (hlegible hfiled).cons.1
    exact ih (carryOut_yields occasion job.plan fun hnow hhosts => job.yields hhosts hheld _
      (fun hfiled => (hhead hfiled).2) fun hfiled => hnow ▸ (hhead hfiled).1)
      fun hfiled => (hlegible hfiled).cons.2

-- A registry of the right deployment on a new table, in a store that takes its time for every call.
def orders : Office where
  config := ⟨"orders", "", .ofSeconds 1, .standard, by decide, by decide, by decide⟩
  handle := .memory 0 "orders"
  queue := none

def slow : Rig := { Rig.empty with stores := [{ Store.empty with latency := .ofMillis 300 }] }

theorem held_orders : Updater.Held (orders.Stands .millis) none slow :=
  ⟨_, ⟨⟨_, ⟨⟨rfl, rfl⟩, by decide⟩, rfl⟩, trivial⟩, rfl, rfl⟩

-- The table is set up, and a silo signs on.
def signOn : List (Occasion × Job) :=
  [(⟨.epoch, 7⟩, .errand .createVersion),
    (⟨.epoch, 8⟩, .errand (.register (.fresh "orders" (.onLoopback 1 10) "node" .epoch)))]

end Office

end Muster
