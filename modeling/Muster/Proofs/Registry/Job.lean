import Muster.Proofs.Registry.Errand
import Muster.Proofs.Registry.Listing
import Muster.Proofs.Update.Conduct

-- All that a registry can be asked for, and what it comes to on the table and on the roll.
namespace Muster

-- What a registry is asked while the roll stays as it is.
inductive Inquiry where
  | gateways
  | primary
  | read (deployment rowKey : String)
  | readAll

namespace Inquiry

abbrev Result : Inquiry → Type
  | gateways => List Net.Endpoint
  | primary => Option Net.Endpoint
  | read _ _ => Option (Record × Etag)
  | readAll => List (Record × Etag)

def plan (registry : Registry) : (inquiry : Inquiry) → Plan (Except RegistryError inquiry.Result)
  | gateways => registry.gateways
  | primary => registry.primary
  | read deployment rowKey => registry.read deployment rowKey
  | readAll => registry.readAll

end Inquiry

-- All that a registry can be asked for.
inductive Job where
  | errand (errand : Errand)
  | inquiry (inquiry : Inquiry)

namespace Job

abbrev Result : Job → Type
  | errand inner => inner.Result
  | inquiry inner => inner.Result

def plan (registry : Registry) : (job : Job) → Plan (Except RegistryError job.Result)
  | errand inner => inner.plan registry
  | inquiry inner => inner.plan registry

-- What becomes of the roll.
def leaves (own deployment : String) (roll? : Option Roll) : Job → Option Roll
  | errand inner => (inner.across own deployment roll?).2
  | inquiry _ => roll?

structure Reply where
  job : Job
  result : Except RegistryError job.Result

-- A silo has been registered.
def Reply.registers : Reply → Bool
  | ⟨errand (.register _), result⟩ => result.isOk
  | _ => false

end Job

-- What is brought with a job comes back from a text.
def Job.Legible : Job → Prop
  | errand inner => inner.Legible
  | inquiry _ => True

instance : (job : Job) → Decidable job.Legible
  | .errand inner => inferInstanceAs (Decidable inner.Legible)
  | .inquiry _ => instDecidableTrue

section
open Plan Updater Registry

variable {σ : Type} {around : Surroundings σ} {own deployment : String} {filed : Prop} {holds : σ → Deployment → Prop}
  {state : σ}

theorem Inquiry.yields {table : Deployment} (hserves : around.Serves deployment filed holds)
    (hholds : holds state table) (registry : Registry) (inquiry : Inquiry) :
    (inquiry.plan registry).Yields around state fun _ state' => holds state' table := by
  cases inquiry with
  | gateways => exact (readThen_yields hserves hholds .readAll nofun trivial (fun _ => rfl) _).2
  | primary => exact (readThen_yields hserves hholds .readAll nofun trivial (fun _ => rfl) _).2
  | read asked key => exact (finding_yields hserves hholds registry asked key).2
  | readAll => exact (listing_yields hserves hholds registry).2

-- A plan that keeps to its task leaves a table where it finds one, whatever is in it.
theorem Updater.Task.keeps_table (hserves : around.Serves deployment filed holds) (hnow : filed → around.now.Legible)
    {task : Task} {α : Type} {plan : Plan α} {ends : Stage → α → Prop} {stage : Stage}
    (hplan : plan.Keeps task.conduct ends stage) (hlegible : filed → plan.Legible)
    (hstate : ∃ table, holds state table) :
    plan.Yields around state fun _ state' => ∃ table, holds state' table := by
  obtain ⟨table, hholds⟩ := hstate
  induction plan generalizing stage state table with
  | done value => exact ⟨table, hholds⟩
  | ask call next ih =>
    have hcall : ∀ other, call ≠ .delete other := by
      rintro other rfl
      cases hplan.1
    refine yields_call hserves hholds call hcall (fun hfiled => (hlegible hfiled).1) fun drawn state' hholds' => ?_
    refine ih _ (hplan.2 _) (fun hfiled => (hlegible hfiled).2 _ ?_) _ hholds'
    exact ((hserves.legible hfiled hholds).answer drawn (hlegible hfiled).1).2
  | wait delay next ih => exact ih (show next.Keeps task.conduct ends stage from hplan) hlegible table hholds
  | chance next ih =>
    exact ih around.chance (hplan around.chance) (fun hfiled => hlegible hfiled around.chance) table hholds
  | clock next ih =>
    exact ih around.now (hplan around.now) (fun hfiled => hlegible hfiled around.now (hnow hfiled)) table hholds
  | publish event next ih =>
    refine yields_publish.mpr ?_
    exact ih (show next.Keeps task.conduct ends stage from hplan) hlegible table (hserves.tell event hholds)

theorem Registry.register_keeps_table (hserves : around.Serves deployment filed holds)
    (hnow : filed → around.now.Legible) (registry : Registry) (record : Record) (hlegible : filed → record.Legible)
    (hstate : ∃ table, holds state table) :
    (registry.register record).Yields around state fun _ state' => ∃ table, holds state' table := by
  unfold Registry.register
  rw [show registry = ⟨registry.deployment, registry.policy⟩ from rfl, newcomer_eq]
  cases haccept : Errand.accept registry.deployment record Record.entry with
  | error error => exact hstate
  | ok entry =>
    have hentry : filed → (entry.withStatus .created).Legible := fun hfiled =>
      (Record.legible_of_entry (Errand.read_of_accept haccept) (hlegible hfiled)).withStatus .created
    have hinsert := Task.keeps_table hserves hnow (keeps_insert registry.policy _)
      (fun hfiled => legible_insert (hentry hfiled) registry.policy) hstate
    exact hinsert.bind fun _ _ htable => htable

theorem Registry.moveTo_keeps_table (hserves : around.Serves deployment filed holds) (hnow : filed → around.now.Legible)
    (registry : Registry) (record : Record) (status : Status) (hstate : ∃ table, holds state table) :
    (registry.moveTo record status).Yields around state fun _ state' => ∃ table, holds state' table := by
  unfold Registry.moveTo
  cases registry.siloOf record with
  | error error => exact hstate
  | ok silo =>
    have hmove := Task.keeps_table hserves hnow (keeps_updateStatus registry.policy silo status)
      (fun _ => legible_updateStatus registry.policy silo status) hstate
    exact hmove.bind fun _ _ htable => htable

-- Whatever the table has in it, a registry leaves a table.
theorem Errand.keeps_table (hhosts : around.Hosts own deployment filed holds) (policy : Policy) (errand : Errand)
    (hlegible : filed → errand.Legible) (hnow : filed → around.now.Legible) (hstate : ∃ table, holds state table) :
    (errand.plan ⟨own, policy⟩).Yields around state fun _ state' => ∃ table, holds state' table := by
  have hserves := hhosts.toServes
  cases errand with
  | createVersion =>
    obtain ⟨table, hholds⟩ := hstate
    obtain ⟨-, drawn, hholds'⟩ := createVersion_yields hserves hholds ⟨own, policy⟩
    exact ⟨_, hholds'⟩
  | register record => exact register_keeps_table hserves hnow _ record hlegible hstate
  | activate record => exact moveTo_keeps_table hserves hnow _ record .active hstate
  | unregister record => exact moveTo_keeps_table hserves hnow _ record .dead hstate
  | delete =>
    obtain ⟨table, hholds⟩ := hstate
    exact ⟨_, (delete_yields hhosts hholds policy).2⟩

theorem Job.keeps_table (hhosts : around.Hosts own deployment filed holds) (policy : Policy) (job : Job)
    (hlegible : filed → job.Legible) (hnow : filed → around.now.Legible) (hstate : ∃ table, holds state table) :
    (job.plan ⟨own, policy⟩).Yields around state fun _ state' => ∃ table, holds state' table := by
  cases job with
  | errand errand => exact errand.keeps_table hhosts policy hlegible hnow hstate
  | inquiry inquiry =>
    obtain ⟨table, hholds⟩ := hstate
    exact ⟨table, inquiry.yields hhosts.toServes hholds _⟩

-- If the table keeps a roll, then it keeps what the job makes of the roll.
theorem Job.yields {roll? : Option Roll} (hhosts : around.Hosts own deployment filed holds)
    (hheld : Held holds roll? state) (policy : Policy) (job : Job) (hlegible : filed → job.Legible)
    (hnow : filed → around.now.Legible) : (job.plan ⟨own, policy⟩).Yields around state
      fun _ state' => Held holds (job.leaves own deployment roll?) state' := by
  cases job with
  | errand errand => exact (errand.yields hhosts hheld policy hlegible hnow).2
  | inquiry inquiry =>
    obtain ⟨table, hholds, hkeeps⟩ := hheld
    exact ⟨table, inquiry.yields hhosts.toServes hholds _, hkeeps⟩

end

end Muster
