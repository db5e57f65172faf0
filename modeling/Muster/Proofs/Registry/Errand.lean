import Muster.Proofs.Registry.Columns
import Muster.Proofs.Registry.Round

-- What registries are asked to do comes to what is done to the roll.
namespace Muster

-- What a registry is asked to do to the roll.
inductive Errand where
  | createVersion
  | register (record : Record)
  | activate (record : Record)
  | unregister (record : Record)
  | delete

namespace Errand

abbrev Result : Errand → Type
  | createVersion => Bool
  | register _ => Unit
  | activate _ => Unit
  | unregister _ => Unit
  | delete => Unit

def plan (registry : Registry) : (errand : Errand) → Plan (Except RegistryError errand.Result)
  | createVersion => registry.createVersion
  | register record => registry.register record
  | activate record => registry.activate record
  | unregister record => registry.unregister record
  | delete => registry.delete

-- A record of another deployment is turned away, and so is one that cannot be read.
def accept {α : Type} (deployment : String) (record : Record) (read : Record → Except Record.Error α) :
    Except RegistryError α :=
  if record.deployment = deployment then (read record).mapError .record
  else .error (.deploymentMismatch deployment record.deployment)

-- What becomes of the roll, for somebody who has been accepted.
def change {α : Type} (accepted : Except RegistryError α)
    (onRoll : α → Option Roll → Except UpdateError Unit × Option Roll) (roll? : Option Roll) :
    Except RegistryError Unit × Option Roll :=
  match accepted with
  | .error error => (.error error, roll?)
  | .ok value => ((onRoll value roll?).1.mapError .update, (onRoll value roll?).2)

def onRoll (deployment : String) : (errand : Errand) → Option Roll → Except RegistryError errand.Result × Option Roll
  | createVersion, roll? => (.ok true, some (roll?.getD .start))
  | register record, roll? => change (accept deployment record Record.entry) (Roll.enter deployment) roll?
  | activate record, roll? =>
    change (accept deployment record Record.silo) (fun silo => Roll.shift deployment silo Phase.activated) roll?
  | unregister record, roll? =>
    change (accept deployment record Record.silo) (fun silo => Roll.shift deployment silo Phase.ended) roll?
  | delete, _ => (.ok (), none)

-- The registry has been set up for a deployment of its own, which need not be that of the table.
def across (own deployment : String) :
    (errand : Errand) → Option Roll → Except RegistryError errand.Result × Option Roll
  | createVersion, roll? => (.ok true, some (roll?.getD .start))
  | register record, roll? => change (accept own record Record.entry) (Roll.enter deployment) roll?
  | activate record, roll? =>
    change (accept own record Record.silo) (fun silo => Roll.shift deployment silo Phase.activated) roll?
  | unregister record, roll? =>
    change (accept own record Record.silo) (fun silo => Roll.shift deployment silo Phase.ended) roll?
  | delete, roll? => (.ok (), if own = deployment then none else roll?)

theorem across_self (deployment : String) (errand : Errand) (roll? : Option Roll) :
    errand.across deployment deployment roll? = errand.onRoll deployment roll? := by
  cases errand with
  | delete => simp only [across, onRoll, if_true]
  | _ => rfl

structure Reply where
  errand : Errand
  result : Except RegistryError errand.Result

-- Errands to one roll, one after the other: the replies, and what becomes of the roll.
def allOnRoll (deployment : String) : List Errand → Option Roll → List Reply × Option Roll
  | [], roll? => ([], roll?)
  | errand :: rest, roll? =>
    let (result, roll?) := errand.onRoll deployment roll?
    let (replies, left) := allOnRoll deployment rest roll?
    (⟨errand, result⟩ :: replies, left)

end Errand

theorem Errand.read_of_accept {α : Type} {deployment : String} {record : Record}
    {read : Record → Except Record.Error α} {value : α} (h : accept deployment record read = .ok value) :
    read record = .ok value := by
  unfold accept at h
  split at h
  · cases hread : read record with
    | error error =>
      rw [hread] at h
      cases h
    | ok found =>
      rw [hread] at h
      rw [Except.ok.inj h]
  · cases h

namespace Registry

open Plan Updater

variable {σ : Type} {around : Surroundings σ} {own deployment : String} {filed : Prop} {holds : σ → Deployment → Prop}
  {state : σ} {roll? : Option Roll}

theorem newcomer_eq (deployment : String) (policy : Policy) (record : Record) :
    newcomer ⟨deployment, policy⟩ record =
      (Errand.accept deployment record Record.entry).map fun entry => entry.withStatus .created := by
  by_cases h : record.deployment = deployment
  · rw [newcomer, check, if_pos h, Errand.accept, if_pos h]
    cases record.entry <;> rfl
  · rw [newcomer, check, if_neg h, Errand.accept, if_neg h]
    rfl

theorem siloOf_eq (deployment : String) (policy : Policy) (record : Record) :
    siloOf ⟨deployment, policy⟩ record = Errand.accept deployment record Record.silo := by
  by_cases h : record.deployment = deployment
  · rw [siloOf, check, if_pos h, Errand.accept, if_pos h]
    rfl
  · rw [siloOf, check, if_neg h, Errand.accept, if_neg h]
    rfl

-- An errand comes to what it comes to on the roll.
def Comes (holds : σ → Deployment → Prop) {α : Type} (ends : Except RegistryError α × Option Roll)
    (result : Except RegistryError α) (state : σ) : Prop := result = ends.1 ∧ Held holds ends.2 state

-- A record that is accepted brings its entry to the table.
theorem register_admits (hserves : around.Serves deployment filed holds) (hheld : Held holds roll? state)
    (policy : Policy) {record : Record} (hlegible : filed → record.Legible) {entry : Entry}
    (haccept : Errand.accept own record Record.entry = .ok entry) :
    (register ⟨own, policy⟩ record).Yields around state fun result state' =>
      result = (Roll.enter deployment entry roll?).1.mapError .update ∧
        ∃ table, holds state' table ∧ Admitted deployment entry roll? table := by
  have hread := Errand.read_of_accept haccept
  have hbare : entry.silo.Bare := Record.bare_of_silo (Record.entry_cases hread).1
  unfold register
  rw [newcomer_eq, haccept]
  refine (insert_yields hserves hheld hbare (fun hfiled => Record.legible_of_entry hread (hlegible hfiled))
    policy).bind ?_
  rintro _ state' ⟨rfl, hadmitted⟩
  exact ⟨rfl, hadmitted⟩

theorem register_yields (hserves : around.Serves deployment filed holds) (hheld : Held holds roll? state)
    (policy : Policy) (record : Record) (hlegible : filed → record.Legible) :
    (register ⟨own, policy⟩ record).Yields around state
      (Comes holds (Errand.change (Errand.accept own record Record.entry) (Roll.enter deployment) roll?)) := by
  cases haccept : Errand.accept own record Record.entry with
  | error error =>
    unfold register
    rw [newcomer_eq, haccept]
    exact ⟨rfl, hheld⟩
  | ok entry =>
    obtain ⟨hresult, table, hholds, hadmitted⟩ := register_admits hserves hheld policy hlegible haccept
    exact ⟨hresult, table, hholds, hadmitted.keeps⟩

theorem moveTo_yields (hserves : around.Serves deployment filed holds) (hheld : Held holds roll? state)
    (hnow : filed → around.now.Legible) (policy : Policy) (record : Record) (target : Phase) :
    (Registry.moveTo ⟨own, policy⟩ record target.status).Yields around state
      (Comes holds (Errand.change (Errand.accept own record Record.silo)
        (fun silo => Roll.shift deployment silo target.toward) roll?)) := by
  unfold Registry.moveTo
  rw [siloOf_eq]
  cases haccept : Errand.accept own record Record.silo with
  | error error => exact ⟨rfl, hheld⟩
  | ok silo =>
    have hbare : silo.Bare := Record.bare_of_silo (Errand.read_of_accept haccept)
    refine (updateStatus_yields hserves hheld hbare hnow policy target).bind ?_
    rintro result state' ⟨hresult, hheld'⟩
    exact ⟨congrArg (Except.mapError RegistryError.update) hresult, hheld'⟩

theorem createVersion_yields {table : Deployment} (hserves : around.Serves deployment filed holds)
    (hholds : holds state table) (registry : Registry) :
    registry.createVersion.Yields around state fun result state' =>
      result = .ok true ∧ ∃ drawn, holds state' (table.establish drawn).2 :=
  yields_call hserves hholds (.establish true) nofun (fun _ => trivial) fun drawn _ hholds' => ⟨rfl, drawn, hholds'⟩

theorem delete_yields {table : Deployment} (hhosts : around.Hosts own deployment filed holds)
    (hholds : holds state table) (policy : Policy) : (delete ⟨own, policy⟩).Yields around state fun result state' =>
      result = .ok () ∧ holds state' (if own = deployment then .new deployment else table) := by
  refine Plan.yields_ask.mpr ?_
  by_cases hown : own = deployment
  · subst hown
    obtain ⟨hvalue, hholds'⟩ := hhosts.delete hholds
    rw [hvalue, if_pos rfl]
    exact ⟨rfl, hholds'⟩
  · obtain ⟨hvalue, hholds'⟩ := hhosts.other hown hholds
    rw [hvalue, if_neg hown]
    exact ⟨rfl, hholds'⟩

end Registry

-- What is brought with an errand comes back from a text.
def Errand.Legible : Errand → Prop
  | register record => record.Legible
  | _ => True

instance : (errand : Errand) → Decidable errand.Legible
  | .register record => inferInstanceAs (Decidable record.Legible)
  | .createVersion => instDecidableTrue
  | .activate _ => instDecidableTrue
  | .unregister _ => instDecidableTrue
  | .delete => instDecidableTrue

theorem Errand.yields {σ : Type} {around : Surroundings σ} {own deployment : String} {filed : Prop}
    {holds : σ → Deployment → Prop} {state : σ} {roll? : Option Roll} (hhosts : around.Hosts own deployment filed holds)
    (hheld : Updater.Held holds roll? state) (policy : Policy) (errand : Errand) (hlegible : filed → errand.Legible)
    (hnow : filed → around.now.Legible) :
    (errand.plan ⟨own, policy⟩).Yields around state (Registry.Comes holds (errand.across own deployment roll?)) := by
  have hserves := hhosts.toServes
  cases errand with
  | createVersion =>
    obtain ⟨table, hholds, hkeeps⟩ := hheld
    obtain ⟨hresult, drawn, hholds'⟩ := Registry.createVersion_yields hserves hholds ⟨own, policy⟩
    refine ⟨hresult, _, hholds', ?_⟩
    cases roll? with
    | none => exact Deployment.lists_establish hkeeps drawn
    | some roll =>
      obtain ⟨stamp, hversion, -⟩ := hkeeps.version
      rw [Deployment.establish, hversion]
      exact hkeeps
  | register record => exact Registry.register_yields hserves hheld policy record hlegible
  | activate record =>
    rw [across, Phase.activated_eq]
    exact Registry.moveTo_yields hserves hheld hnow policy record .active
  | unregister record =>
    rw [across, Phase.ended_eq]
    exact Registry.moveTo_yields hserves hheld hnow policy record .dead
  | delete =>
    obtain ⟨table, hholds, hkeeps⟩ := hheld
    obtain ⟨hresult, hholds'⟩ := Registry.delete_yields hhosts hholds policy
    refine ⟨hresult, _, hholds', ?_⟩
    rw [across]
    split
    · exact ⟨rfl, rfl⟩
    · exact hkeeps

end Muster
