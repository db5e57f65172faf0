import Muster.Proofs.Registry.Office

-- After everything has been deleted nobody is to be seen until somebody registers again. But what is deleted
-- is the deployment that the settings of the registry name.
namespace Muster

-- A deployment that has nobody on its roll, or has no roll at all.
def Roll.vacant : (isOpen : Bool) → Option Roll
  | true => some .start
  | false => none

-- Whether there is a roll after a job.
def Job.opens (isOpen : Bool) : Job → Bool
  | errand .createVersion => true
  | errand .delete => false
  | _ => isOpen

theorem Errand.across_vacant {deployment : String} {isOpen : Bool} {errand : Errand}
    (h : Job.Reply.registers ⟨.errand errand, (errand.across deployment deployment (Roll.vacant isOpen)).1⟩ = false) :
    (errand.across deployment deployment (Roll.vacant isOpen)).2 = Roll.vacant (Job.opens isOpen (.errand errand)) := by
  cases errand with
  | createVersion => cases isOpen <;> rfl
  | register record =>
    rw [across] at h ⊢
    cases haccept : accept deployment record Record.entry with
    | error error => rfl
    | ok entry =>
      cases isOpen with
      | false => rfl
      | true =>
        rw [haccept] at h
        cases h
  | activate record =>
    rw [across]
    cases accept deployment record Record.silo with
    | error error => rfl
    | ok silo => cases isOpen <;> rfl
  | unregister record =>
    rw [across]
    cases accept deployment record Record.silo with
    | error error => rfl
    | ok silo => cases isOpen <;> rfl
  | delete => exact if_pos rfl

-- Without a roll, and on an empty one, a table has no rows.
theorem Deployment.Keeps.values_eq_nil {table : Deployment} {isOpen : Bool} (h : table.Keeps (Roll.vacant isOpen)) :
    table.rows.values = [] := by
  cases isOpen with
  | false => rw [h.2]; rfl
  | true =>
    have hlists : table.Lists .start := h
    refine List.eq_nil_iff_forall_not_mem.mpr fun row hrow => ?_
    obtain ⟨member, hmember, -⟩ := hlists.member_of_row hrow
    cases hmember

namespace Registry

variable {registry : Registry} {table : Deployment} {asked key : String} {found : Record × Etag}

theorem exists_row_of_finding (h : registry.finding asked key table = .ok (some found)) :
    ∃ row, row ∈ table.rows.values := by
  unfold finding at h
  split at h
  · cases h
  · obtain ⟨silo, -, h⟩ := Record.exists_of_bind h
    obtain ⟨snapshot, hread, h⟩ := Record.exists_of_bind h
    obtain ⟨row, hrow, -⟩ := Option.map_eq_some_iff.mp (Except.ok.inj h)
    cases hsnapshot : table.readRow silo with
    | error fault =>
      rw [hsnapshot] at hread
      cases hread
    | ok other =>
      rw [hsnapshot] at hread
      obtain rfl := Except.ok.inj hread
      obtain ⟨stamp, -, rfl⟩ := Deployment.readRow_eq_ok hsnapshot
      obtain ⟨hget, -⟩ := Snapshot.rowFor?_of_toList hrow
      exact ⟨row, List.mem_map_of_mem (Rows.mem_toList_of_get? hget)⟩

end Registry

namespace Office

open Registry
open Updater (Held)

variable {office : Office} {clock : Clock} {rig : Rig} {isOpen : Bool} {α : Type}

-- Nobody is to be seen, whatever one asks for.
structure ShowsNobody (office : Office) (clock : Clock) (rig : Rig) (isOpen : Bool) : Prop where
  readAll : ∀ occasion, (office.carryOut clock occasion Registry.readAll rig).value =
    if isOpen then .ok [] else .error (.table (.notInitialized office.handle.deployment))
  gateways : ∀ occasion, (office.carryOut clock occasion Registry.gateways rig).value =
    if isOpen then .ok [] else .error (.table (.notInitialized office.handle.deployment))
  primary : ∀ occasion, (office.carryOut clock occasion Registry.primary rig).value =
    if isOpen then .ok none else .error (.table (.notInitialized office.handle.deployment))
  read : ∀ occasion asked key found,
    (office.carryOut clock occasion (fun registry => registry.read asked key) rig).value ≠ .ok (some found)

theorem value_scan (hheld : Held (office.Stands clock) (Roll.vacant isOpen) rig) {look : Snapshot → α} {nobody : α}
    (hlook : ∀ snapshot, snapshot.rows = [] → look snapshot = nobody) (occasion : Occasion) :
    (office.carryOut clock occasion (fun _ => readThen .readAll fun snapshot => .ok (look snapshot)) rig).value =
      if isOpen then .ok nobody else .error (.table (.notInitialized office.handle.deployment)) := by
  have hrows : ∀ (table : Deployment) (roll : Roll), table.Lists roll → ∀ stamp, roll = .start →
      look (.of table.rows.values stamp) = nobody := by
    rintro table _ hlists stamp rfl
    have hvacant : table.Keeps (Roll.vacant true) := hlists
    have hperm := Snapshot.perm_rows_of table.rows.values stamp
    rw [hvacant.values_eq_nil] at hperm ⊢
    exact hlook _ (List.perm_nil.mp hperm)
  have hfinds := (carryOut_yields occasion (fun _ => readThen .readAll fun snapshot => .ok (look snapshot))
    fun _ hhosts => readAll_yields hhosts.toServes hheld (fun roll value => roll = .start → value = nobody) hrows).1
  cases isOpen with
  | false => exact hfinds
  | true =>
    obtain ⟨value, hvalue, hnobody⟩ := hfinds
    rw [hvalue, hnobody rfl]
    rfl

theorem showsNobody (hheld : Held (office.Stands clock) (Roll.vacant isOpen) rig) :
    office.ShowsNobody clock rig isOpen where
  readAll := value_scan hheld fun snapshot hrows => by rw [hrows]; rfl
  gateways := value_scan hheld fun snapshot hrows => by simp [gatewaysOf, hrows, dropRepeated]
  primary := value_scan hheld fun snapshot hrows => by simp [primaryOf, hrows]
  read occasion asked key found := by
    obtain ⟨table, hstands, hkeeps⟩ := hheld
    intro hfound
    rw [value_read hstands] at hfound
    obtain ⟨row, hrow⟩ := exists_row_of_finding hfound
    rw [hkeeps.values_eq_nil] at hrow
    cases hrow

-- As long as nobody is registered the roll is vacant, whatever else is tried.
theorem run_vacant (hown : office.config.deployment = office.handle.deployment)
    (hheld : Held (office.Stands clock) (Roll.vacant isOpen) rig) {jobs : List (Occasion × Job)}
    (hlegible : office.handle.Filed → Legible jobs)
    (hnone : ∀ reply ∈ (office.run clock jobs rig).1, reply.registers = false) :
    Held (office.Stands clock) (Roll.vacant (jobs.foldl (fun isOpen job => job.2.opens isOpen) isOpen))
      (office.run clock jobs rig).2 := by
  induction jobs generalizing rig isOpen with
  | nil => exact hheld
  | cons head rest ih =>
    obtain ⟨occasion, job⟩ := head
    obtain ⟨hhead, hrest⟩ := List.forall_mem_cons.mp hnone
    have hjob := fun hfiled => (hlegible hfiled).cons.1
    refine ih ?_ (fun hfiled => (hlegible hfiled).cons.2) hrest
    cases job with
    | inquiry inquiry =>
      exact carryOut_yields occasion inquiry.plan fun hnow hhosts => (Job.inquiry inquiry).yields hhosts hheld _
        (fun _ => trivial) fun hfiled => hnow ▸ (hjob hfiled).1
    | errand errand =>
      obtain ⟨hvalue, hheld'⟩ := carryOut_yields occasion errand.plan fun hnow hhosts => errand.yields hhosts hheld _
        (fun hfiled => (hjob hfiled).2) fun hfiled => hnow ▸ (hjob hfiled).1
      rw [hown] at hvalue hheld'
      have hsilent : Job.Reply.registers ⟨.errand errand, (office.carryOut clock occasion errand.plan rig).value⟩ =
          false := hhead
      rw [hvalue] at hsilent
      rw [Errand.across_vacant hsilent] at hheld'
      exact hheld'

-- A registry that is set up for the deployment of its table leaves nobody behind, whatever was in the table
-- before, and nobody turns up until a silo is registered. One that is set up for another deployment deletes
-- that, and goes on to list what it listed before. Times that are to be kept in files have to come back from them.
theorem delete_empties_own_deployment (office : Office) (clock : Clock) (rig : Rig)
    (hstands : ∃ table, office.Stands clock rig table) (before later : List (Occasion × Job)) (occasion : Occasion)
    (hlegible : office.handle.Filed → Legible before ∧ Legible later) :
    let filled := (office.run clock before rig).2
    let course := office.carryOut clock occasion Registry.delete filled
    let after := office.run clock later course.state
    course.value = .ok () ∧
    (office.config.deployment = office.handle.deployment → (∀ reply ∈ after.1, reply.registers = false) →
      office.ShowsNobody clock after.2 (later.foldl (fun isOpen job => job.2.opens isOpen) false)) ∧
    (office.config.deployment ≠ office.handle.deployment → ∀ occasion',
      (office.carryOut clock occasion' Registry.readAll course.state).value =
        (office.carryOut clock occasion' Registry.readAll filled).value) := by
  obtain ⟨table, hfilled⟩ := run_stands hstands before fun hfiled => (hlegible hfiled).1
  obtain ⟨hvalue, hdeleted⟩ := carryOut_yields occasion Registry.delete fun _ hhosts =>
    delete_yields hhosts hfilled office.config.policy
  refine ⟨hvalue, fun hown hnone => ?_, fun hother occasion' => ?_⟩
  · rw [if_pos hown] at hdeleted
    have hheld : Held (office.Stands clock) (Roll.vacant false) _ := ⟨_, hdeleted, rfl, rfl⟩
    exact showsNobody (run_vacant hown hheld (fun hfiled => (hlegible hfiled).2) hnone)
  · rw [if_neg hother] at hdeleted
    rw [value_readAll hdeleted, value_readAll hfilled]

-- A registry on files. One silo signs on, everything is deleted, and the table is set up again.
def filed : Office where
  config := { orders.config with connection := "data" }
  handle := .files ⟨"data", "orders"⟩
  queue := none

def setUpAgain : List (Occasion × Job) := [(⟨.epoch, 9⟩, .errand .createVersion)]

theorem delete_empties_own_deployment_filed :
    let filled := (filed.run .millis signOn .empty).2
    let emptied := (filed.carryOut .millis ⟨.epoch, 9⟩ Registry.delete filled).state
    (∃ table, filed.Stands .millis .empty table) ∧
    (filed.handle.Filed → Legible signOn ∧ Legible setUpAgain) ∧
    (∀ reply ∈ (filed.run .millis setUpAgain emptied).1, reply.registers = false) ∧
    filed.ShowsNobody .millis (filed.run .millis setUpAgain emptied).2 true := by
  intro filled emptied
  have htakes : Files.empty.Takes "data" "orders" := by decide +kernel
  have hstands : ∃ table, filed.Stands .millis .empty table :=
    ⟨_, ⟨_, ⟨⟨mirrors_of_bare (Files.bare_empty "data") .zero, htakes⟩, by decide⟩, rfl⟩, htakes⟩
  have hlegible : filed.handle.Filed → Legible signOn ∧ Legible setUpAgain := fun _ => by decide +kernel
  have hnone : ∀ reply ∈ (filed.run .millis setUpAgain emptied).1, reply.registers = false := by
    simp [setUpAgain, run, Job.Reply.registers]
  obtain ⟨-, hempty, -⟩ :=
    delete_empties_own_deployment filed .millis .empty hstands signOn setUpAgain ⟨.epoch, 9⟩ hlegible
  exact ⟨hstands, hlegible, hnone, hempty rfl hnone⟩

-- The settings name a deployment, and the table has been made for another one.
def mistaken : Office := { orders with handle := .memory 0 "billing" }

-- The deletion is a success, and the silo is listed as before.
theorem mistaken_deployment_not_deleted :
    let filled := (mistaken.run .millis signOn slow).2
    let course := mistaken.carryOut .millis ⟨.epoch, 9⟩ Registry.delete filled
    let listed := (mistaken.carryOut .millis ⟨.epoch, 9⟩ Registry.readAll course.state).value
    course.value = .ok () ∧ listed.map (List.map fun found => found.1.rowKey) = .ok ["127.0.0.1-1-10"] := by
  decide +kernel

end Office

end Muster
