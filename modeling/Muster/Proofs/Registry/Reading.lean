import Muster.Proofs.Registry.Office

-- What has been registered is read back, and whoever asks for one record is told what the list of all says.
namespace Muster

namespace Roll

variable {deployment : String} {entry other : Entry} {roll? : Option Roll} {silo : Silo}

-- The silo of an entry is on the roll with that entry.
def Has (entry : Entry) (roll? : Option Roll) : Prop :=
  ∃ roll phase, roll? = some roll ∧ roll.members entry.silo = some ⟨entry, phase⟩

theorem has_enter_of_ok (h : (enter deployment entry roll?).1 = .ok ()) :
    Has entry (enter deployment entry roll?).2 := by
  cases roll? with
  | none => cases h
  | some roll =>
    cases hmember : roll.members entry.silo with
    | some member =>
      simp only [enter, hmember] at h
      cases h
    | none =>
      simp only [enter, hmember]
      exact ⟨_, .created, rfl, if_pos rfl⟩

-- Nobody takes the place of another.
theorem Has.enter (h : Has entry roll?) : Has entry (enter deployment other roll?).2 := by
  obtain ⟨roll, phase, rfl, hmember⟩ := h
  cases hother : roll.members other.silo with
  | some member =>
    simp only [Roll.enter, hother]
    exact ⟨roll, phase, rfl, hmember⟩
  | none =>
    have hne : entry.silo ≠ other.silo := fun heq => by
      rw [heq, hother] at hmember
      cases hmember
    simp only [Roll.enter, hother]
    exact ⟨_, phase, rfl, (if_neg hne).trans hmember⟩

-- A silo that moves on keeps its entry.
theorem Has.shift (h : Has entry roll?) (next : Silo → Phase → Except UpdateError Phase) :
    Has entry (shift deployment silo next roll?).2 := by
  obtain ⟨roll, phase, rfl, hmember⟩ := h
  have hsame : Has entry (some roll) := ⟨roll, phase, rfl, hmember⟩
  cases hmoved : roll.members silo with
  | none =>
    simp only [Roll.shift, hmoved]
    exact hsame
  | some member =>
    cases hnext : next silo member.phase with
    | error error =>
      simp only [Roll.shift, hmoved, hnext]
      exact hsame
    | ok target =>
      simp only [Roll.shift, hmoved, hnext]
      by_cases htarget : target = member.phase
      · rw [if_pos htarget]
        exact hsame
      · rw [if_neg htarget]
        by_cases hsilo : entry.silo = silo
        · subst hsilo
          obtain rfl := Option.some.inj (hmember.symm.trans hmoved)
          exact ⟨_, target, rfl, if_pos rfl⟩
        · exact ⟨_, phase, rfl, (if_neg hsilo).trans hmember⟩

theorem Has.change {α : Type} (h : Has entry roll?) {accepted : Except RegistryError α}
    {onRoll : α → Option Roll → Except UpdateError Unit × Option Roll}
    (hroll : ∀ value, Has entry (onRoll value roll?).2) : Has entry (Errand.change accepted onRoll roll?).2 := by
  cases accepted with
  | error error => exact h
  | ok value => exact hroll value

-- Whoever is on the roll stays there until everything is deleted.
theorem Has.leaves {own : String} (h : Has entry roll?) {job : Job} (hjob : job ≠ .errand .delete) :
    Has entry (job.leaves own deployment roll?) := by
  cases job with
  | inquiry inquiry => exact h
  | errand errand =>
    cases errand with
    | createVersion =>
      obtain ⟨roll, phase, rfl, hmember⟩ := h
      exact ⟨roll, phase, rfl, hmember⟩
    | register record => exact h.change fun other => h.enter
    | activate record => exact h.change fun silo => h.shift _
    | unregister record => exact h.change fun silo => h.shift _
    | delete => exact absurd rfl hjob

end Roll

namespace Record

variable {entry : Entry} {deployment : String} {version : Option Int64}

-- Neither a status nor an alive time keeps an entry from fitting its columns.
theorem entry_ofEntry_moved (h : (ofEntry deployment entry version).entry = .ok entry) (other : Option Int64)
    (status : Status) (time : Instant) :
    (ofEntry deployment ((entry.withStatus status).withAliveTime time) other).entry =
      .ok ((entry.withStatus status).withAliveTime time) := by
  have hfits := entry_ofEntry_iff.mp h
  exact entry_ofEntry_iff.mpr hfits

end Record

namespace Office

open Registry
open Updater (Held)

variable {office : Office} {clock : Clock} {rig : Rig} {table : Deployment} {roll : Roll} {roll? : Option Roll}
  {record : Record} {entry : Entry}

-- Whatever has been done before: if the table has been set up then all its records are listed, and one
-- that is asked for by its keys is the one that is listed. A key that spells the silo in another way than
-- the listed row key is as good as that. Times that are to be kept in files have to come back from them.
theorem lookup_agrees_with_listing (office : Office) (clock : Clock) (rig : Rig) (roll? : Option Roll)
    (hheld : Held (office.Stands clock) roll? rig) (jobs : List (Occasion × Job))
    (hlegible : office.handle.Filed → Legible jobs) (hopen : (office.leaves roll? jobs).isSome) (occasion : Occasion) :
    let left := (office.run clock jobs rig).2
    ∃ all, (office.carryOut clock occasion readAll left).value = .ok all ∧
      ∀ (asked key : String) (occasion' : Occasion),
        let answer := (office.carryOut clock occasion' (fun registry => registry.read asked key) left).value
        Answers office.config.deployment all asked key answer ∧
        ((∀ silo, Silo.ofRowKey key = .ok silo → silo.rowKey = key) → ∀ record etag,
          answer = .ok (some (record, etag)) ↔
            asked = office.config.deployment ∧ (record, etag) ∈ all ∧ record.rowKey = key) := by
  obtain ⟨roll, hroll⟩ := Option.isSome_iff_exists.mp hopen
  obtain ⟨table, hstands, hkeeps⟩ := run_held hheld jobs hlegible
  rw [hroll] at hkeeps
  obtain ⟨stamp, hversion, -⟩ := hkeeps.version
  have hall := listing_of_version hversion (Registry.ofConfig office.config)
  refine ⟨_, (value_readAll hstands occasion).trans hall, fun asked key occasion' => ?_⟩
  have hanswers := answers_of_lists hkeeps hall asked key
  rw [value_read hstands]
  exact ⟨hanswers, fun hkey => hanswers.found_under hall hkey⟩

theorem lookup_agrees_with_listing_signed_on :
    Held (orders.Stands .millis) none slow ∧ (orders.handle.Filed → Legible signOn) ∧
    (orders.leaves none signOn).isSome ∧
    ∃ all, (orders.carryOut .millis ⟨.epoch, 9⟩ readAll (orders.run .millis signOn slow).2).value = .ok all ∧
      Answers "orders" all "orders" "127.0.0.1-1-10" (orders.carryOut .millis ⟨.epoch, 9⟩
        (fun registry => registry.read "orders" "127.0.0.1-1-10") (orders.run .millis signOn slow).2).value := by
  have hopen : (orders.leaves none signOn).isSome := by decide +kernel
  obtain ⟨all, hall, hanswers⟩ :=
    lookup_agrees_with_listing orders .millis slow none held_orders signOn False.elim hopen ⟨.epoch, 9⟩
  exact ⟨held_orders, False.elim, hopen, all, hall, (hanswers "orders" "127.0.0.1-1-10" ⟨.epoch, 9⟩).1⟩

-- With a zero before its port the key is no listed row key, and still somebody is found.
theorem lookup_takes_other_spellings :
    let left := (orders.run .millis signOn slow).2
    let answer := (orders.carryOut .millis ⟨.epoch, 9⟩
      (fun registry => registry.read "orders" "127.0.0.1-01-10") left).value
    let listed := (orders.carryOut .millis ⟨.epoch, 9⟩ readAll left).value
    answer.map (Option.map fun found => found.1.rowKey) = .ok (some "127.0.0.1-1-10") ∧
    listed.map (List.map fun found => found.1.rowKey) = .ok ["127.0.0.1-1-10"] := by
  decide +kernel

-- The record of a silo is found by its key and among all others, and stands for an entry.
def ReadsBack (office : Office) (clock : Clock) (rig : Rig) (record : Record) (entry : Entry) : Prop :=
  ∀ occasion occasion' : Occasion, ∃ found etag all,
    (office.carryOut clock occasion (fun registry => registry.read record.deployment record.rowKey) rig).value =
      .ok (some (found, etag)) ∧
    (office.carryOut clock occasion' readAll rig).value = .ok all ∧ (found, etag) ∈ all ∧ found.entry = .ok entry

theorem readsBack_of_row (hstands : office.Stands clock rig table) (hlists : table.Lists roll)
    (hown : record.deployment = office.config.deployment) (hsilo : record.silo = .ok entry.silo) {row : Row}
    (hrow : table.rows.get? entry.silo.rowKey = some row)
    (hfits : ∀ version, (Record.ofEntry record.deployment row.entry version).entry = .ok row.entry) :
    office.ReadsBack clock rig record row.entry := by
  intro occasion occasion'
  obtain ⟨stamp, hversion, -⟩ := hlists.version
  have hall := listing_of_version hversion (Registry.ofConfig office.config)
  have hkey : Silo.ofRowKey record.rowKey = .ok entry.silo := by
    rw [← Record.rowKey_of_silo hsilo, Silo.ofRowKey_rowKey,
      (Silo.ofIp_eq_self_iff _).mpr (Record.bare_of_silo hsilo)]
  have hfound := finding_of_silo (.ofConfig office.config) hlists hversion hkey
  rw [hrow] at hfound
  refine ⟨_, row.etag, _, ?_, (value_readAll hstands occasion').trans hall, ?_, hown ▸ hfits (some stamp.counter)⟩
  · rw [value_read hstands, hown]
    exact hfound
  · exact (mem_listing hversion hall).mpr ⟨row, (hlists.keyed.get?_eq_some_iff.mp hrow).1, rfl⟩

theorem readsBack_of_has (hheld : Held (office.Stands clock) roll? rig) (hhas : Roll.Has entry roll?)
    (hown : record.deployment = office.config.deployment) (hsilo : record.silo = .ok entry.silo)
    (hfits : ∀ version, (Record.ofEntry record.deployment entry version).entry = .ok entry) :
    ∃ (phase : Phase) (time : Instant),
      office.ReadsBack clock rig record ((entry.withStatus phase.status).withAliveTime time) := by
  obtain ⟨roll, phase, rfl, hmember⟩ := hhas
  obtain ⟨table, hstands, hlists⟩ := hheld
  have hget := hlists.get? (Record.bare_of_silo hsilo)
  rw [hmember] at hget
  obtain ⟨row, hrow, hstanding⟩ := Option.map_eq_some_iff.mp hget
  have hentry : row.entry = (entry.withStatus phase.status).withAliveTime row.entry.aliveTime := by
    have hmoved := congrArg (fun other => Entry.withAliveTime other row.entry.aliveTime) hstanding
    exact hmoved
  refine ⟨phase, row.entry.aliveTime, ?_⟩
  rw [← hentry]
  refine readsBack_of_row hstands hlists hown hsilo hrow fun version => ?_
  rw [hentry]
  exact Record.entry_ofEntry_moved (hfits version) version _ _

theorem has_leaves (h : Roll.Has entry roll?) {jobs : List (Occasion × Job)}
    (hjobs : ∀ job ∈ jobs, job.2 ≠ .errand .delete) : Roll.Has entry (office.leaves roll? jobs) := by
  induction jobs generalizing roll? with
  | nil => exact h
  | cons head rest ih =>
    obtain ⟨hhead, hrest⟩ := List.forall_mem_cons.mp hjobs
    exact ih (h.leaves hhead) hrest

-- A success tells that the record was for the registry, and that its entry has got on the roll.
theorem admitted_of_register (hheld : Held (office.Stands clock) roll? rig) (occasion : Occasion)
    (hentry : record.entry = .ok entry) (hlegible : office.handle.Filed → record.Legible)
    (hok : (office.carryOut clock occasion (fun registry => registry.register record) rig).value = .ok ()) :
    record.deployment = office.config.deployment ∧
    (Roll.enter office.handle.deployment entry roll?).1 = .ok () ∧
    ∃ table,
      office.Stands clock (office.carryOut clock occasion (fun registry => registry.register record) rig).state table ∧
      Updater.Admitted office.handle.deployment entry roll? table := by
  by_cases hown : record.deployment = office.config.deployment
  · have haccept : Errand.accept office.config.deployment record Record.entry = .ok entry := by
      rw [Errand.accept, if_pos hown, hentry]
      rfl
    obtain ⟨hvalue, hadmitted⟩ := carryOut_yields occasion (fun registry => registry.register record) fun _ hhosts =>
      register_admits hhosts.toServes hheld office.config.policy hlegible haccept
    refine ⟨hown, ?_, hadmitted⟩
    rw [hvalue] at hok
    cases henter : (Roll.enter office.handle.deployment entry roll?).1 with
    | ok _ => rfl
    | error error =>
      rw [henter] at hok
      cases hok
  · obtain ⟨hvalue, -⟩ := carryOut_yields occasion (fun registry => registry.register record) fun _ hhosts =>
      register_yields hhosts.toServes hheld office.config.policy record hlegible
    rw [hvalue, Errand.accept, if_neg hown] at hok
    cases hok

-- A record that can be read lays down an entry that can be read again, if the suspicions in it are of years
-- that have four digits. Then a registry that has taken the record hands out what it has taken, and as long
-- as nothing is deleted the entry stays what it is but for its status and its alive time. Times that are to be kept in
-- files have to come back from them.
theorem registered_records_read_back (record : Record) (entry : Entry) (hentry : record.entry = .ok entry) :
    (∀ deployment version, (Record.ofEntry deployment entry version).entry = .ok entry ↔
      ∀ suspicion ∈ entry.suspicions, suspicion.time.FourDigit) ∧
    ∀ (office : Office) (clock : Clock) (rig : Rig) (roll? : Option Roll) (occasion : Occasion),
      Held (office.Stands clock) roll? rig → (office.handle.Filed → record.Legible) →
      let course := office.carryOut clock occasion (fun registry => registry.register record) rig
      course.value = .ok () → (∀ suspicion ∈ entry.suspicions, suspicion.time.FourDigit) →
        office.ReadsBack clock course.state record (entry.withStatus .created) ∧
        ∀ later : List (Occasion × Job), (office.handle.Filed → Legible later) →
          (∀ job ∈ later, job.2 ≠ .errand .delete) → ∃ (phase : Phase) (time : Instant),
            office.ReadsBack clock (office.run clock later course.state).2 record
              ((entry.withStatus phase.status).withAliveTime time) := by
  have hread := Record.entry_ofEntry_of_entry hentry
  refine ⟨hread, fun office clock rig roll? occasion hheld hlegible hok htimes => ?_⟩
  obtain ⟨hown, henter, table, hstands, hadmitted⟩ := admitted_of_register hheld occasion hentry hlegible hok
  obtain ⟨hsilo, -, -⟩ := Record.entry_cases hentry
  have hfits : ∀ version, (Record.ofEntry record.deployment entry version).entry = .ok entry :=
    fun version => (hread _ version).mpr htimes
  have hhas := Roll.has_enter_of_ok henter
  have hheld' : Held (office.Stands clock) (Roll.enter office.handle.deployment entry roll?).2 _ :=
    ⟨table, hstands, hadmitted.keeps⟩
  constructor
  · obtain ⟨roll, -, hroll, -⟩ := hhas
    obtain ⟨etag, hrow⟩ := hadmitted.row henter
    have hlists : table.Keeps (some roll) := hroll ▸ hadmitted.keeps
    exact readsBack_of_row hstands hlists hown hsilo hrow fun version =>
      Record.entry_ofEntry_moved (hfits version) version .created entry.aliveTime
  · intro later hlegible' hlater
    exact readsBack_of_has (run_held hheld' later hlegible') (has_leaves hhas hlater) hown hsilo hfits

-- The neighbour is spelt with zeros and a sign in front, and the time has an offset.
def vouched : Record :=
  { Record.fresh "orders" (.onLoopback 11111 7) "node" .epoch with
    status := "Dead", voters := "127.0.0.1-011112-+5", voteTimes := "2024-05-17T10:30:00+02:00" }

def vouchedEntry : Entry :=
  let suspicion : Suspicion := ⟨.onLoopback 11112 5, (Instant.ofText? "2024-05-17T08:30:00Z").getD .epoch⟩
  ((Entry.fresh (.onLoopback 11111 7) "node" .epoch).withStatus .dead).withSuspicion suspicion

theorem registered_records_read_back_vouched :
    let opened := (orders.carryOut .millis ⟨.epoch, 7⟩ createVersion slow).state
    let course := orders.carryOut .millis ⟨.epoch, 8⟩ (fun registry => registry.register vouched) opened
    vouched.entry = .ok vouchedEntry ∧ Held (orders.Stands .millis) (some .start) opened ∧ course.value = .ok () ∧
    (∀ suspicion ∈ vouchedEntry.suspicions, suspicion.time.FourDigit) ∧
    orders.ReadsBack .millis course.state vouched (vouchedEntry.withStatus .created) := by
  intro opened course
  have hentry : vouched.entry = .ok vouchedEntry := by decide +kernel
  have hheld : Held (orders.Stands .millis) (some .start) opened :=
    run_held held_orders [(⟨.epoch, 7⟩, .errand .createVersion)] False.elim
  have hok : course.value = .ok () := by decide +kernel
  have htimes : ∀ suspicion ∈ vouchedEntry.suspicions, suspicion.time.FourDigit := by decide +kernel
  obtain ⟨-, hback⟩ := registered_records_read_back vouched vouchedEntry hentry
  obtain ⟨hread, -⟩ := hback orders .millis opened (some .start) ⟨.epoch, 8⟩ hheld False.elim hok htimes
  exact ⟨hentry, hheld, hok, htimes, hread⟩

-- Half an hour before midnight of the last day that four digits can name, in a zone an hour behind.
def belated : Record :=
  { Record.fresh "orders" (.onLoopback 11111 7) "node" .epoch with
    voters := "127.0.0.1-11112-5", voteTimes := "9999-12-31T23:30:00-01:00" }

-- It is taken, and nobody can read what is handed out instead of it.
theorem belated_record_not_read_back :
    let opened := (orders.carryOut .millis ⟨.epoch, 7⟩ createVersion slow).state
    let course := orders.carryOut .millis ⟨.epoch, 8⟩ (fun registry => registry.register belated) opened
    let listed := (orders.carryOut .millis ⟨.epoch, 9⟩ readAll course.state).value
    belated.entry.isOk = true ∧ course.value = .ok () ∧
    listed.map (List.map fun found => found.1.entry) = .ok [.error (.invalidTime "+10000-01-01T00:30:00Z")] := by
  decide +kernel

end Office

end Muster
