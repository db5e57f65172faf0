import Mathlib.Logic.Function.Iterate
import Muster.Proofs.Update.Story

-- Changes of different silos may change places: they have the same results, and leave the same list behind.
namespace Muster

namespace Deployment

variable {table table' : Deployment} {silo : Silo}

theorem Plain.entryOf?_of_mem (h : table.Plain) {row : Row} (hrow : row ∈ table.rows.values) :
    row.entry.silo.Bare ∧ table.entryOf? row.entry.silo = some row.entry := by
  have hget := h.keyed.get?_eq_some_iff.mpr ⟨hrow, rfl⟩
  refine ⟨h.bare _ row hget, ?_⟩
  rw [entryOf?, hget, Option.map_some]

theorem Plain.mem_silos_iff (h : table.Plain) (stamp : Version) :
    silo ∈ (Snapshot.of table.rows.values stamp).rows.map (fun row => row.entry.silo) ↔
      silo.Bare ∧ (table.entryOf? silo).isSome := by
  constructor
  · intro hmem
    obtain ⟨row, hrow, rfl⟩ := List.mem_map.mp hmem
    obtain ⟨hbare, hentry⟩ := h.entryOf?_of_mem ((Snapshot.perm_rows_of _ stamp).mem_iff.mp hrow)
    rw [hentry]
    exact ⟨hbare, rfl⟩
  · rintro ⟨hbare, hsome⟩
    obtain ⟨entry, hentry⟩ := Option.isSome_iff_exists.mp hsome
    obtain ⟨row, hget, rfl⟩ := Option.map_eq_some_iff.mp hentry
    have hrow := (h.keyed.get?_eq_some_iff.mp hget).1
    exact List.mem_map.mpr ⟨row, (Snapshot.perm_rows_of _ stamp).mem_iff.mpr hrow, h.silo_of_get? hbare hget⟩

-- The list that a reader gets is that of the silos with an entry, each with its own.
theorem Plain.entries_eq (h : table.Plain) (stamp : Version) :
    (Snapshot.of table.rows.values stamp).rows.map (fun row => some row.entry) =
      ((Snapshot.of table.rows.values stamp).rows.map fun row => row.entry.silo).map table.entryOf? := by
  rw [List.map_map]
  refine List.map_congr_left fun row hrow => ?_
  exact (h.entryOf?_of_mem ((Snapshot.perm_rows_of _ stamp).mem_iff.mp hrow)).2.symm

private theorem isSome_eq_of_rel {R : α → β → Prop} {a : Option α} {b : Option β} (h : Option.Rel R a b) :
    a.isSome = b.isSome := by
  cases h <;> rfl

-- Tables whose rows agree silo by silo are listed alike.
theorem Plain.listed_alike (h : table.Plain) (h' : table'.Plain) {R : Entry → Entry → Prop}
    (hentry : ∀ silo : Silo, silo.Bare → Option.Rel R (table.entryOf? silo) (table'.entryOf? silo))
    (stamp stamp' : Version) :
    List.Forall₂ (fun a b => R a.entry b.entry) (Snapshot.of table.rows.values stamp).rows
      (Snapshot.of table'.rows.values stamp').rows := by
  have hascending := Snapshot.ascending_of h.keyed.nodup_silos stamp
  have hascending' := Snapshot.ascending_of h'.keyed.nodup_silos stamp'
  have hsilos : (Snapshot.of table.rows.values stamp).rows.map (fun row => row.entry.silo) =
      (Snapshot.of table'.rows.values stamp').rows.map fun row => row.entry.silo := by
    have hperm := (List.perm_ext_iff_of_nodup hascending.nodup hascending'.nodup).mpr fun silo => by
      rw [h.mem_silos_iff, h'.mem_silos_iff]
      exact and_congr_right fun hbare => by rw [isSome_eq_of_rel (hentry silo hbare)]
    have hantisymm : ∀ a b : Silo, a.order b = .lt → b.order a = .lt → a = b := by
      intro a b hab hba
      rw [Silo.order_eq_lt_iff] at hab hba
      exact absurd hab (lt_asymm hba)
    exact hperm.eq_of_pairwise (fun a b _ _ => hantisymm a b) (List.pairwise_map.mpr hascending)
      (List.pairwise_map.mpr hascending')
  have hsome : List.Forall₂ (Option.Rel R) ((Snapshot.of table.rows.values stamp).rows.map fun row => some row.entry)
      ((Snapshot.of table'.rows.values stamp').rows.map fun row => some row.entry) := by
    rw [h.entries_eq, h'.entries_eq, ← hsilos, List.forall₂_map_left_iff, List.forall₂_map_right_iff,
      List.forall₂_same]
    intro silo hsilo
    exact hentry silo ((h.mem_silos_iff stamp).mp hsilo).1
  rw [List.forall₂_map_left_iff, List.forall₂_map_right_iff] at hsome
  refine hsome.imp fun a b hab => ?_
  cases hab
  assumption

end Deployment

namespace Updater

-- The rows of a table have in them what a view shows, and it has been written so often.
structure View.Tells (view : View) (counter : Int64) (table : Deployment) : Prop where
  plain : table.Plain
  entry : ∀ silo : Silo, silo.Bare → table.entryOf? silo = view silo
  counter : table.counter? = some counter

def Upshot.count (upshot : Upshot) (counter : Int64) : Int64 :=
  if upshot.writes then Version.counted counter else counter

-- What is brought and what the clock shows come back from a text.
def Deed.Legible (deed : Deed) : Prop := deed.task.Legible ∧ deed.now.Legible

def Deed.carryOut (deed : Deed) (clock : Clock) (handle : Handle) : Work Rig (Except UpdateError (Option Entry)) :=
  handle.carryOut ⟨clock, deed.now⟩ deed.drawn deed.queue (deed.task.plan deed.policy)

structure Report where
  task : Task
  result : Except UpdateError (Option Entry)

-- Changes one after the other through a handle: what is reported of each, and the rig after them.
def carryOutAll (clock : Clock) (handle : Handle) : List Deed → Rig → List Report × Rig
  | [], rig => ([], rig)
  | deed :: rest, rig =>
    let course := deed.carryOut clock handle rig
    let (reports, left) := carryOutAll clock handle rest course.state
    (⟨deed.task, course.value⟩ :: reports, left)

def Step.report (step : Step) : Report := ⟨step.task, step.upshot.result⟩

variable {clock : Clock} {handle : Handle} {latency : Span} {rig : Rig} {table : Deployment} {view : View}
  {counter : Int64}

-- A change comes to what it comes to on the view, and the table tells the view that is left.
theorem Deed.carryOut_tells (hshows : handle.Shows clock latency rig table) (htells : view.Tells counter table)
    (deed : Deed) (hbare : deed.task.silo.Bare) (hlegible : handle.Filed → deed.Legible) :
    (deed.carryOut clock handle rig).value = (deed.upshot view).result ∧
      ∃ next, handle.Shows clock latency (deed.carryOut clock handle rig).state next ∧
        (view.put deed.task.silo (deed.upshot view).left?).Tells ((deed.upshot view).count counter) next := by
  obtain ⟨stamp, hversion, hcounter⟩ := Option.map_eq_some_iff.mp htells.counter
  have hserves := Handle.serves handle ⟨clock, deed.now⟩ latency deed.drawn deed.queue
  obtain ⟨hresult, next, hnext, hleaves⟩ :=
    Task.comes hserves hshows htells.plain hversion deed.task deed.policy hbare
      (fun hfiled => (hlegible hfiled).1) (fun hfiled => (hlegible hfiled).2)
  rw [htells.entry _ hbare] at hresult hleaves
  replace hleaves : (deed.upshot view).Leaves deed.task.silo table next := hleaves
  refine ⟨hresult, next, hnext, hleaves.plain, fun silo hsilo => ?_, ?_⟩
  · rw [hleaves.entry silo hsilo, View.put, htells.entry silo hsilo]
  · rw [hleaves.counter, htells.counter, Upshot.count]
    cases (deed.upshot view).writes <;> rfl

theorem carryOutAll_tells (hshows : handle.Shows clock latency rig table) (htells : view.Tells counter table)
    {deeds : List Deed} (hbare : ∀ deed ∈ deeds, deed.task.silo.Bare)
    (hlegible : handle.Filed → ∀ deed ∈ deeds, deed.Legible) :
    (carryOutAll clock handle deeds rig).1 = (story deeds view).1.map Step.report ∧
      ∃ next, handle.Shows clock latency (carryOutAll clock handle deeds rig).2 next ∧
        (story deeds view).2.Tells (Version.counted^[Step.writes (story deeds view).1] counter) next := by
  induction deeds generalizing rig table view counter with
  | nil => exact ⟨rfl, table, hshows, htells⟩
  | cons deed rest ih =>
    obtain ⟨hfirst, hrest⟩ := List.forall_mem_cons.mp hbare
    obtain ⟨hvalue, next, hnext, hnextTells⟩ :=
      deed.carryOut_tells hshows htells hfirst fun hfiled => hlegible hfiled deed List.mem_cons_self
    obtain ⟨hreports, last, hlast, hlastTells⟩ :=
      ih hnext hnextTells hrest fun hfiled => (List.forall_mem_cons.mp (hlegible hfiled)).2
    simp only [carryOutAll, story, List.map_cons]
    refine ⟨by rw [hreports, hvalue]; rfl, last, hlast, ?_⟩
    rw [Step.writes, List.countP_cons]
    cases hwrites : (deed.upshot view).writes with
    | true =>
      rw [Upshot.count, if_pos hwrites] at hlastTells
      rw [if_pos rfl, Function.iterate_succ_apply]
      exact hlastTells
    | false =>
      rw [Upshot.count, if_neg (by simp [hwrites])] at hlastTells
      exact hlastTells

-- Nothing but the order of the silos is different, so all the silos are the same.
theorem Rearranged.bare {same : Instant → Instant → Prop} {first second : List Deed}
    (h : Rearranged same first second) (hfirst : ∀ deed ∈ first, deed.task.silo.Bare) :
    ∀ deed ∈ second, deed.task.silo.Bare := by
  intro deed hdeed
  have hmem : deed ∈ ofSilo Deed.task deed.task.silo second := List.mem_filter.mpr ⟨hdeed, beq_self_eq_true _⟩
  have hlength : 0 < (ofSilo Deed.task deed.task.silo first).length := (h _).length_eq ▸ List.length_pos_of_mem hmem
  obtain ⟨other, hother⟩ := List.exists_mem_of_length_pos hlength
  obtain ⟨hother, hsilo⟩ := List.mem_filter.mp hother
  exact eq_of_beq hsilo ▸ hfirst other hother

-- Neighbours that change different silos may change places.
theorem rearranged_swap {same : Instant → Instant → Prop} (hsame : ∀ time, same time time) {a b : Deed}
    (h : a.task.silo ≠ b.task.silo) (front back : List Deed) :
    Rearranged same (front ++ a :: b :: back) (front ++ b :: a :: back) := by
  intro silo
  have hsilo : ofSilo Deed.task silo (a :: b :: back) = ofSilo Deed.task silo (b :: a :: back) := by
    by_cases ha : a.task.silo = silo
    · have hb : (b.task.silo == silo) = false := beq_eq_false_iff_ne.mpr fun hb => h (ha.trans hb.symm)
      simp [ofSilo, List.filter_cons, hb]
    · simp [ofSilo, List.filter_cons, ha]
  simp only [ofSilo, List.filter_append] at hsilo ⊢
  rw [hsilo]
  exact List.forall₂_same.mpr fun deed _ => ⟨rfl, hsame deed.now⟩

def Report.Alike (same : Instant → Instant → Prop) (a b : Report) : Prop :=
  a.task = b.task ∧ Updater.Alike same a.result b.result

theorem map_task_report (steps : List Step) :
    (steps.map Step.report).map Report.task = (steps.map Step.deed).map Deed.task := by
  rw [List.map_map, List.map_map]
  rfl

theorem ofSilo_map_report (silo : Silo) (steps : List Step) :
    ofSilo Report.task silo (steps.map Step.report) = (ofSilo Step.task silo steps).map Step.report := by
  rw [ofSilo, ofSilo, List.filter_map]
  rfl

theorem View.Tells.readAll (htells : view.Tells counter table) (hshows : handle.Shows clock latency rig table)
    (now : Instant) (drawn : UInt64) :
    ∃ stamp : Version, stamp.counter = counter ∧
      (handle.perform ⟨clock, now⟩ drawn .readAll rig).value = .ok (.of table.rows.values stamp) := by
  obtain ⟨stamp, hversion, hcounter⟩ := Option.map_eq_some_iff.mp htells.counter
  have hperform := (hshows.perform ⟨clock, now⟩ drawn .readAll rfl fun _ => trivial).1
  exact ⟨stamp, hcounter, hperform.trans (Deployment.readAll_of_version hversion)⟩

-- A table that has come about in the usual way is changed, twice from the same state on. For each silo the
-- same changes are made in the same order, but the silos come in any order. Then every change has the same result
-- in both runs, and the lists that are read afterwards have the same entries and the same counter. What the clock
-- shows in the two runs may differ as far as `same` lets it, and then the times taken from it differ no further.
theorem changes_of_silos_commute (clock : Clock) (handle : Handle) (rig : Rig) (store : Store)
    (hbacks : handle.Backs clock rig store) (operations : List Deployment.Operation)
    (htable : store.table handle.deployment = (Deployment.new handle.deployment).after operations)
    (hbare : ∀ operation ∈ operations, ∀ silo ∈ operation.silo?, silo.Bare)
    (hversion : (store.table handle.deployment).version ≠ none)
    (same : Instant → Instant → Prop) (hsame : ∀ time, same time time)
    (first second : List Deed) (hfirst : ∀ deed ∈ first, deed.task.silo.Bare)
    (hlegible : handle.Filed → ∀ deed ∈ first ++ second, deed.Legible) (hrearranged : Rearranged same first second) :
    let (reports, left) := carryOutAll clock handle first rig
    let (reports', left') := carryOutAll clock handle second rig
    reports.map Report.task = first.map Deed.task ∧ reports'.map Report.task = second.map Deed.task ∧
    (∀ silo, List.Forall₂ (Report.Alike same) (ofSilo Report.task silo reports) (ofSilo Report.task silo reports')) ∧
    ∀ now drawn, ∃ all all', (handle.perform ⟨clock, now⟩ drawn .readAll left).value = .ok all ∧
      (handle.perform ⟨clock, now⟩ drawn .readAll left').value = .ok all' ∧
      List.Forall₂ (fun a b => a.entry.Alike same b.entry) all.rows all'.rows ∧
      all.version.counter = all'.version.counter := by
  have hplain : (store.table handle.deployment).Plain :=
    htable ▸ Deployment.plain_after (Deployment.plain_new _) hbare
  obtain ⟨stamp, hstamp⟩ := Option.ne_none_iff_exists'.mp hversion
  have hshows : handle.Shows clock (handle.latency rig) rig (store.table handle.deployment) :=
    ⟨rfl, store, hbacks, rfl⟩
  have htells : View.Tells (store.table handle.deployment).entryOf? stamp.counter (store.table handle.deployment) := by
    refine ⟨hplain, fun _ _ => rfl, ?_⟩
    rw [Deployment.counter?, hstamp, Option.map_some]
  obtain ⟨hreports, next, hnext, hnextTells⟩ := carryOutAll_tells hshows htells hfirst
    fun hfiled deed hdeed => hlegible hfiled deed (List.mem_append_left _ hdeed)
  obtain ⟨hreports', next', hnext', hnextTells'⟩ := carryOutAll_tells hshows htells (hrearranged.bare hfirst)
    fun hfiled deed hdeed => hlegible hfiled deed (List.mem_append_right _ hdeed)
  obtain ⟨hsteps, hview, hwrites⟩ := story_rearranged hsame hrearranged (store.table handle.deployment).entryOf?
  refine ⟨?_, ?_, fun silo => ?_, fun now drawn => ?_⟩
  · rw [hreports, map_task_report, map_deed_story]
  · rw [hreports', map_task_report, map_deed_story]
  · rw [hreports, hreports', ofSilo_map_report, ofSilo_map_report, List.forall₂_map_left_iff,
      List.forall₂_map_right_iff]
    exact (hsteps silo).imp fun _ _ hstep => ⟨hstep.1, hstep.2.result⟩
  · obtain ⟨last, hlast, hread⟩ := hnextTells.readAll hnext now drawn
    obtain ⟨last', hlast', hread'⟩ := hnextTells'.readAll hnext' now drawn
    refine ⟨_, _, hread, hread', hnextTells.plain.listed_alike hnextTells'.plain (fun silo hsilo => ?_) _ _, ?_⟩
    · rw [hnextTells.entry silo hsilo, hnextTells'.entry silo hsilo]
      exact hview silo
    · exact hlast.trans (hwrites ▸ hlast'.symm)

-- A table with one silo in it.
def busy : List Deployment.Operation :=
  [.establish 7, .insertRow (.fresh (.onLoopback 11111 1) "orders-1" .epoch) ⟨0, Deployment.tokenOf 7 1⟩]

-- That silo moves on, another one joins, and a third one is not known. The one that joins is heard of before or after
-- the first one moves.
theorem changes_of_silos_commute_swapped :
    let there := Silo.onLoopback 11111 1
    let joins := Silo.onLoopback 22222 1
    let deed := fun task => Deed.mk task .standard none ((Instant.ofParts? 60 0).getD .epoch) 0
    let joined := [deed (.insert (.fresh joins "orders-2" .epoch))]
    let moved := deed (.moveTo there .active)
    let heard := deed (.heartbeat (.fresh joins "orders-2" .epoch) ((Instant.ofParts? 90 0).getD .epoch))
    let later := [deed (.suspect there ⟨joins, .epoch⟩), deed (.insert (.fresh there "orders-1" .epoch)),
      deed (.moveTo (.onLoopback 33333 1) .dead)]
    let first := joined ++ moved :: heard :: later
    let second := joined ++ heard :: moved :: later
    let store : Store := { Store.empty with tables := [(Deployment.new "orders").after busy] }
    let rig : Rig := { Rig.empty with stores := [store] }
    let handle : Handle := .memory 0 "orders"
    handle.Backs .millis rig store ∧
    store.table handle.deployment = (Deployment.new handle.deployment).after busy ∧
    (∀ operation ∈ busy, ∀ silo ∈ operation.silo?, silo.Bare) ∧
    (store.table handle.deployment).version ≠ none ∧ (∀ time : Instant, time = time) ∧
    (∀ deed ∈ first, deed.task.silo.Bare) ∧ (handle.Filed → ∀ deed ∈ first ++ second, deed.Legible) ∧
    Rearranged (· = ·) first second ∧
    (∀ silo, List.Forall₂ (Report.Alike (· = ·)) (ofSilo Report.task silo (carryOutAll .millis handle first rig).1)
      (ofSilo Report.task silo (carryOutAll .millis handle second rig).1)) ∧
    (∃ all all',
      (handle.perform ⟨.millis, .epoch⟩ 0 .readAll (carryOutAll .millis handle first rig).2).value = .ok all ∧
      (handle.perform ⟨.millis, .epoch⟩ 0 .readAll (carryOutAll .millis handle second rig).2).value = .ok all' ∧
      List.Forall₂ (fun a b => a.entry.Alike (· = ·) b.entry) all.rows all'.rows ∧
      all.version.counter = all'.version.counter) ∧
    (carryOutAll .millis handle first rig).1.map (fun report => report.result.isOk) =
      [true, true, true, true, false, false] := by
  intro there joins deed joined moved heard later first second store rig handle
  have hbacks : handle.Backs .millis rig store := ⟨rfl, rfl⟩
  have htable : store.table handle.deployment = (Deployment.new handle.deployment).after busy := by decide +kernel
  have hbusy : ∀ operation ∈ busy, ∀ silo ∈ operation.silo?, silo.Bare := by decide
  have hversion : (store.table handle.deployment).version ≠ none := by decide +kernel
  have hfirst : ∀ deed ∈ first, deed.task.silo.Bare := by decide
  have hmemory : handle.Filed → ∀ deed ∈ first ++ second, deed.Legible := fun hfiled => hfiled.elim
  have hrearranged : Rearranged (· = ·) first second := rearranged_swap (fun _ => rfl) (by decide) joined later
  have hcommute := changes_of_silos_commute .millis handle rig store hbacks busy htable hbusy hversion (· = ·)
    (fun _ => rfl) first second hfirst hmemory hrearranged
  exact ⟨hbacks, htable, hbusy, hversion, fun _ => rfl, hfirst, hmemory, hrearranged, hcommute.2.2.1,
    hcommute.2.2.2 .epoch 0, by decide +kernel⟩

theorem isOk_of_alike {same : Instant → Instant → Prop} {a b : Report} (h : a.Alike same b) :
    a.result.isOk = b.result.isOk := by
  obtain ⟨task, result⟩ := a
  obtain ⟨task', result'⟩ := b
  cases result <;> cases result' <;> first | rfl | exact h.2.elim

-- Silos that differ in nothing but the flow are different, and share a row key. Only the one that comes first gets in.
theorem changes_of_flows_do_not_commute :
    let deed := fun flow => Deed.mk (.insert (.fresh (.linkLocal flow 0) "a" .epoch)) .standard none .epoch 0
    let rig : Rig := { Rig.empty with stores := [Store.empty.put ((Deployment.new "d").establish 7).2] }
    let run := fun deeds => (carryOutAll .millis (.memory 0 "d") deeds rig).1
    (∀ flow, (Silo.linkLocal flow 0).endpoint.scope = 0) ∧ Rearranged (· = ·) [deed 1, deed 2] [deed 2, deed 1] ∧
    (run [deed 1, deed 2]).map (fun report => report.result.isOk) = [true, false] ∧
    (run [deed 2, deed 1]).map (fun report => report.result.isOk) = [true, false] ∧
    ¬∀ silo, List.Forall₂ (Report.Alike (· = ·)) (ofSilo Report.task silo (run [deed 1, deed 2]))
      (ofSilo Report.task silo (run [deed 2, deed 1])) := by
  intro deed rig run
  refine ⟨fun _ => rfl, rearranged_swap (fun _ => rfl) (by decide) [] [], by decide +kernel, by decide +kernel,
    fun h => ?_⟩
  have hsame : (ofSilo Report.task (.linkLocal 1 0) (run [deed 1, deed 2])).map (fun report => report.result.isOk) =
      (ofSilo Report.task (.linkLocal 1 0) (run [deed 2, deed 1])).map fun report => report.result.isOk := by
    rw [← List.forall₂_eq_eq_eq, List.forall₂_map_left_iff, List.forall₂_map_right_iff]
    exact (h (.linkLocal 1 0)).imp fun _ _ => isOk_of_alike
  revert hsame
  decide +kernel

end Updater
end Muster
