import Muster.Proofs.Table.Reads
import Muster.Proofs.Update.Conduct
import Muster.Proofs.Update.Serving

-- What a change comes to when nobody else uses the table. It goes by the row of its silo alone, and leaves every
-- other row as it is.
namespace Muster

-- The entry in the row of a silo.
def Deployment.entryOf? (table : Deployment) (silo : Silo) : Option Entry :=
  (table.rows.get? silo.rowKey).map Row.entry

def Deployment.counter? (table : Deployment) : Option Int64 := table.version.map Version.counter

-- The counter of a table after a write, whatever its tokens are.
def Version.counted (counter : Int64) : Int64 := (Version.next ⟨counter, ""⟩ "").counter

namespace Updater

open Plan

-- What the party gets to know, what the row of its silo has in it then, and whether it has been written.
structure Upshot where
  result : Except UpdateError (Option Entry)
  left? : Option Entry
  writes : Bool

-- A row is revised as is decided upon its entry.
def Upshot.revised (silo : Silo) (decide : Entry → Except UpdateError (Option Entry)) : Option Entry → Upshot
  | none => ⟨.error (.notFound silo), none, false⟩
  | some current =>
    match decide current with
    | .error error => ⟨.error error, some current, false⟩
    | .ok none => ⟨.ok (some current), some current, false⟩
    | .ok (some next) => ⟨.ok (some next), some next, true⟩

-- What a task comes to on the row of its silo.
def Task.on (now : Instant) : Task → Option Entry → Upshot
  | insert entry, none => ⟨.ok none, some entry, true⟩
  | insert entry, some current => ⟨.error (.alreadyExists entry.silo), some current, false⟩
  | moveTo silo status, found? => .revised silo (Updater.moveTo silo status [] now) found?
  | suspect silo suspicion, found? => .revised silo (fun current => .ok (some (current.withSuspicion suspicion))) found?
  | heartbeat _ aliveTime, found? => ⟨.ok none, found?.map fun current => current.withAliveTime aliveTime, false⟩

-- The table after a change: the row of the silo is as the change leaves it, and all else is as it was.
structure Upshot.Leaves (upshot : Upshot) (silo : Silo) (table next : Deployment) : Prop where
  plain : next.Plain
  entry : ∀ other : Silo, other.Bare →
    next.entryOf? other = if other = silo then upshot.left? else table.entryOf? other
  counter : next.counter? = if upshot.writes then table.counter?.map Version.counted else table.counter?

variable {table next : Deployment} {stamp : Version} {silo : Silo} {result : Except UpdateError (Option Entry)}

theorem leaves_self (hplain : table.Plain) (silo : Silo) (result : Except UpdateError (Option Entry)) :
    (Upshot.mk result (table.entryOf? silo) false).Leaves silo table table where
  plain := hplain
  entry other _ := by
    split
    · next h => rw [h]
    · rfl
  counter := rfl

theorem leaves_commit (hplain : table.Plain) {entry : Entry} (hbare : entry.silo.Bare)
    (hversion : table.version = some stamp) (result : Except UpdateError (Option Entry)) :
    (Upshot.mk result (some entry) true).Leaves entry.silo table (table.commit entry stamp) where
  plain := hplain.commit hbare stamp
  entry other hother := by
    rw [Deployment.entryOf?, Deployment.get?_commit]
    simp only [Silo.rowKey_inj hother hbare]
    split <;> rfl
  counter := by
    simp only [Deployment.counter?, Deployment.commit, hversion, Option.map_some, if_true]
    rfl

theorem leaves_mergeAlive (hplain : table.Plain) {entry : Entry} (hbare : entry.silo.Bare)
    (hmerge : table.mergeAlive entry = .ok next) (result : Except UpdateError (Option Entry)) :
    (Upshot.mk result ((table.entryOf? entry.silo).map fun current => current.withAliveTime entry.aliveTime)
      false).Leaves entry.silo table next := by
  obtain ⟨-, merged, hmerged, hstill⟩ | ⟨-, hnone⟩ := table.mergeAlive_cases entry
  · obtain rfl : merged = next := Except.ok.inj (hmerged.symm.trans hmerge)
    refine ⟨hplain.of_still hstill, fun other hother => ?_, ?_⟩
    · rw [Deployment.entryOf?, Deployment.get?_of_mergeAlive hmerge, Option.map_map]
      by_cases h : other = entry.silo
      · simp only [h, Deployment.entryOf?, Option.map_map, Function.comp_def, if_true]
      · simp only [if_neg h, Silo.rowKey_inj hother hbare, Function.comp_def, Deployment.entryOf?]
    · rw [Deployment.counter?, Deployment.version_eq_of_still hstill]
      rfl
  · cases hnone.symm.trans hmerge

section
variable {σ : Type} {around : Surroundings σ} {deployment : String} {filed : Prop} {holds : σ → Deployment → Prop}
  {state : σ}

-- A result, and the table that is held then.
def Upshot.Comes (upshot : Upshot) (silo : Silo) (table : Deployment) (holds : σ → Deployment → Prop)
    (result : Except UpdateError (Option Entry)) (state : σ) : Prop :=
  result = upshot.result ∧ ∃ next, holds state next ∧ upshot.Leaves silo table next

theorem comes_self (hplain : table.Plain) (hholds : holds state table) {found? : Option Entry}
    (hentry : table.entryOf? silo = found?) (result : Except UpdateError (Option Entry)) :
    (Upshot.mk result found? false).Comes silo table holds result state := by
  subst hentry
  exact ⟨rfl, table, hholds, leaves_self hplain silo result⟩

variable (hserves : around.Serves deployment filed holds) (hholds : holds state table) (hplain : table.Plain)
  (hversion : table.version = some stamp)
include hserves hholds hplain hversion

theorem insertRound_comes {entry : Entry} (hbare : entry.silo.Bare) (hlegible : filed → entry.Legible) :
    (insertRound entry).Yields around state fun round state' =>
      ∃ result, round = .settled result ∧
        ((Task.insert entry).on around.now (table.entryOf? entry.silo)).Comes entry.silo table holds
          (result.map fun () => none) state' := by
  refine yields_call hserves hholds (.readRow entry.silo) (by simp) (fun _ => trivial) fun drawn state' hholds' => ?_
  have hfound := hplain.rowFor?_readRow hbare stamp
  simp only [Deployment.answer, Deployment.readRow_of_version _ hversion] at hholds' ⊢
  cases hrow : table.rows.get? entry.silo.rowKey with
  | some row =>
    have hentry : table.entryOf? entry.silo = some row.entry := by rw [Deployment.entryOf?, hrow, Option.map_some]
    rw [hrow] at hfound
    simp only [Plan.bind, hfound]
    rw [hentry]
    exact ⟨.error _, rfl, comes_self hplain hholds' hentry _⟩
  | none =>
    have hentry : table.entryOf? entry.silo = none := by rw [Deployment.entryOf?, hrow, Option.map_none]
    rw [hrow] at hfound
    simp only [Plan.bind, hfound]
    rw [hentry]
    refine yields_call hserves hholds' (.insertRow entry stamp) (by simp) hlegible fun drawn' state'' hholds'' => ?_
    simp only [Deployment.answer, Deployment.insertRow_of_free hversion hrow, Deployment.settle] at hholds'' ⊢
    exact yields_publish.mpr
      ⟨.ok (), rfl, rfl, _, hserves.tell _ hholds'', leaves_commit hplain hbare hversion _⟩

theorem reviseRound_comes {silo : Silo} (hbare : silo.Bare) {decide : Decide} {seen : List Entry}
    (hsilo : ∀ current next, decide seen around.now current = .ok (some next) → next.silo = current.silo)
    (hlegible : filed → decide.Legible around.now) :
    (reviseRound silo decide seen).Yields around state fun (_, round) state' =>
      ∃ result, round = .settled result ∧
        (Upshot.revised silo (decide seen around.now) (table.entryOf? silo)).Comes silo table holds
          (result.map some) state' := by
  refine yields_call hserves hholds (.readRow silo) (by simp) (fun _ => trivial) fun drawn state' hholds' => ?_
  have hfound := hplain.rowFor?_readRow hbare stamp
  simp only [Deployment.answer, Deployment.readRow_of_version _ hversion] at hholds' ⊢
  cases hrow : table.rows.get? silo.rowKey with
  | none =>
    have hentry : table.entryOf? silo = none := by rw [Deployment.entryOf?, hrow, Option.map_none]
    rw [hrow] at hfound
    simp only [Plan.bind, hfound]
    rw [hentry]
    exact ⟨.error _, rfl, comes_self hplain hholds' hentry _⟩
  | some row =>
    have hentry : table.entryOf? silo = some row.entry := by rw [Deployment.entryOf?, hrow, Option.map_some]
    have hself : row.entry.silo = silo := hplain.silo_of_get? hbare hrow
    rw [hrow] at hfound
    simp only [Plan.bind, hfound]
    rw [yields_now, hentry]
    cases hdecide : decide seen around.now row.entry with
    | error error =>
      simp only [Upshot.revised, hdecide]
      exact ⟨.error error, rfl, comes_self hplain hholds' hentry _⟩
    | ok next? =>
      cases next? with
      | none =>
        simp only [Upshot.revised, hdecide]
        exact ⟨.ok row.entry, rfl, comes_self hplain hholds' hentry _⟩
      | some next =>
        have hnext : next.silo = silo := (hsilo _ _ hdecide).trans hself
        have hleaves := leaves_commit hplain (hnext ▸ hbare) hversion (.ok (some next))
        have hupdate := Deployment.updateRow_of_found next hversion (hnext ▸ hrow)
        rw [hnext] at hleaves
        simp only [Upshot.revised, hdecide]
        refine yields_call hserves hholds' (.updateRow next row.etag stamp) (by simp)
          (legible_revised hserves hholds hlegible hrow hdecide) fun drawn' state'' hholds'' => ?_
        simp only [Deployment.answer, hupdate, Deployment.settle] at hholds'' ⊢
        exact ⟨.ok next, rfl, rfl, _, hholds'', hleaves⟩

theorem insert_comes (policy : Policy) {entry : Entry} (hbare : entry.silo.Bare) (hlegible : filed → entry.Legible) :
    (Updater.insert policy entry).Yields around state fun result state' =>
      ((Task.insert entry).on around.now (table.entryOf? entry.silo)).Comes entry.silo table holds
        (result.map fun () => none) state' := by
  have hround := insertRound_comes hserves hholds hplain hversion hbare hlegible
  refine (rounds_yields (fun value state' =>
    ((Task.insert entry).on around.now (table.entryOf? entry.silo)).Comes entry.silo table holds
      (value.2.map fun () => none) state') (hround.bind ?_) _ _).bind ?_
  · rintro _ state' ⟨result, rfl, hcomes⟩
    exact ⟨result, rfl, hcomes⟩
  · exact fun _ _ hcomes => hcomes

theorem revise_comes (policy : Policy) {silo : Silo} (hbare : silo.Bare) (decide : Decide)
    (hsilo : ∀ current next, decide [] around.now current = .ok (some next) → next.silo = current.silo)
    (hlegible : filed → decide.Legible around.now) :
    (revise policy silo decide).Yields around state fun value state' =>
      (Upshot.revised silo (decide [] around.now) (table.entryOf? silo)).Comes silo table holds
        (value.2.map some) state' :=
  rounds_yields _ (reviseRound_comes hserves hholds hplain hversion hbare hsilo hlegible) _ _

theorem updateStatus_comes (policy : Policy) {silo : Silo} (hbare : silo.Bare) (status : Status)
    (hnow : filed → around.now.Legible) :
    (updateStatus policy silo status).Yields around state fun result state' =>
      ((Task.moveTo silo status).on around.now (table.entryOf? silo)).Comes silo table holds
        (result.map some) state' := by
  have hrevise := revise_comes hserves hholds hplain hversion policy hbare (Updater.moveTo silo status)
    (fun _ _ hmove => (revises_of_moveTo hmove).silo_eq) fun hfiled => legible_moveTo silo status (hnow hfiled)
  refine hrevise.bind ?_
  rintro ⟨seen, result⟩ state' ⟨hresult, next, hholds', hleaves⟩
  dsimp only
  split
  · split
    · exact yields_publish.mpr ⟨hresult, next, hserves.tell _ hholds', hleaves⟩
    · exact ⟨hresult, next, hholds', hleaves⟩
  · exact ⟨hresult, next, hholds', hleaves⟩

theorem addSuspicion_comes (policy : Policy) {silo : Silo} (hbare : silo.Bare) (suspicion : Suspicion)
    (hlegible : filed → suspicion.Legible) :
    (addSuspicion policy silo suspicion).Yields around state fun result state' =>
      ((Task.suspect silo suspicion).on around.now (table.entryOf? silo)).Comes silo table holds
        (result.map some) state' := by
  have hrevise := revise_comes hserves hholds hplain hversion policy hbare
    (fun _ _ current => .ok (some (current.withSuspicion suspicion)))
    (fun _ _ hnext => by rw [← Option.some.inj (Except.ok.inj hnext), Entry.silo_withSuspicion])
    fun hfiled => legible_suspect (hlegible hfiled) around.now
  refine hrevise.bind ?_
  rintro ⟨seen, _ | entry⟩ state' ⟨hresult, next, hholds', hleaves⟩
  · exact ⟨hresult, next, hholds', hleaves⟩
  · exact yields_publish.mpr ⟨hresult, next, hserves.tell _ hholds', hleaves⟩

theorem heartbeat_comes {entry : Entry} (hbare : entry.silo.Bare) (aliveTime : Instant)
    (hlegible : filed → aliveTime.Legible) :
    (Updater.heartbeat entry aliveTime).Yields around state fun result state' =>
      ((Task.heartbeat entry aliveTime).on around.now (table.entryOf? entry.silo)).Comes entry.silo table holds
        (result.map fun () => none) state' := by
  refine yields_call hserves hholds (.mergeAlive (entry.withAliveTime aliveTime)) (by simp) hlegible
    fun drawn state' hholds' => ?_
  obtain ⟨-, next, hmerge, -⟩ | ⟨hnone, -⟩ := table.mergeAlive_cases (entry.withAliveTime aliveTime)
  · simp only [Deployment.answer, hmerge, Deployment.settle] at hholds' ⊢
    have hleaves := leaves_mergeAlive hplain (entry.silo_withAliveTime aliveTime ▸ hbare) hmerge (.ok none)
    exact ⟨rfl, next, hholds', hleaves⟩
  · cases hnone.symm.trans hversion

-- Whoever has the table to itself finds the row of the silo as it is, and makes of it what the task says.
theorem Task.comes (task : Task) (policy : Policy) (hbare : task.silo.Bare) (hlegible : filed → task.Legible)
    (hnow : filed → around.now.Legible) :
    (task.plan policy).Yields around state fun result state' =>
      (task.on around.now (table.entryOf? task.silo)).Comes task.silo table holds result state' := by
  cases task with
  | insert entry =>
    exact (insert_comes hserves hholds hplain hversion policy hbare hlegible).bind fun _ _ hcomes => hcomes
  | moveTo silo status =>
    exact (updateStatus_comes hserves hholds hplain hversion policy hbare status hnow).bind fun _ _ hcomes => hcomes
  | suspect silo suspicion =>
    exact (addSuspicion_comes hserves hholds hplain hversion policy hbare suspicion hlegible).bind
      fun _ _ hcomes => hcomes
  | heartbeat entry aliveTime =>
    exact (heartbeat_comes hserves hholds hplain hversion hbare aliveTime hlegible).bind fun _ _ hcomes => hcomes

end

end Updater
end Muster
