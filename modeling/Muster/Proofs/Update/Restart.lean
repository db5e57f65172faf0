import Muster.Proofs.Member.Generation
import Muster.Proofs.Table.Reads
import Muster.Proofs.Update.Pursuit
import Muster.Proofs.Update.Serving

-- A silo that is started again, while the row of its last life is still in the table.
namespace Muster

namespace Silo

theorem rowKey_startedAt_eq_iff {endpoint : Net.Endpoint} {a b : Instant} :
    (startedAt endpoint a).rowKey = (startedAt endpoint b).rowKey ↔ startedAt endpoint a = startedAt endpoint b := by
  refine ⟨fun hkey => ?_, congrArg rowKey⟩
  obtain ⟨-, -, hgeneration⟩ := (rowKey_eq_iff _ _).mp hkey
  exact congrArg (mk endpoint) hgeneration

end Silo

namespace Deployment

-- One life of a silo has a row, and if the next life has one already, then it is that row.
structure Awaits (table : Deployment) (old young : Silo) : Prop where
  stamped : table.isInitialized = true
  keyed : table.rows.Keyed
  row : ∃ row, table.rows.get? old.rowKey = some row ∧ row.entry.silo = old
  free : ∀ row, table.rows.get? young.rowKey = some row → row.entry.silo = old

-- The silo whose row an operation writes, if it wins.
def Operation.written? : Operation → Option Silo
  | insertRow entry _ => some entry.silo
  | updateRow entry _ _ => some entry.silo
  | _ => none

-- The operation leaves the table in place, and writes no other row where those of the two lives belong.
def Operation.Respects (old young : Silo) (operation : Operation) : Prop :=
  operation ≠ .clear ∧
    ∀ silo ∈ operation.written?, silo.rowKey = old.rowKey ∨ silo.rowKey = young.rowKey → silo = old

variable {table next : Deployment} {old young : Silo} {entry : Entry} {stamp : Version}

theorem Awaits.of_still (h : table.Awaits old young) (hstill : next.still = table.still) : next.Awaits old young where
  stamped := by
    rw [isInitialized, version_eq_of_still hstill]
    exact h.stamped
  keyed := h.keyed.of_still (rows_eq_of_still hstill)
  row := by
    obtain ⟨row, hrow, hold⟩ := h.row
    obtain ⟨row', hrow', hsame⟩ := exists_row_of_still hstill hrow
    exact ⟨row', hrow', (Row.silo_eq_of_still hsame).trans hold⟩
  free row hrow := by
    obtain ⟨row', hrow', hsame⟩ := exists_row_of_still hstill.symm hrow
    exact (Row.silo_eq_of_still hsame).symm.trans (h.free row' hrow')

theorem Awaits.commit (h : table.Awaits old young)
    (hentry : entry.silo.rowKey = old.rowKey ∨ entry.silo.rowKey = young.rowKey → entry.silo = old) (stamp : Version) :
    (table.commit entry stamp).Awaits old young where
  stamped := rfl
  keyed := h.keyed.insert rfl
  row := by
    rw [get?_commit]
    by_cases hkey : old.rowKey = entry.silo.rowKey
    · exact ⟨_, if_pos hkey, hentry (Or.inl hkey.symm)⟩
    · rw [if_neg hkey]
      exact h.row
  free row hrow := by
    rw [get?_commit] at hrow
    split at hrow
    · next hkey =>
      rw [← Option.some.inj hrow]
      exact hentry (Or.inr hkey.symm)
    · exact h.free row hrow

-- A silo registers where the row of its next life is to be.
theorem awaits_of_insertRow (hkeyed : table.rows.Keyed) (hfree : table.rows.get? young.rowKey = none)
    (hinsert : table.insertRow entry stamp = .ok (true, next)) : next.Awaits entry.silo young := by
  obtain ⟨-, -, hwrite⟩ | hwrite | ⟨-, hwrite⟩ := table.insertRow_cases entry stamp
  · have hnext : table.commit entry stamp = next := congrArg Prod.snd (Except.ok.inj (hwrite.symm.trans hinsert))
    subst hnext
    refine ⟨rfl, hkeyed.insert rfl, ⟨_, (get?_commit _ _ _ _).trans (if_pos rfl), rfl⟩, fun row hrow => ?_⟩
    rw [get?_commit, hfree] at hrow
    split at hrow
    · rw [← Option.some.inj hrow]
    · cases hrow
  · cases hwrite.symm.trans hinsert
  · cases hwrite.symm.trans hinsert

theorem written?_of_write? {call : Call} (drawn : UInt64) (id : String) (h : call.write? = some (entry, stamp)) :
    (call.operation drawn id).written? = some entry.silo := by
  cases call with
  | insertRow other expected => exact congrArg (fun write => some write.1.silo) (Option.some.inj h)
  | updateRow other etag expected => exact congrArg (fun write => some write.1.silo) (Option.some.inj h)
  | _ => cases h

theorem Turn.awaits (turn : Turn) (h : turn.before.Awaits old young) (hrespects : turn.operation.Respects old young) :
    turn.after.Awaits old young := by
  obtain ⟨table, operation⟩ := turn
  obtain ⟨hkept, hwrites⟩ := hrespects
  obtain ⟨drawn, call, rfl, -⟩ := operation.exists_call table.id
  rw [Turn.after, ← Call.answer_eq_perform]
  cases table.answer_effect drawn call with
  | still _ hstill => exact h.of_still hstill
  | write _ entry stamp hcall _ hafter =>
    exact hafter ▸ h.commit (hwrites entry.silo (written?_of_write? drawn table.id hcall)) stamp
  | stamp _ _ hversion =>
    have hstamped := h.stamped
    simp [isInitialized, hversion] at hstamped
  | delete _ hcall =>
    subst hcall
    exact absurd (if_pos rfl) hkept

theorem awaits_after (h : table.Awaits old young) {operations : List Operation}
    (hrespects : ∀ operation ∈ operations, operation.Respects old young) :
    (table.after operations).Awaits old young := by
  induction operations generalizing table with
  | nil => exact h
  | cons operation rest ih =>
    obtain ⟨hfirst, hrest⟩ := List.forall_mem_cons.mp hrespects
    exact ih (Turn.awaits ⟨table, operation⟩ h hfirst) hrest

end Deployment

namespace Updater

open Plan

section
variable {σ : Type} {around : Surroundings σ} {deployment : String} {filed : Prop} {holds : σ → Deployment → Prop}
  {state : σ} {table : Deployment} {old : Silo} {entry : Entry}

theorem insertRound_yields_of_awaits (hserves : around.Serves deployment filed holds) (hholds : holds state table)
    (hawaits : table.Awaits old entry.silo) (hkey : entry.silo.rowKey = old.rowKey → entry.silo = old)
    (hlegible : filed → entry.Legible) :
    (insertRound entry).Yields around state fun round _ =>
      round = .settled (if entry.silo = old then .error (.alreadyExists entry.silo) else .ok ()) := by
  obtain ⟨hstamped, hkeyed, ⟨row, hrow, hold⟩, hfree⟩ := hawaits
  obtain ⟨stamp, hversion⟩ := Option.isSome_iff_exists.mp hstamped
  refine yields_call hserves hholds (.readRow entry.silo) (by simp) (fun _ => trivial) fun drawn state' hholds' => ?_
  simp only [Deployment.answer, Deployment.readRow_of_version _ hversion, Plan.bind, Snapshot.rowFor?]
  by_cases hsame : entry.silo = old
  · have hfound : (table.rows.get? entry.silo.rowKey).toList.find? (fun row => row.entry.silo == entry.silo) =
        some row := by
      rw [hsame, hrow]
      exact List.find?_cons_of_pos (beq_iff_eq.mpr hold)
    rw [hfound, if_pos hsame]
    exact rfl
  · have hnone : table.rows.get? entry.silo.rowKey = none := by
      refine Option.eq_none_iff_forall_ne_some.mpr fun other hother => hsame (hkey ?_)
      rw [← hkeyed.rowKey_of_get? hother, hfree other hother]
    rw [hnone, if_neg hsame]
    refine yields_call hserves hholds' (.insertRow entry stamp) (by simp) hlegible fun drawn' state'' _ => ?_
    simp only [Deployment.answer, Deployment.insertRow_of_free hversion hnone, Deployment.settle]
    exact yields_publish.mpr rfl

theorem insert_yields_of_awaits (hserves : around.Serves deployment filed holds) (hholds : holds state table)
    (hawaits : table.Awaits old entry.silo) (hkey : entry.silo.rowKey = old.rowKey → entry.silo = old)
    (hlegible : filed → entry.Legible) (policy : Policy) :
    (insert policy entry).Yields around state fun result _ =>
      result = if entry.silo = old then .error (.alreadyExists entry.silo) else .ok () := by
  have hround := insertRound_yields_of_awaits hserves hholds hawaits hkey hlegible
  refine (rounds_yields (fun value _ => value.2 = if entry.silo = old then .error (.alreadyExists entry.silo)
    else .ok ()) (hround.bind ?_) _ _).bind ?_
  · rintro _ state' rfl
    exact ⟨_, rfl, rfl⟩
  · exact fun _ _ hends => hends

end

-- Whoever is not let in has been shown a row of its own.
theorem exists_row_of_alreadyExists {policy : Policy} {entry : Entry} {log : List Happening} {silo : Silo}
    (h : (insert policy entry).Goes log (.error (.alreadyExists silo))) :
    ∃ snapshot row, .called (.readRow entry.silo) (.ok snapshot) ∈ log ∧
      snapshot.rowFor? entry.silo = some row ∧ row.entry.silo = entry.silo := by
  obtain ⟨logs, out, hpursuit, hresult⟩ := exists_pursuit_insert h
  obtain ⟨state, last, hlast, hgoes⟩ := hpursuit.tries.exists_last
  have hmem : ∀ happening ∈ last, happening ∈ log := fun happening hhappening => by
    have hflat : happening ∈ logs.flatten := List.mem_flatten_of_mem hlast hhappening
    rw [← hpursuit.happened] at hflat
    exact (List.mem_filter.mp hflat).1
  obtain ⟨_, round⟩ := out
  cases hgoes with
  | taken snapshot row found =>
    exact ⟨snapshot, row, hmem _ (List.mem_singleton_self _), found, by simpa using List.find?_some found⟩
  | _ => cases hresult

-- A start in a later second of the years that generations count makes a new silo: it succeeds the one of the start
-- before, and nothing that a table may answer has it turned away because of that one's row. Whatever others do since
-- the first start, as long as they do not take the rows of the two, the new silo is turned away on a table that it
-- has to itself exactly if the two starts have got the same generation, and so are the same silo. What is brought to a
-- table in files has to come back from them.
theorem restarts_in_later_seconds_are_new (endpoint : Net.Endpoint) {first later : Instant}
    (hbefore : first.Before later) :
    let old := Silo.startedAt endpoint first
    let young := Silo.startedAt endpoint later
    (young.succeeds old = true ↔ Silo.TellsApart first.second later.second) ∧
    (Silo.TellsApart first.second later.second → ∀ policy entry fortune, entry.silo = young →
      let met := (insert policy entry).meet fortune []
      ∀ silo, met.2 = .error (.alreadyExists silo) → ∃ snapshot row,
        .called (.readRow young) (.ok snapshot) ∈ met.1 ∧ snapshot.rowFor? young = some row ∧
          row.entry.silo = young ∧ row.entry.silo ≠ old) ∧
    (∀ (table next : Deployment) entry stamp operations, entry.silo = old → table.rows.Keyed →
      table.rows.get? young.rowKey = none → table.insertRow entry stamp = .ok (true, next) →
        (∀ operation ∈ operations, Deployment.Operation.Respects old young operation) →
          (next.after operations).Awaits old young) ∧
    ∀ (handle : Handle) hour latency drawn queue policy entry rig table, entry.silo = young →
      (handle.Filed → entry.Legible) → handle.Shows hour.clock latency rig table → table.Awaits old young →
        (handle.carryOut hour drawn queue (insert policy entry) rig).value =
          if young = old then .error (.alreadyExists young) else .ok () := by
  intro old young
  have hsucceeds : young.succeeds old = true ↔ Silo.TellsApart first.second later.second :=
    Silo.succeeds_startedAt_iff hbefore
  refine ⟨hsucceeds, ?_, ?_, ?_⟩
  · intro hapart policy entry fortune hsilo met silo hresult
    have hgoes : (insert policy entry).Goes met.1 (.error (.alreadyExists silo)) :=
      hresult ▸ (insert policy entry).goes_meet fortune []
    obtain ⟨snapshot, row, hcalled, hfound, hown⟩ := exists_row_of_alreadyExists hgoes
    rw [hsilo] at hcalled hfound hown
    exact ⟨snapshot, row, hcalled, hfound, hown, hown ▸ Silo.ne_of_succeeds (hsucceeds.mpr hapart)⟩
  · intro table next entry stamp operations hsilo hkeyed hfree hinsert hrespects
    have hawaits : next.Awaits old young := hsilo ▸ Deployment.awaits_of_insertRow hkeyed hfree hinsert
    exact Deployment.awaits_after hawaits hrespects
  · intro handle hour latency drawn queue policy entry rig table hsilo hlegible hshows hawaits
    have hserves := handle.serves hour latency drawn queue
    rw [← hsilo] at hawaits ⊢
    refine insert_yields_of_awaits hserves hshows hawaits (fun hkey => ?_) hlegible policy
    rw [hsilo] at hkey ⊢
    exact Silo.rowKey_startedAt_eq_iff.mp hkey

-- A silo signs on when its server starts, over and over on one endpoint.
def signOn (start : Instant) : Work Rig (Except UpdateError Unit) :=
  let entry := Entry.fresh (.startedAt (.v4 .loopback 11111) start) "node" start
  Handle.carryOut ⟨.millis, start⟩ 8 (.memory 0 "dep") none (insert .standard entry)

-- A new table is there, and the server has been started once.
def startedOnce (start : Instant) : Rig :=
  (signOn start { Rig.empty with stores := [Store.empty.put ((Deployment.new "dep").establish 7).2] }).state

-- A table that shows everybody a row of theirs that somebody else has brought.
def forestalled : Fortune where
  answer _ call :=
    match call with
    | .readRow silo => .ok ⟨[⟨.fresh silo "other" .epoch, ⟨"r"⟩⟩], ⟨0, "v"⟩⟩
    | call => refusing.answer [] call
  share _ := .never
  now _ := .epoch

def morningAt (second : Int) (nanos : Nat) : Instant := (Instant.ofParts? (1715934600 + second) nanos).getD .epoch

theorem restarts_in_later_seconds_are_new_next_second :
    let first := morningAt 0 900000000
    let later := morningAt 1 100000000
    let old := Silo.startedAt (.v4 .loopback 11111) first
    let young := Silo.startedAt (.v4 .loopback 11111) later
    let entry := Entry.fresh old "node" first
    let registered := ((Deployment.new "dep").establish 7).2.commit entry ⟨0, Deployment.tokenOf 7 1⟩
    let table := registered.after [.updateRow (entry.withStatus .active) ⟨Deployment.tokenOf 7 2⟩
      ⟨1, Deployment.tokenOf 7 3⟩, .mergeAlive entry, .readRow young]
    let rig : Rig := { Rig.empty with stores := [Store.empty.put table] }
    let met := (insert .standard (.fresh young "node" later)).meet forestalled []
    first.Before later ∧ Silo.TellsApart first.second later.second ∧ young.succeeds old = true ∧
    (Handle.memory 0 "dep").Shows .millis .zero rig table ∧ table.Awaits old young ∧
    (signOn later rig).value = .ok () ∧
    met.2 = .error (.alreadyExists young) ∧ ∃ snapshot row,
      .called (.readRow young) (.ok snapshot) ∈ met.1 ∧ snapshot.rowFor? young = some row ∧
        row.entry.silo = young ∧ row.entry.silo ≠ old := by
  intro first later old young entry registered table rig met
  have hbefore : first.Before later := by decide +kernel
  have hapart : Silo.TellsApart first.second later.second := by decide +kernel
  obtain ⟨hsucceeds, hwhatever, hregisters, halone⟩ := restarts_in_later_seconds_are_new (.v4 .loopback 11111) hbefore
  have hawaits : table.Awaits old young := by
    refine hregisters ((Deployment.new "dep").establish 7).2 registered entry ⟨0, Deployment.tokenOf 7 1⟩ _ rfl
      Rows.keyed_empty (Rows.get?_empty _) (by decide +kernel) ?_
    simp only [List.forall_mem_cons]
    refine ⟨⟨nofun, ?_⟩, ⟨nofun, nofun⟩, ⟨nofun, nofun⟩, List.forall_mem_nil _⟩
    rintro _ ⟨⟩ -
    rfl
  have hshows : (Handle.memory 0 "dep").Shows .millis .zero rig table :=
    ⟨rfl, Store.empty.put table, ⟨rfl, rfl⟩, by decide +kernel⟩
  have hmemory : (Handle.memory 0 "dep").Filed → (Entry.fresh young "node" later).Legible := False.elim
  have hmet : met.2 = .error (.alreadyExists young) := by decide +kernel
  refine ⟨hbefore, hapart, hsucceeds.mpr hapart, hshows, hawaits, ?_, hmet,
    hwhatever hapart _ _ forestalled rfl young hmet⟩
  rw [signOn, halone _ _ _ _ _ _ _ _ _ rfl hmemory hshows hawaits, if_neg (by decide +kernel)]

-- A server that is started again before the second is over gets its old silo back, and is turned away.
theorem restart_within_second_turned_away :
    let first := morningAt 0 100000000
    let later := morningAt 0 900000000
    let old := Silo.startedAt (.v4 .loopback 11111) first
    let young := Silo.startedAt (.v4 .loopback 11111) later
    first.Before later ∧ young.succeeds old = false ∧ old.generation = 453630600 ∧ young = old ∧
    (signOn later (startedOnce first)).value = .error (.alreadyExists young) := by
  decide +kernel

end Updater
end Muster
