import Muster.Proofs.Table.Turn

-- Two lives of one table, of which the second leaves out some heartbeats. Nobody can tell them apart by
-- anything but alive times.
namespace Muster

theorem Rows.place_still (key : String) (row : Row) (rows : List (String × Row)) :
    place key row.still (rows.map fun (key, row) => (key, row.still)) =
      (place key row rows).map fun (key, row) => (key, row.still) := by
  induction rows with
  | nil => rfl
  | cons head rest ih =>
    obtain ⟨k, r⟩ := head
    simp only [List.map_cons, place]
    split
    · rfl
    · split
      · rw [ih, List.map_cons]
      · rfl

theorem Rows.still_insert (rows : Rows) (key : String) (row : Row) :
    (rows.insert key row).still = rows.still.insert key row.still := by
  simp only [insert, still, Rows.mk.injEq]
  exact (place_still key row rows.toList).symm

theorem Rows.still_still (rows : Rows) : rows.still.still = rows.still := by
  simp [still, Row.still, Entry.withAliveTime, Function.comp_def]

-- A snapshot as it is but for alive times.
def Snapshot.still (snapshot : Snapshot) : Snapshot := { snapshot with rows := snapshot.rows.map Row.still }

theorem Snapshot.still_of (rows : List Row) (version : Version) :
    (of rows version).still = of (rows.map Row.still) version := by
  simp only [of, still, Snapshot.mk.injEq, and_true]
  exact List.map_mergeSort fun a _ b _ => rfl

namespace Deployment

-- What an operation comes to, apart from the alive times that it shows.
def Outcome.still : Outcome → Outcome
  | shown result => shown (result.map Snapshot.still)
  | outcome => outcome

def Operation.isHeartbeat : Operation → Bool
  | mergeAlive _ => true
  | _ => false

theorem get?_rows_still (table : Deployment) (key : String) :
    table.still.rows.get? key = (table.rows.get? key).map Row.still := Rows.get?_still _ _

theorem still_commit (table : Deployment) (entry : Entry) (stamp : Version) :
    (table.still.commit entry stamp).still = (table.commit entry stamp).still := by
  simp only [commit, still, Rows.still_insert, Rows.still_still]
  rfl

theorem still_still (table : Deployment) : table.still.still = table.still := by
  simp only [still, Rows.still_still]

-- What a piece of work on a table comes to, and the table after it, apart from alive times.
def stillResult : Except Fault (α × Deployment) → Except Fault (α × Deployment) :=
  Except.map fun (value, next) => (value, next.still)

theorem settle_still {table : Deployment} {still result : Except Fault (α × Deployment)}
    (h : stillResult still = stillResult result) :
    (table.still.settle still).1 = (table.settle result).1 ∧
      (table.still.settle still).2.still = (table.settle result).2.still := by
  cases still with
  | error fault =>
    cases result with
    | error fault' => exact ⟨congrArg Except.error (Except.error.inj h), still_still table⟩
    | ok worked => cases h
  | ok next =>
    cases result with
    | error fault => cases h
    | ok worked =>
      obtain ⟨hvalue, hnext⟩ := Prod.mk.inj (Except.ok.inj h)
      exact ⟨congrArg Except.ok hvalue, hnext⟩

section
variable (table : Deployment)

theorem still_insertRow (entry : Entry) (expected : Version) :
    stillResult (table.still.insertRow entry expected) = stillResult (table.insertRow entry expected) := by
  unfold insertRow
  rw [get?_rows_still, show table.still.stamp = table.stamp from rfl]
  cases table.stamp with
  | error fault => rfl
  | ok version =>
    simp only [bind, Except.bind]
    split
    · simp only [stillResult, Except.map, still_still]
    · cases table.rows.get? entry.silo.rowKey with
      | none => simp only [Option.map_none, stillResult, Except.map, still_commit]
      | some row => simp only [Option.map_some, stillResult, Except.map, still_still]

theorem still_updateRow (entry : Entry) (etag : Etag) (expected : Version) :
    stillResult (table.still.updateRow entry etag expected) = stillResult (table.updateRow entry etag expected) := by
  unfold updateRow
  rw [get?_rows_still, show table.still.stamp = table.stamp from rfl]
  cases table.stamp with
  | error fault => rfl
  | ok version =>
    simp only [bind, Except.bind]
    split
    · simp only [stillResult, Except.map, still_still]
    · cases table.rows.get? entry.silo.rowKey with
      | none => simp only [Option.map_none, stillResult, Except.map, still_still]
      | some row =>
        rw [Option.map_some]
        by_cases hetag : row.etag = etag
        · simp only [Row.still, hetag, if_true, stillResult, Except.map, still_commit]
        · simp only [Row.still, hetag, if_false, stillResult, Except.map, still_still]

theorem still_readRow (silo : Silo) :
    (table.still.readRow silo).map Snapshot.still = (table.readRow silo).map Snapshot.still := by
  unfold readRow
  rw [get?_rows_still, show table.still.stamp = table.stamp from rfl]
  cases table.stamp with
  | error fault => rfl
  | ok version =>
    simp only [bind, Except.bind, Except.map, Snapshot.still_of]
    cases table.rows.get? silo.rowKey <;> rfl

theorem still_readAll : table.still.readAll.map Snapshot.still = table.readAll.map Snapshot.still := by
  unfold readAll
  rw [show table.still.rows.values = table.rows.values.map Row.still from Rows.values_still _,
    show table.still.stamp = table.stamp from rfl]
  cases table.stamp with
  | error fault => rfl
  | ok version =>
    simp only [bind, Except.bind, Except.map, Snapshot.still_of, List.map_map]
    rfl

theorem still_mergeAlive (entry : Entry) :
    stillResult ((table.still.mergeAlive entry).map fun next => ((), next)) =
      stillResult ((table.mergeAlive entry).map fun next => ((), next)) := by
  obtain ⟨hversion, next, hmerge, hnext⟩ | ⟨hversion, hmerge⟩ := table.mergeAlive_cases entry
  · obtain ⟨-, next', hmerge', hnext'⟩ | ⟨hnone, -⟩ := table.still.mergeAlive_cases entry
    · simp only [hmerge, hmerge', stillResult, Except.map, hnext, hnext', still_still]
    · exact absurd hnone hversion
  · obtain ⟨hsome, -⟩ | ⟨-, hmerge'⟩ := table.still.mergeAlive_cases entry
    · exact absurd hversion hsome
    · rw [hmerge, hmerge']
      rfl

-- No operation looks at alive times.
theorem perform_still (operation : Operation) :
    (table.still.perform operation).1.still = (table.perform operation).1.still ∧
      (table.still.perform operation).2.still = (table.perform operation).2.still := by
  cases operation with
  | establish drawn =>
    cases hversion : table.version with
    | none => simp [perform, establish, still, hversion, Rows.still_still]
    | some version => simp [perform, establish, still, hversion, Rows.still_still]
  | clear => exact ⟨rfl, rfl⟩
  | readRow silo => exact ⟨congrArg Outcome.shown (table.still_readRow silo), table.still_still⟩
  | readAll => exact ⟨congrArg Outcome.shown table.still_readAll, table.still_still⟩
  | insertRow entry expected =>
    obtain ⟨hvalue, hnext⟩ := settle_still (table.still_insertRow entry expected)
    exact ⟨congrArg Outcome.written hvalue, hnext⟩
  | updateRow entry etag expected =>
    obtain ⟨hvalue, hnext⟩ := settle_still (table.still_updateRow entry etag expected)
    exact ⟨congrArg Outcome.written hvalue, hnext⟩
  | mergeAlive entry =>
    obtain ⟨hvalue, hnext⟩ := settle_still (table.still_mergeAlive entry)
    exact ⟨congrArg Outcome.merged hvalue, hnext⟩

end

theorem perform_of_still {a b : Deployment} (h : a.still = b.still) (operation : Operation) :
    (a.perform operation).1.still = (b.perform operation).1.still ∧
      (a.perform operation).2.still = (b.perform operation).2.still := by
  obtain ⟨houtcome, hnext⟩ := a.perform_still operation
  rw [← houtcome, ← hnext, h]
  exact b.perform_still operation

theorem still_perform_heartbeat (table : Deployment) {operation : Operation} (h : operation.isHeartbeat) :
    (table.perform operation).2.still = table.still := by
  cases operation with
  | mergeAlive entry =>
    obtain ⟨-, next, hmerge, hnext⟩ | ⟨-, hmerge⟩ := table.mergeAlive_cases entry
    · simp [perform, settle, hmerge, Except.map, hnext]
    · simp [perform, settle, hmerge, Except.map]
  | _ => cases h

-- What a turn comes to and the table after it, apart from alive times.
def Turn.shown (turn : Turn) : Outcome × Deployment := (turn.outcome.still, turn.after.still)

-- What is marked to stay.
def staying (marked : List (α × Bool)) : List α := (marked.filter Prod.snd).map Prod.fst

theorem staying_cons (item : α) (stays : Bool) (rest : List (α × Bool)) :
    staying ((item, stays) :: rest) = if stays then item :: staying rest else staying rest := by
  cases stays <;> rfl

theorem runs_agree {a b : Deployment} (h : a.still = b.still) (marked : List (Operation × Bool))
    (hmarked : ∀ operation, (operation, false) ∈ marked → operation.isHeartbeat) :
    (staying ((a.turns (marked.map Prod.fst)).zip (marked.map Prod.snd))).map Turn.shown =
        (b.turns (staying marked)).map Turn.shown ∧
      (a.after (marked.map Prod.fst)).still = (b.after (staying marked)).still := by
  induction marked generalizing a b with
  | nil => exact ⟨rfl, h⟩
  | cons head rest ih =>
    obtain ⟨operation, stays⟩ := head
    have hrest := fun other hother => hmarked other (List.mem_cons_of_mem _ hother)
    simp only [List.map_cons, turns, after, List.zip_cons_cons, staying_cons]
    cases stays with
    | true =>
      obtain ⟨houtcome, hnext⟩ := perform_of_still h operation
      obtain ⟨hturns, hafter⟩ := ih hnext hrest
      have hshown : Turn.shown ⟨a, operation⟩ = Turn.shown ⟨b, operation⟩ := Prod.ext houtcome hnext
      simp only [if_true, List.map_cons, turns, after, hshown]
      exact ⟨congrArg _ hturns, hafter⟩
    | false =>
      have hbeat := hmarked operation List.mem_cons_self
      exact ih ((a.still_perform_heartbeat hbeat).trans h) hrest

-- Whichever heartbeats are left out of a life of a table, all other operations come to the same, and so
-- does the table, apart from alive times.
theorem heartbeats_leave_no_trace (table : Deployment) (marked : List (Operation × Bool))
    (h : ∀ operation, (operation, false) ∈ marked → operation.isHeartbeat) :
    (staying ((table.turns (marked.map Prod.fst)).zip (marked.map Prod.snd))).map Turn.shown =
        (table.turns (staying marked)).map Turn.shown ∧
      (table.after (marked.map Prod.fst)).still = (table.after (staying marked)).still :=
  runs_agree rfl marked h

-- Of three heartbeats the first and the last are left out. The second comes between a reading and the
-- write that goes by it.
def beaten : List (Operation × Bool) :=
  let entry := Entry.fresh (.onLoopback 11111 1) "a" .epoch
  let beat := Operation.mergeAlive (entry.withAliveTime ((Instant.ofParts? 60 0).getD .epoch))
  [(.establish 7, true), (beat, false), (.insertRow entry ⟨0, tokenOf 7 1⟩, true), (.readRow entry.silo, true),
    (beat, true), (.updateRow (entry.withStatus .active) ⟨tokenOf 7 2⟩ ⟨1, tokenOf 7 3⟩, true), (beat, false),
    (.readAll, true)]

theorem heartbeats_leave_no_trace_beaten :
    (∀ operation, (operation, false) ∈ beaten → operation.isHeartbeat) ∧
    (staying (((new "d").turns (beaten.map Prod.fst)).zip (beaten.map Prod.snd))).map Turn.shown =
      ((new "d").turns (staying beaten)).map Turn.shown ∧
    ((new "d").after (beaten.map Prod.fst)).still = ((new "d").after (staying beaten)).still ∧
    ((new "d").turns (staying beaten)).countP (fun turn => turn.won?.isSome) = 2 := by
  have hbeats : ∀ operation, (operation, false) ∈ beaten → operation.isHeartbeat := by
    intro operation hmem
    simp only [beaten, List.mem_cons, Prod.mk.injEq, Bool.false_eq_true, and_false, and_true, false_or,
      List.not_mem_nil, or_false, or_self] at hmem
    rw [hmem]
    rfl
  obtain ⟨hturns, hafter⟩ := heartbeats_leave_no_trace (new "d") beaten hbeats
  exact ⟨hbeats, hturns, hafter, by decide +kernel⟩

end Deployment
end Muster
