import Muster.Proofs.Table.Still

-- The life of a table as a row of operations, each seen with the table it met.
namespace Muster.Deployment

-- What can be done to a table. Establishing it draws an incarnation, if it has no stamp yet.
inductive Operation where
  | establish (drawn : UInt64)
  | clear
  | readRow (silo : Silo)
  | readAll
  | insertRow (entry : Entry) (expected : Version)
  | updateRow (entry : Entry) (etag : Etag) (expected : Version)
  | mergeAlive (entry : Entry)
deriving DecidableEq

inductive Outcome where
  | established (created : Bool)
  | cleared
  | shown (result : Except Fault Snapshot)
  | written (result : Except Fault Bool)
  | merged (result : Except Fault Unit)

-- What a piece of work on a table comes to: in a fault the table stays as it was.
def settle (table : Deployment) : Except Fault (α × Deployment) → Except Fault α × Deployment
  | .ok (value, next) => (.ok value, next)
  | .error fault => (.error fault, table)

def perform (table : Deployment) : Operation → Outcome × Deployment
  | .establish drawn =>
    let (created, next) := table.establish drawn
    (.established created, next)
  | .clear => (.cleared, table.clear)
  | .readRow silo => (.shown (table.readRow silo), table)
  | .readAll => (.shown table.readAll, table)
  | .insertRow entry expected =>
    let (answer, next) := table.settle (table.insertRow entry expected)
    (.written answer, next)
  | .updateRow entry etag expected =>
    let (answer, next) := table.settle (table.updateRow entry etag expected)
    (.written answer, next)
  | .mergeAlive entry =>
    let (answer, next) := table.settle ((table.mergeAlive entry).map fun next => ((), next))
    (.merged answer, next)

-- An operation and the table it met.
structure Turn where
  before : Deployment
  operation : Operation

namespace Turn

def outcome (turn : Turn) : Outcome := (turn.before.perform turn.operation).1

def after (turn : Turn) : Deployment := (turn.before.perform turn.operation).2

-- The snapshot that a read gave.
def snapshot? (turn : Turn) : Option Snapshot :=
  match turn.outcome with
  | .shown (.ok snapshot) => some snapshot
  | _ => none

-- The stamp that a write expected, if it won.
def won? (turn : Turn) : Option Version :=
  match turn.operation, turn.outcome with
  | .insertRow _ expected, .written (.ok true) => some expected
  | .updateRow _ _ expected, .written (.ok true) => some expected
  | _, _ => none

-- The incarnation that was drawn to stamp the table.
def drawn? (turn : Turn) : Option UInt64 :=
  match turn.operation, turn.outcome with
  | .establish drawn, .established true => some drawn
  | _, _ => none

end Turn

def stampTokens (table : Deployment) : List String := (table.version.map Version.token).toList

def rowTokens (table : Deployment) (silo : Silo) : List String :=
  ((table.rows.get? silo.rowKey).map fun row => row.etag.token).toList

-- The tokens that are new in the table after a turn: that of its stamp, and that of the row written.
def Turn.issued (turn : Turn) : List String :=
  match turn.operation, turn.outcome with
  | .establish _, .established true => turn.after.stampTokens
  | .insertRow entry _, .written (.ok true) => turn.after.rowTokens entry.silo ++ turn.after.stampTokens
  | .updateRow entry _ _, .written (.ok true) => turn.after.rowTokens entry.silo ++ turn.after.stampTokens
  | _, _ => []

def turns (table : Deployment) : List Operation → List Turn
  | [] => []
  | operation :: rest => ⟨table, operation⟩ :: turns (Turn.mk table operation).after rest

def after (table : Deployment) : List Operation → Deployment
  | [] => table
  | operation :: rest => after (Turn.mk table operation).after rest

theorem turns_append (table : Deployment) (past later : List Operation) :
    table.turns (past ++ later) = table.turns past ++ (table.after past).turns later := by
  induction past generalizing table with
  | nil => rfl
  | cons operation past ih => simp only [List.cons_append, turns, after, ih]

theorem length_turns (table : Deployment) (operations : List Operation) :
    (table.turns operations).length = operations.length := by
  induction operations generalizing table with
  | nil => rfl
  | cons operation rest ih => simp only [turns, List.length_cons, ih]

theorem after_append (table : Deployment) (past later : List Operation) :
    table.after (past ++ later) = (table.after past).after later := by
  induction past generalizing table with
  | nil => rfl
  | cons operation past ih => simp only [List.cons_append, after, ih]

-- The ways in which a turn can go.
inductive Turn.Course (turn : Turn) : Prop where
  -- Nothing changes but alive times.
  | quiet (still : turn.after.still = turn.before.still) (clear : turn.operation ≠ .clear)
      (won : turn.won? = none) (drawn : turn.drawn? = none) (issued : turn.issued = [])
  -- A row is written under the current stamp.
  | write (entry : Entry) (stamp : Version) (version : turn.before.version = some stamp)
      (after : turn.after = turn.before.commit entry stamp) (clear : turn.operation ≠ .clear)
      (won : turn.won? = some stamp) (drawn : turn.drawn? = none)
      (issued : turn.issued = [turn.before.token 1, turn.before.token 2])
  -- A table without a stamp gets one.
  | draw (drawn : UInt64) (version : turn.before.version = none)
      (after : turn.after = { turn.before with
        version := some ⟨0, tokenOf drawn 1⟩, incarnation := drawn, sequence := 1 })
      (clear : turn.operation ≠ .clear) (won : turn.won? = none) (drawn_eq : turn.drawn? = some drawn)
      (issued : turn.issued = [tokenOf drawn 1])
  | clear (after : turn.after = turn.before.clear) (clear : turn.operation = .clear)
      (won : turn.won? = none) (drawn : turn.drawn? = none) (issued : turn.issued = [])

theorem stamp_eq_ok {table : Deployment} {stamp : Version} (h : table.version = some stamp) :
    table.stamp = .ok stamp := by
  rw [Deployment.stamp, h]

theorem stamp_eq_error {table : Deployment} (h : table.version = none) :
    table.stamp = .error (.notInitialized table.id) := by
  rw [Deployment.stamp, h]

theorem readRow_eq_ok {table : Deployment} {silo : Silo} {snapshot : Snapshot}
    (h : table.readRow silo = .ok snapshot) :
    ∃ stamp, table.version = some stamp ∧
      snapshot = .of (table.rows.get? silo.rowKey).toList stamp := by
  cases hversion : table.version with
  | none => simp [readRow, stamp_eq_error hversion, bind, Except.bind] at h
  | some stamp =>
    rw [readRow, stamp_eq_ok hversion] at h
    exact ⟨stamp, rfl, (Except.ok.inj h).symm⟩

theorem readAll_eq_ok {table : Deployment} {snapshot : Snapshot} (h : table.readAll = .ok snapshot) :
    ∃ stamp, table.version = some stamp ∧ snapshot = .of table.rows.values stamp := by
  cases hversion : table.version with
  | none => simp [readAll, stamp_eq_error hversion, bind, Except.bind] at h
  | some stamp =>
    rw [readAll, stamp_eq_ok hversion] at h
    exact ⟨stamp, rfl, (Except.ok.inj h).symm⟩

theorem insertRow_cases (table : Deployment) (entry : Entry) (expected : Version) :
    (table.version = some expected ∧ table.rows.get? entry.silo.rowKey = none ∧
      table.insertRow entry expected = .ok (true, table.commit entry expected)) ∨
    table.insertRow entry expected = .ok (false, table) ∨
    (table.version = none ∧ table.insertRow entry expected = .error (.notInitialized table.id)) := by
  unfold insertRow
  cases hversion : table.version with
  | none => exact Or.inr (Or.inr ⟨rfl, by rw [stamp_eq_error hversion]; rfl⟩)
  | some version =>
    rw [stamp_eq_ok hversion]
    by_cases hexpected : version = expected
    · subst hexpected
      cases hrow : table.rows.get? entry.silo.rowKey with
      | none => exact Or.inl ⟨rfl, rfl, by simp [bind, Except.bind]⟩
      | some row => exact Or.inr (Or.inl (by simp [bind, Except.bind]))
    · exact Or.inr (Or.inl (by simp [bind, Except.bind, hexpected]))

theorem updateRow_cases (table : Deployment) (entry : Entry) (etag : Etag) (expected : Version) :
    (table.version = some expected ∧
      (∃ row, table.rows.get? entry.silo.rowKey = some row ∧ row.etag = etag) ∧
      table.updateRow entry etag expected = .ok (true, table.commit entry expected)) ∨
    table.updateRow entry etag expected = .ok (false, table) ∨
    (table.version = none ∧ table.updateRow entry etag expected = .error (.notInitialized table.id)) := by
  unfold updateRow
  cases hversion : table.version with
  | none => exact Or.inr (Or.inr ⟨rfl, by rw [stamp_eq_error hversion]; rfl⟩)
  | some version =>
    rw [stamp_eq_ok hversion]
    by_cases hexpected : version = expected
    · subst hexpected
      cases hrow : table.rows.get? entry.silo.rowKey with
      | none => exact Or.inr (Or.inl (by simp [bind, Except.bind]))
      | some row =>
        by_cases hetag : row.etag = etag
        · exact Or.inl ⟨rfl, ⟨row, rfl, hetag⟩, by simp [bind, Except.bind, hetag]⟩
        · exact Or.inr (Or.inl (by simp [bind, Except.bind, hetag]))
    · exact Or.inr (Or.inl (by simp [bind, Except.bind, hexpected]))

section
variable {table : Deployment} {entry : Entry} {stamp : Version} {row : Row}

theorem insertRow_of_free (hversion : table.version = some stamp) (hfree : table.rows.get? entry.silo.rowKey = none) :
    table.insertRow entry stamp = .ok (true, table.commit entry stamp) := by
  simp [insertRow, stamp_eq_ok hversion, hfree, bind, Except.bind]

theorem updateRow_of_found (entry : Entry) (hversion : table.version = some stamp)
    (hfound : table.rows.get? entry.silo.rowKey = some row) :
    table.updateRow entry row.etag stamp = .ok (true, table.commit entry stamp) := by
  simp [updateRow, stamp_eq_ok hversion, hfound, bind, Except.bind]

end

theorem mergeAlive_cases (table : Deployment) (entry : Entry) :
    (table.version ≠ none ∧ ∃ next, table.mergeAlive entry = .ok next ∧ next.still = table.still) ∨
    (table.version = none ∧ table.mergeAlive entry = .error (.notInitialized table.id)) := by
  unfold mergeAlive
  cases hversion : table.version with
  | none => exact Or.inr ⟨rfl, by rw [stamp_eq_error hversion]; rfl⟩
  | some version =>
    rw [stamp_eq_ok hversion]
    refine Or.inl ⟨by simp, _, rfl, ?_⟩
    simp only [still, hversion,
      Rows.still_adjust _ _ fun row => Row.still_withAliveTime row entry.aliveTime]

theorem get?_of_mergeAlive {table next : Deployment} {entry : Entry} (h : table.mergeAlive entry = .ok next)
    (key : String) :
    next.rows.get? key = (table.rows.get? key).map fun row =>
      if key = entry.silo.rowKey then { row with entry := row.entry.withAliveTime entry.aliveTime } else row := by
  unfold mergeAlive at h
  cases hversion : table.version with
  | none => simp [stamp_eq_error hversion, bind, Except.bind] at h
  | some version =>
    rw [stamp_eq_ok hversion] at h
    rw [← Except.ok.inj h]
    exact Rows.get?_adjust _ _ _ _

theorem commit_tokens (table : Deployment) (entry : Entry) (stamp : Version) :
    (table.commit entry stamp).rowTokens entry.silo ++ (table.commit entry stamp).stampTokens =
      [table.token 1, table.token 2] := by
  simp [commit, rowTokens, stampTokens, Version.next]

namespace Turn

theorem course (turn : Turn) : turn.Course := by
  obtain ⟨table, operation⟩ := turn
  cases operation with
  | establish drawn =>
    cases hversion : table.version with
    | none =>
      refine .draw drawn hversion ?_ (by simp) rfl ?_ ?_ <;>
        simp [drawn?, issued, outcome, after, perform, establish, hversion, stampTokens]
    | some version =>
      refine .quiet ?_ (by simp) rfl ?_ ?_ <;>
        simp [drawn?, issued, outcome, after, perform, establish, hversion]
  | clear => exact .clear rfl rfl rfl rfl rfl
  | readRow silo => exact .quiet rfl (by simp) rfl rfl rfl
  | readAll => exact .quiet rfl (by simp) rfl rfl rfl
  | insertRow entry expected =>
    obtain ⟨hversion, _, hwrite⟩ | hwrite | ⟨_, hwrite⟩ := table.insertRow_cases entry expected
    · refine .write entry expected hversion ?_ (by simp) ?_ rfl ?_ <;>
        simp [won?, issued, outcome, after, perform, settle, hwrite, commit_tokens]
    · refine .quiet ?_ (by simp) ?_ rfl ?_ <;>
        simp [won?, issued, outcome, after, perform, settle, hwrite]
    · refine .quiet ?_ (by simp) ?_ rfl ?_ <;>
        simp [won?, issued, outcome, after, perform, settle, hwrite]
  | updateRow entry etag expected =>
    obtain ⟨hversion, _, hwrite⟩ | hwrite | ⟨_, hwrite⟩ := table.updateRow_cases entry etag expected
    · refine .write entry expected hversion ?_ (by simp) ?_ rfl ?_ <;>
        simp [won?, issued, outcome, after, perform, settle, hwrite, commit_tokens]
    · refine .quiet ?_ (by simp) ?_ rfl ?_ <;>
        simp [won?, issued, outcome, after, perform, settle, hwrite]
    · refine .quiet ?_ (by simp) ?_ rfl ?_ <;>
        simp [won?, issued, outcome, after, perform, settle, hwrite]
  | mergeAlive entry =>
    obtain ⟨_, next, hmerge, hstill⟩ | ⟨_, hmerge⟩ := table.mergeAlive_cases entry
    · refine .quiet ?_ (by simp) rfl rfl rfl
      simp [after, perform, settle, hmerge, Except.map, hstill]
    · refine .quiet ?_ (by simp) rfl rfl rfl
      simp [after, perform, settle, hmerge, Except.map]

theorem version_of_won {turn : Turn} {stamp : Version} (h : turn.won? = some stamp) :
    turn.before.version = some stamp := by
  cases turn.course with
  | quiet _ _ hwon => simp [hwon] at h
  | write _ _ hversion _ _ hwon => exact hversion.trans (hwon.symm.trans h)
  | draw _ _ _ _ hwon => simp [hwon] at h
  | clear _ _ hwon => simp [hwon] at h

-- A snapshot shows the table it was read from: one row of it or all of them.
theorem snapshot_cases {turn : Turn} {snapshot : Snapshot} (h : turn.snapshot? = some snapshot) :
    ∃ stamp, turn.before.version = some stamp ∧
      ((∃ silo, turn.operation = .readRow silo ∧
          snapshot = .of (turn.before.rows.get? silo.rowKey).toList stamp) ∨
        (turn.operation = .readAll ∧ snapshot = .of turn.before.rows.values stamp)) := by
  obtain ⟨table, operation⟩ := turn
  cases operation with
  | readRow silo =>
    cases hread : table.readRow silo with
    | error fault => simp [snapshot?, outcome, perform, hread] at h
    | ok shown =>
      obtain ⟨stamp, hversion, hshown⟩ := readRow_eq_ok hread
      simp only [snapshot?, outcome, perform, hread, Option.some.injEq] at h
      exact ⟨stamp, hversion, Or.inl ⟨silo, rfl, h ▸ hshown⟩⟩
  | readAll =>
    cases hread : table.readAll with
    | error fault => simp [snapshot?, outcome, perform, hread] at h
    | ok shown =>
      obtain ⟨stamp, hversion, hshown⟩ := readAll_eq_ok hread
      simp only [snapshot?, outcome, perform, hread, Option.some.injEq] at h
      exact ⟨stamp, hversion, Or.inr ⟨rfl, h ▸ hshown⟩⟩
  | _ => simp [snapshot?, outcome, perform] at h

theorem version_of_snapshot {turn : Turn} {snapshot : Snapshot} (h : turn.snapshot? = some snapshot) :
    turn.before.version = some snapshot.version := by
  obtain ⟨stamp, hversion, ⟨silo, -, hshown⟩ | ⟨-, hshown⟩⟩ := snapshot_cases h <;>
    rw [hversion, hshown, Snapshot.of]

end Turn

-- A turn of a run: the operations before it made the table it met.
theorem exists_of_sublist_turns {table : Deployment} {operations : List Operation} {turn : Turn}
    {more : List Turn} (h : (turn :: more).Sublist (table.turns operations)) :
    ∃ past later, operations = past ++ turn.operation :: later ∧ turn.before = table.after past ∧
      more.Sublist (turn.after.turns later) := by
  induction operations generalizing table with
  | nil => cases h
  | cons operation rest ih =>
    cases h with
    | cons _ h =>
      obtain ⟨past, later, hrest, hbefore, hmore⟩ := ih h
      exact ⟨operation :: past, later, by rw [hrest, List.cons_append], hbefore, hmore⟩
    | cons_cons _ h => exact ⟨[], rest, rfl, rfl, h⟩

theorem exists_between_of_sublist_turns {table : Deployment} {operations : List Operation}
    {first last : Turn} (h : [first, last].Sublist (table.turns operations)) :
    ∃ past rest later, operations = past ++ (first.operation :: rest) ++ later ∧
      first.before = table.after past ∧
      last.before = (table.after past).after (first.operation :: rest) := by
  obtain ⟨past, more, rfl, hfirst, hmore⟩ := exists_of_sublist_turns h
  obtain ⟨rest, later, rfl, hlast, -⟩ := exists_of_sublist_turns hmore
  refine ⟨past, rest, last.operation :: later, by simp, hfirst, ?_⟩
  rw [hlast, after, ← hfirst]

end Muster.Deployment
