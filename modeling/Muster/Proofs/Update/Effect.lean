import Muster.Proofs.Update.Account

-- What one call of a party does to the table: nothing but to set alive times, or exactly what its task
-- makes of the row that stands there.
namespace Muster.Updater

section
variable {task : Task} {stage : Stage} {drawn : UInt64} {call : Call} {id : String}

theorem Task.May.operation_ne_clear (h : task.May stage call) : call.operation drawn id ≠ .clear := by
  cases h <;> simp [Call.operation]

theorem Task.May.drawn?_eq_none (h : task.May stage call) (table : Deployment) :
    (Deployment.Turn.mk table (call.operation drawn id)).drawn? = none := by
  cases h <;> rfl

end

theorem Exchange.readRow_of_next_eq_read {exchange : Exchange} {stage : Stage} {snapshot : Snapshot}
    (h : stage.next exchange.call exchange.answer = .read snapshot) :
    ∃ silo, exchange.call = .readRow silo ∧ exchange.before.readRow silo = .ok snapshot := by
  obtain ⟨party, task, drawn, call, before⟩ := exchange
  simp only [answer] at h
  generalize hanswer : (before.answer drawn call).1 = answer at h
  unfold Stage.next at h
  split at h <;> try contradiction
  next silo shown _ =>
    obtain rfl := Stage.read.inj h
    exact ⟨silo, rfl, hanswer⟩

-- A party that has read a snapshot read it by its last call.
theorem exists_of_stageOf_eq_read {party : Nat} {log : List Exchange} {snapshot : Snapshot}
    (h : stageOf party log = .read snapshot) :
    ∃ past read between silo, log = past ++ read :: between ∧ read.party = party ∧
      read.call = .readRow silo ∧ read.before.readRow silo = .ok snapshot ∧
      ∀ exchange ∈ between, exchange.party ≠ party := by
  rcases log.eq_nil_or_concat with rfl | ⟨log, exchange, rfl⟩
  · cases h
  · rw [List.concat_eq_append] at h ⊢
    by_cases hparty : exchange.party = party
    · subst hparty
      rw [stageOf_concat_self] at h
      obtain ⟨silo, hcall, hanswer⟩ := Exchange.readRow_of_next_eq_read h
      exact ⟨log, exchange, [], silo, rfl, rfl, hcall, hanswer, by simp⟩
    · rw [stageOf_append_of_ne log (by simpa using hparty)] at h
      obtain ⟨past, read, between, silo, rfl, hread, hcall, hanswer, hothers⟩ := exists_of_stageOf_eq_read h
      refine ⟨past, read, between ++ [exchange], silo, by simp, hread, hcall, hanswer, ?_⟩
      intro other hmem
      rcases List.mem_append.mp hmem with hmem | hmem
      · exact hothers other hmem
      · exact List.mem_singleton.mp hmem ▸ hparty
termination_by log.length

namespace Exchange

theorem won_cases {exchange : Exchange} (h : exchange.won) :
    (∃ entry stamp, exchange.call = .insertRow entry stamp ∧ exchange.before.version = some stamp ∧
      exchange.before.rows.get? entry.silo.rowKey = none ∧
      exchange.after = exchange.before.commit entry stamp) ∨
    (∃ entry stamp row, exchange.call = .updateRow entry row.etag stamp ∧
      exchange.before.version = some stamp ∧ exchange.before.rows.get? entry.silo.rowKey = some row ∧
      exchange.after = exchange.before.commit entry stamp) := by
  obtain ⟨party, task, drawn, call, before⟩ := exchange
  cases call with
  | insertRow entry stamp =>
      obtain ⟨hversion, hfree, hwrite⟩ | hwrite | ⟨_, hwrite⟩ := before.insertRow_cases entry stamp
      · refine Or.inl ⟨entry, stamp, rfl, hversion, hfree, ?_⟩
        simp [after, Deployment.answer, Deployment.settle, hwrite]
      · simp [won, answer, Deployment.answer, Deployment.settle, hwrite, Call.wins] at h
      · simp [won, answer, Deployment.answer, Deployment.settle, hwrite, Call.wins] at h
  | updateRow entry etag stamp =>
      obtain ⟨hversion, ⟨row, hrow, rfl⟩, hwrite⟩ | hwrite | ⟨_, hwrite⟩ :=
        before.updateRow_cases entry etag stamp
      · refine Or.inr ⟨entry, stamp, row, rfl, hversion, hrow, ?_⟩
        simp [after, Deployment.answer, Deployment.settle, hwrite]
      · simp [won, answer, Deployment.answer, Deployment.settle, hwrite, Call.wins] at h
      · simp [won, answer, Deployment.answer, Deployment.settle, hwrite, Call.wins] at h
  | _ => cases h

theorem still_of_not_won {exchange : Exchange} {stage : Stage} (hmay : exchange.task.May stage exchange.call)
    (h : exchange.won = false) : exchange.after.still = exchange.before.still := by
  rw [won_eq_isSome] at h
  rw [← after_turn]
  cases exchange.turn.course with
  | quiet hstill => exact hstill
  | write _ _ _ _ _ hwon => simp [hwon] at h
  | draw drawn _ _ _ _ hdrawn => simp [turn, operation, hmay.drawn?_eq_none] at hdrawn
  | clear _ hclear => exact absurd hclear hmay.operation_ne_clear

-- A call that is no heartbeat and wins nothing leaves the table as it is.
theorem after_eq_of_lost {exchange : Exchange} {stage : Stage} (hmay : exchange.task.May stage exchange.call)
    (hlost : exchange.won = false) (hbeat : ∀ entry, exchange.call ≠ .mergeAlive entry) :
    exchange.after = exchange.before := by
  obtain ⟨party, task, drawn, call, before⟩ := exchange
  dsimp only at hmay hbeat
  cases hmay with
  | look => rfl
  | insert entry snapshot =>
      obtain ⟨_, _, hwrite⟩ | hwrite | ⟨_, hwrite⟩ := before.insertRow_cases entry snapshot.version
      · simp [won, answer, Deployment.answer, Deployment.settle, hwrite, Call.wins] at hlost
      · simp [after, Deployment.answer, Deployment.settle, hwrite]
      · simp [after, Deployment.answer, Deployment.settle, hwrite]
  | revise row entry snapshot =>
      obtain ⟨_, _, hwrite⟩ | hwrite | ⟨_, hwrite⟩ := before.updateRow_cases entry row.etag snapshot.version
      · simp [won, answer, Deployment.answer, Deployment.settle, hwrite, Call.wins] at hlost
      · simp [after, Deployment.answer, Deployment.settle, hwrite]
      · simp [after, Deployment.answer, Deployment.settle, hwrite]
  | beat entry aliveTime => exact absurd rfl (hbeat _)

theorem after_of_mergeAlive {exchange : Exchange} {entry : Entry} (hcall : exchange.call = .mergeAlive entry) :
    exchange.after = exchange.before ∨ exchange.before.mergeAlive entry = .ok exchange.after := by
  obtain ⟨party, task, drawn, call, before⟩ := exchange
  obtain rfl : call = .mergeAlive entry := hcall
  cases hmerge : before.mergeAlive entry with
  | error fault => exact Or.inl (by simp [after, Deployment.answer, Deployment.settle, hmerge, Except.map])
  | ok next => exact Or.inr (by simp [after, Deployment.answer, Deployment.settle, hmerge, Except.map])

-- A call that writes nothing at all leaves the table as it is, alive times too.
theorem after_eq_of_not_written {exchange : Exchange} {stage : Stage}
    (hmay : exchange.task.May stage exchange.call)
    (h : ∀ entry, stage.next exchange.call exchange.answer ≠ .written entry) :
    exchange.after = exchange.before := by
  have hlost : exchange.won = false := by
    cases hwon : exchange.won with
    | false => rfl
    | true => exact absurd (next_of_won hwon hmay.ne_written) (h _)
  by_cases hbeat : ∃ entry, exchange.call = .mergeAlive entry
  · obtain ⟨entry, hcall⟩ := hbeat
    obtain ⟨party, task, drawn, call, before⟩ := exchange
    obtain rfl : call = .mergeAlive entry := hcall
    cases hmerge : before.mergeAlive entry with
    | error fault => simp [after, Deployment.answer, Deployment.settle, hmerge, Except.map]
    | ok next =>
        have hidle : stage = .idle := hmay.of_mergeAlive
        simp [answer, Deployment.answer, Deployment.settle, hmerge, Except.map, Stage.next, hidle] at h
  · exact after_eq_of_lost hmay hlost fun entry hcall => hbeat ⟨entry, hcall⟩

end Exchange

-- The ways in which a call can go.
inductive Exchange.Effect (exchange : Exchange) : Prop where
  | quiet (won : exchange.won = false) (still : exchange.after.still = exchange.before.still)
  -- A row is put where there was none.
  | insert (entry : Entry) (stamp : Version) (won : exchange.won = true)
      (call : exchange.call = .insertRow entry stamp) (task_eq : exchange.task = .insert entry)
      (free : exchange.before.rows.get? entry.silo.rowKey = none)
      (after : exchange.after = exchange.before.commit entry stamp)
  -- The row that stands there is put forward. The entry that it was decided on can only differ from it
  -- in its alive time.
  | revise (current entry : Entry) (stored : Row) (stamp : Version) (won : exchange.won = true)
      (call : exchange.call = .updateRow entry stored.etag stamp) (silo : entry.silo = exchange.task.silo)
      (found : exchange.before.rows.get? exchange.task.silo.rowKey = some stored)
      (still : stored.still = Row.still ⟨current, stored.etag⟩)
      (revises : exchange.task.Revises current entry)
      (after : exchange.after = exchange.before.commit entry stamp)

namespace World

variable {origin : Deployment} {world : World} {past between later : List Exchange}

theorem Accounted.before_eq (h : world.Accounted origin) {exchange : Exchange}
    (hlog : world.log = past ++ exchange :: later) :
    exchange.before = origin.after (past.map Exchange.operation) :=
  (hlog ▸ h.linked : Linked origin (past ++ exchange :: later)).append.2.before_eq

theorem Accounted.after_eq (h : world.Accounted origin) {exchange : Exchange}
    (hlog : world.log = past ++ exchange :: later) :
    exchange.after = origin.after ((past ++ [exchange]).map Exchange.operation) := by
  rw [List.map_append, Deployment.after_append, ← h.before_eq hlog, ← exchange.after_turn]
  rfl

theorem Accounted.linked_between (h : world.Accounted origin) {first last : Exchange}
    (hlog : world.log = past ++ first :: (between ++ last :: later)) :
    Linked first.before (first :: between) ∧
    last.before = first.before.after ((first :: between).map Exchange.operation) := by
  have hlinked := (hlog ▸ h.linked : Linked origin (past ++ first :: (between ++ last :: later))).append.2
  rw [← h.before_eq hlog, ← List.cons_append] at hlinked
  exact ⟨hlinked.append.1, hlinked.append.2.before_eq⟩

theorem Accounted.may_of_mem (h : world.Accounted origin) {exchange : Exchange} (hmem : exchange ∈ world.log) :
    ∃ stage, exchange.task.May stage exchange.call := by
  obtain ⟨past, later, hlog⟩ := List.append_of_mem hmem
  exact ⟨_, h.may past exchange later hlog⟩

section
variable {first last : Exchange} {stamp : Version}

-- Between two calls that met one stamp no write won.
theorem Accounted.lost_between (h : world.Accounted origin) (hstamped : origin.Stamped)
    (hlog : world.log = past ++ first :: (between ++ last :: later))
    (hfirst : first.before.version = some stamp) (hlast : last.before.version = some stamp)
    (hfew : (first :: between).countP Exchange.won < 2 ^ 63) :
    ∀ exchange ∈ first :: between, (∃ stage, exchange.task.May stage exchange.call) ∧ exchange.won = false := by
  obtain ⟨hlinked, hbetween⟩ := h.linked_between hlog
  have hmay : ∀ exchange ∈ first :: between, ∃ stage, exchange.task.May stage exchange.call := by
    intro exchange hmem
    apply h.may_of_mem
    rw [hlog, ← List.cons_append]
    exact List.mem_append_right _ (List.mem_append_left _ hmem)
  have hdrawn : Deployment.drawn (first.before.turns ((first :: between).map Exchange.operation)) = [] := by
    rw [← hlinked, Deployment.drawn, List.filterMap_eq_nil_iff]
    intro turn hturn
    obtain ⟨exchange, hmem, rfl⟩ := List.mem_map.mp hturn
    obtain ⟨stage, hmay⟩ := hmay exchange hmem
    exact hmay.drawn?_eq_none _
  have hfirstStamped : first.before.Stamped := by
    rw [h.before_eq hlog]
    exact Deployment.stamped_after hstamped _
  rw [hbetween] at hlast
  obtain ⟨-, hwins, -⟩ := Deployment.calm_of_version_eq hfirstStamped hfirst hlast
    (by rw [hdrawn]; exact List.not_mem_nil) (fun _ => by rwa [hlinked.wins_eq])
  rw [hlinked.wins_eq, List.countP_eq_zero] at hwins
  intro exchange hmem
  exact ⟨hmay exchange hmem, Bool.eq_false_iff.mpr (hwins exchange hmem)⟩

-- So they met one table, alive times apart.
theorem Accounted.still_eq (h : world.Accounted origin) (hstamped : origin.Stamped)
    (hlog : world.log = past ++ first :: (between ++ last :: later))
    (hfirst : first.before.version = some stamp) (hlast : last.before.version = some stamp)
    (hfew : (first :: between).countP Exchange.won < 2 ^ 63) : last.before.still = first.before.still := by
  obtain ⟨hlinked, hbetween⟩ := h.linked_between hlog
  rw [hbetween]
  apply hlinked.view_eq
  intro exchange hmem
  obtain ⟨⟨stage, hmay⟩, hlost⟩ := h.lost_between hstamped hlog hfirst hlast hfew exchange hmem
  exact Exchange.still_of_not_won hmay hlost

end

-- Who puts an entry in the place of another one has decided on the row of its last reading.
theorem Accounted.exists_read (h : world.Accounted origin) {exchange : Exchange}
    (hlog : world.log = past ++ exchange :: later) {entry : Entry} {etag : Etag} {stamp : Version}
    (hcall : exchange.call = .updateRow entry etag stamp) :
    ∃ before read between row, past = before ++ read :: between ∧ read.party = exchange.party ∧
      read.call = .readRow exchange.task.silo ∧ (∀ other ∈ between, other.party ≠ exchange.party) ∧
      read.before.version = some stamp ∧ read.before.rows.get? exchange.task.silo.rowKey = some row ∧
      row.etag = etag ∧ row.entry.silo = exchange.task.silo ∧ exchange.task.Revises row.entry entry := by
  have hmay := h.may past exchange later hlog
  rw [hcall] at hmay
  obtain ⟨snapshot, row, hstage, rfl, hrow, hetag, hrevises⟩ := hmay.of_updateRow
  obtain ⟨before, read, between, silo, rfl, hparty, hread, hanswer, hothers⟩ :=
    exists_of_stageOf_eq_read hstage
  have hlog' : world.log = before ++ read :: (between ++ exchange :: later) := by simp [hlog]
  have htask : read.task = exchange.task := by
    have hfirst := h.task read (hlog' ▸ by simp)
    have hlast := h.task exchange (hlog ▸ by simp)
    rw [hparty, hlast] at hfirst
    exact (Option.some.inj hfirst).symm
  have hlook := h.may before read _ hlog'
  rw [hread] at hlook
  obtain rfl := hlook.of_readRow
  obtain ⟨stamp, hversion, rfl⟩ := Deployment.readRow_eq_ok hanswer
  rw [htask] at hread hrow
  obtain ⟨hfound, hsilo⟩ := Snapshot.rowFor?_of_toList hrow
  exact ⟨before, read, between, row, rfl, hparty, hread, hothers, hversion, hfound, hetag, hsilo, hrevises⟩

theorem Accounted.effect (h : world.Accounted origin) (hstamped : origin.Stamped) {exchange : Exchange}
    (hlog : world.log = past ++ exchange :: later) (hfew : past.countP Exchange.won < 2 ^ 63) :
    exchange.Effect := by
  have hmay := h.may past exchange later hlog
  cases hwon : exchange.won with
  | false => exact .quiet hwon (Exchange.still_of_not_won hmay hwon)
  | true =>
      obtain ⟨entry, stamp, hcall, hversion, hfree, hafter⟩ |
        ⟨entry, stamp, stored, hcall, hversion, hstored, hafter⟩ := Exchange.won_cases hwon
      · rw [hcall] at hmay
        exact .insert entry stamp hwon hcall hmay.of_insertRow hfree hafter
      · obtain ⟨before, read, between, row, rfl, -, -, -, hread, hfound, hetag, hsilo, hrevises⟩ :=
          h.exists_read hlog hcall
        have hentry : entry.silo = exchange.task.silo := hrevises.silo_eq.trans hsilo
        have hlog' : world.log = before ++ read :: (between ++ exchange :: later) := by simp [hlog]
        rw [List.countP_append] at hfew
        -- Reading and write met one stamp, so the row read is the row replaced.
        have hsame := h.still_eq hstamped hlog' hread hversion (by omega)
        have hget := Deployment.get?_eq_of_still hsame exchange.task.silo.rowKey
        rw [hentry] at hstored
        rw [hstored, hfound, Option.map_some, Option.map_some, Option.some.injEq] at hget
        refine .revise row.entry entry stored stamp hwon hcall hentry hstored ?_ hrevises hafter
        rw [hget, ← hetag]

end World

end Muster.Updater
