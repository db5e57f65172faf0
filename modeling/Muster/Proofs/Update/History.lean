import Muster.Proofs.Update.Growth

-- Over a whole run: where the rows and their suspicions come from, and what the parties are told.
namespace Muster.Updater

theorem suspicionsOn_concat (silo : Silo) (log : List Exchange) (exchange : Exchange) :
    suspicionsOn silo (log ++ [exchange]) =
      suspicionsOn silo log ++ (exchange.suspicionOn? silo).toList := by
  cases h : exchange.suspicionOn? silo <;> simp [suspicionsOn, h]

-- Where the rows of a table come from: each was inserted, and has been suspected since as the log says.
structure Rooted (log : List Exchange) (table : Deployment) : Prop where
  free : ∀ silo, table.rows.get? silo.rowKey = none → suspicionsOn silo log = []
  keyed : ∀ key row, table.rows.get? key = some row → row.entry.silo.rowKey = key
  inserted : ∀ key row, table.rows.get? key = some row → ∃ write ∈ log, ∃ entry,
    write.won ∧ write.task = .insert entry ∧ entry.silo = row.entry.silo ∧
    row.entry.suspicions = entry.suspicions ++ suspicionsOn row.entry.silo log

theorem rooted_anew (table : Deployment) (drawn : UInt64) : Rooted [] (table.anew drawn) where
  free _ _ := rfl
  keyed _ _ h := by cases h
  inserted _ _ h := by cases h

-- A row after a call was there before and went on, or has just been inserted.
theorem Exchange.Effect.row_cases {exchange : Exchange} (h : exchange.Effect) {log : List Exchange}
    (hrooted : Rooted log exchange.before) {key : String} {row' : Row}
    (hrow' : exchange.after.rows.get? key = some row') :
    (∃ row, exchange.before.rows.get? key = some row ∧ exchange.Advances row row') ∨
    (exchange.before.rows.get? key = none ∧ exchange.won ∧ exchange.task = .insert row'.entry ∧
      row'.entry.silo.rowKey = key) := by
  cases hrow : exchange.before.rows.get? key with
  | some row =>
      obtain ⟨advanced, hadvanced, hadvances⟩ := h.advances hrow (hrooted.keyed key row hrow)
      obtain rfl := Option.some.inj (hadvanced.symm.trans hrow')
      exact Or.inl ⟨row, rfl, hadvances⟩
  | none =>
      obtain ⟨hnone, -⟩ | ⟨entry, token, hwon, htask, hkey, hinserted⟩ := h.inserts hrow
      · simp [hnone] at hrow'
      · obtain rfl := Option.some.inj (hinserted.symm.trans hrow')
        exact Or.inr ⟨rfl, hwon, htask, hkey⟩

theorem Rooted.concat {log : List Exchange} {exchange : Exchange} (h : Rooted log exchange.before)
    (heffect : exchange.Effect) : Rooted (log ++ [exchange]) exchange.after where
  free silo hfree := by
    cases hrow : exchange.before.rows.get? silo.rowKey with
    | some row =>
        obtain ⟨_, hrow', -⟩ := heffect.advances hrow (h.keyed _ row hrow)
        simp [hfree] at hrow'
    | none =>
        obtain ⟨-, hnone⟩ | ⟨_, _, _, _, _, hinserted⟩ := heffect.inserts hrow
        · rw [suspicionsOn_concat, h.free silo hrow, hnone silo rfl, Option.toList_none, List.append_nil]
        · simp [hfree] at hinserted
  keyed key row' hrow' := by
    obtain ⟨row, hrow, hadvances⟩ | ⟨-, -, -, hkey⟩ := heffect.row_cases h hrow'
    · rw [hadvances.silo]
      exact h.keyed key row hrow
    · exact hkey
  inserted key row' hrow' := by
    obtain ⟨row, hrow, hadvances⟩ | ⟨hfree, hwon, htask, hkey⟩ := heffect.row_cases h hrow'
    · obtain ⟨write, hmem, entry, hwon, htask, hsilo, hsuspicions⟩ := h.inserted key row hrow
      refine ⟨write, List.mem_append_left _ hmem, entry, hwon, htask, ?_, ?_⟩
      · rw [hsilo, hadvances.silo]
      · rw [hadvances.suspicions, hsuspicions, hadvances.silo, suspicionsOn_concat, List.append_assoc]
    · refine ⟨exchange, by simp, row'.entry, hwon, htask, rfl, ?_⟩
      have hnone : exchange.suspicionOn? row'.entry.silo = none := by
        simp [Exchange.suspicionOn?, htask, Task.suspicion?]
      rw [suspicionsOn_concat, h.free _ (hkey ▸ hfree), hnone, Option.toList_none, List.append_nil,
        List.append_nil]

namespace World

variable {origin : Deployment} {world : World} {past later : List Exchange}

-- From any point of the log on the rows go forward.
theorem Accounted.rooted_and_grows {table : Deployment} {drawn : UInt64}
    (h : world.Accounted (table.anew drawn)) (hfew : world.log.countP Exchange.won < 2 ^ 63)
    (hlog : world.log = past ++ later)
    (hpast : Rooted past ((table.anew drawn).after (past.map Exchange.operation))) :
    Rooted world.log world.table ∧
    ((table.anew drawn).after (past.map Exchange.operation)).Grows world.table := by
  -- The call that comes next has its effect on rows with a known origin only, so both go together.
  induction later generalizing past with
  | nil =>
      rw [List.append_nil] at hlog
      rw [h.table, hlog]
      exact ⟨hpast, .refl _⟩
  | cons exchange later ih =>
      have heffect : exchange.Effect := by
        apply h.effect (table.stamped_anew drawn) hlog
        rw [hlog, List.countP_append] at hfew
        omega
      have hlog' : world.log = (past ++ [exchange]) ++ later := by rw [hlog, List.append_cons]
      rw [← h.before_eq hlog] at hpast ⊢
      have hnext := ih hlog' (h.after_eq hlog ▸ hpast.concat heffect)
      rw [← h.after_eq hlog] at hnext
      refine ⟨hnext.1, .trans ?_ hnext.2⟩
      intro key row hrow
      obtain ⟨row', hrow', hadvances⟩ := heffect.advances hrow (hpast.keyed key row hrow)
      exact ⟨row', hrow', hadvances.silo, hadvances.status⟩

theorem Accounted.rooted {table : Deployment} {drawn : UInt64} (h : world.Accounted (table.anew drawn))
    (hfew : world.log.countP Exchange.won < 2 ^ 63) : Rooted world.log world.table :=
  (h.rooted_and_grows hfew (List.nil_append _).symm (rooted_anew table drawn)).1

-- From the write that wins on, its party has written.
theorem Accounted.stageOf_of_won (h : world.Accounted origin) {exchange : Exchange}
    (hlog : world.log = past ++ exchange :: later) (hwon : exchange.won) (between : List Exchange) :
    stageOf exchange.party (past ++ exchange :: between) = .written exchange.revision? := by
  rw [List.append_cons]
  apply stageOf_append_of_written
  rw [stageOf_concat_self]
  exact exchange.next_of_won hwon (h.may past exchange later hlog).ne_written

theorem Accounted.nodup_parties (h : world.Accounted origin) (hlog : world.log = past ++ later) :
    ((later.filter Exchange.won).map Exchange.party).Nodup := by
  induction later generalizing past with
  | nil => exact List.nodup_nil
  | cons exchange later ih =>
      have hlog' : world.log = (past ++ [exchange]) ++ later := by rw [hlog, List.append_cons]
      cases hwon : exchange.won with
      | false =>
          rw [List.filter_cons_of_neg (by simp [hwon])]
          exact ih hlog'
      | true =>
          rw [List.filter_cons_of_pos hwon, List.map_cons, List.nodup_cons]
          refine ⟨fun hmem => ?_, ih hlog'⟩
          obtain ⟨last, hlast, hparty⟩ := List.mem_map.mp hmem
          obtain ⟨between, more, rfl⟩ := List.append_of_mem (List.mem_filter.mp hlast).1
          have hstage := h.stageOf_of_won hlog hwon between
          rw [← hparty] at hstage
          exact (h.may _ last more (by rw [hlog, List.append_assoc, List.cons_append])).ne_written _ hstage

-- What a party is done with fits the calls that it made.
theorem Accounted.ends (h : world.Accounted origin) {index : Nat} {party : Party}
    (hparty : world.parties[index]? = some party) {result : Except UpdateError (Option Entry)}
    (hrest : party.rest = .done result) : (stageOf index world.log).Ends result := by
  have hkeeps := h.keeps index party hparty
  rwa [hrest] at hkeeps

theorem Accounted.result_of_won (h : world.Accounted origin) {exchange : Exchange}
    (hmem : exchange ∈ world.log) (hwon : exchange.won) {party : Party}
    (hparty : world.parties[exchange.party]? = some party) {result : Except UpdateError (Option Entry)}
    (hrest : party.rest = .done result) : result = .ok exchange.revision? := by
  have hends := h.ends hparty hrest
  obtain ⟨past, later, hlog⟩ := List.append_of_mem hmem
  rw [hlog, h.stageOf_of_won hlog hwon] at hends
  exact hends

theorem Accounted.after_eq_of_error (h : world.Accounted origin) {index : Nat} {party : Party}
    (hparty : world.parties[index]? = some party) {error : UpdateError}
    (hrest : party.rest = .done (.error error)) {exchange : Exchange} (hmem : exchange ∈ world.log)
    (hown : exchange.party = index) : exchange.after = exchange.before := by
  subst hown
  obtain ⟨past, later, hlog⟩ := List.append_of_mem hmem
  apply Exchange.after_eq_of_not_written (h.may past exchange later hlog)
  intro entry hnext
  have hwritten : stageOf exchange.party world.log = .written entry := by
    rw [hlog, List.append_cons]
    apply stageOf_append_of_written
    rw [stageOf_concat_self, hnext]
  have hends := h.ends hparty hrest
  rw [hwritten] at hends
  cases hends

-- The world after some moves on a table that has just got its stamp.
def run (table : Deployment) (drawn : UInt64) (moves : List Move) : World :=
  (start (table.anew drawn)).after moves

theorem accounted_run (table : Deployment) (drawn : UInt64) (moves : List Move) :
    (run table drawn moves).Accounted (table.anew drawn) :=
  (accounted_start _).after moves

theorem grows_run {table : Deployment} {drawn : UInt64} {past later : List Move}
    (hfew : (run table drawn (past ++ later)).log.countP Exchange.won < 2 ^ 63) :
    (run table drawn past).table.Grows (run table drawn (past ++ later)).table := by
  have hpast := accounted_run table drawn past
  obtain ⟨calls, hcalls⟩ := (run table drawn past).log_after later
  have hlog : (run table drawn (past ++ later)).log = (run table drawn past).log ++ calls := by
    rw [run, after_append, ← run, hcalls]
  have hrooted : Rooted (run table drawn past).log (run table drawn past).table := by
    apply hpast.rooted
    rw [hlog, List.countP_append] at hfew
    omega
  rw [hpast.table] at hrooted ⊢
  exact ((accounted_run table drawn (past ++ later)).rooted_and_grows hfew hlog hrooted).2

theorem rows_move_forward (table : Deployment) (drawn : UInt64) (moves : List Move)
    (hfew : (run table drawn moves).log.countP Exchange.won < 2 ^ 63) :
    (∀ past, past <+: moves → (run table drawn past).table.Grows (run table drawn moves).table ∧
      ∀ key row, (run table drawn past).table.rows.get? key = some row → row.entry.status = .dead →
        ∃ row', (run table drawn moves).table.rows.get? key = some row' ∧ row'.entry.status = .dead) ∧
    ((∀ key row, (run table drawn moves).table.rows.get? key = some row →
        ∃ write ∈ (run table drawn moves).log, ∃ entry,
          write.won ∧ write.task = .insert entry ∧ entry.silo = row.entry.silo ∧
          row.entry.suspicions =
            entry.suspicions ++ suspicionsOn row.entry.silo (run table drawn moves).log) ∧
      (((run table drawn moves).log.filter Exchange.won).map Exchange.party).Nodup) ∧
    (∀ write ∈ (run table drawn moves).log, write.won → ∀ entry, write.revision? = some entry →
      (write.after.rows.get? write.task.silo.rowKey).map Row.entry = some entry ∧
      ∀ party result, (run table drawn moves).parties[write.party]? = some party →
        party.rest = .done result → result = .ok (some entry)) ∧
    ∀ (index : Nat) party error, (run table drawn moves).parties[index]? = some party →
      party.rest = .done (.error error) →
      ∀ exchange ∈ (run table drawn moves).log, exchange.party = index →
        exchange.after = exchange.before := by
  have h := accounted_run table drawn moves
  have hall := (List.nil_append (run table drawn moves).log).symm
  refine ⟨?_, ⟨(h.rooted hfew).inserted, h.nodup_parties hall⟩, ?_, ?_⟩
  · rintro past ⟨later, rfl⟩
    have hgrows := grows_run hfew
    exact ⟨hgrows, fun _ _ hrow hdead => hgrows.dead hrow hdead⟩
  · intro write hmem hwon entry hrevision
    refine ⟨?_, fun party result hparty hrest => hrevision ▸ h.result_of_won hmem hwon hparty hrest⟩
    obtain ⟨before, later, hlog⟩ := List.append_of_mem hmem
    rw [hlog, List.countP_append] at hfew
    exact (h.effect (table.stamped_anew drawn) hlog (by omega)).stores hwon hrevision
  · exact fun _ _ _ hparty hrest _ hmem hown => h.after_eq_of_error hparty hrest hmem hown

-- A silo is suspected by two peers at once while it shows that it is alive: one of them loses its
-- first round. Then it is declared dead.
def contended : List Move :=
  let entry := Entry.fresh (.onLoopback 11111 1) "a" .epoch
  let alive := (Instant.ofParts? 60 0).getD .epoch
  let policy := Policy.immediate 3 (by decide)
  let suspect (port : UInt16) : Task := .suspect entry.silo ⟨.onLoopback port 1, alive⟩
  let tasks := [.insert entry, suspect 1, suspect 2, .heartbeat entry alive, .moveTo entry.silo .dead]
  let steps := [0, 0, 0, 1, 2, 3, 1, 1, 1, 2, 2, 2, 2, 2, 2, 2, 2, 4, 4, 4, 4]
  (tasks.map fun task => .enter task policy) ++ steps.map fun index => .step index alive .never 0

theorem rows_move_forward_contended :
    (run (.new "d") 7 contended).log.countP Exchange.won < 2 ^ 63 ∧
    ((run (.new "d") 7 contended).log.filter Exchange.won).map Exchange.party = [0, 1, 2, 4] ∧
    ((run (.new "d") 7 contended).table.rows.values.map fun row => row.entry.suspicions.length) = [2] ∧
    (run (.new "d") 7 (contended.take 8)).table.Grows (run (.new "d") 7 contended).table := by
  have hfew : (run (.new "d") 7 contended).log.countP Exchange.won < 2 ^ 63 := by decide +kernel
  refine ⟨hfew, by decide +kernel, by decide +kernel, ?_⟩
  exact ((rows_move_forward (.new "d") 7 contended hfew).1 _ (List.take_prefix 8 contended)).1

end World

end Muster.Updater
