import Muster.Proofs.Table.Supply

-- What was read under a stamp still stands when a write under that stamp wins, alive times apart.
namespace Muster

namespace Deployment

variable {table : Deployment} {operations past between later : List Operation}

theorem Ready.still_after {stamp : Version} (h : table.Ready (past ++ between ++ later))
    (hbefore : (table.after past).version = some stamp)
    (hafter : ((table.after past).after between).version = some stamp) :
    ((table.after past).after between).still = (table.after past).still := by
  obtain ⟨hdrawn, hwins, hclear⟩ := h.calm hbefore hafter
  exact still_after_of_calm hdrawn hwins hclear

-- Two turns that met one stamp met one table.
theorem Ready.still_eq (h : table.Ready operations) {first last : Turn} {stamp : Version}
    (hpair : [first, last].Sublist (table.turns operations))
    (hfirst : first.before.version = some stamp) (hlast : last.before.version = some stamp) :
    last.before.still = first.before.still := by
  obtain ⟨past, rest, later, rfl, hbefore, hbetween⟩ := exists_between_of_sublist_turns hpair
  rw [hbetween] at hlast ⊢
  rw [hbefore] at hfirst ⊢
  exact h.still_after hfirst hlast

theorem rows_read_stand_at_write (id : String) (operations : List Operation)
    (h : WellSupplied ((new id).turns operations)) (read write : Turn) (snapshot : Snapshot)
    (hpair : [read, write].Sublist ((new id).turns operations))
    (hread : read.snapshot? = some snapshot) (hwon : write.won? = some snapshot.version) :
    (read.operation = .readAll →
      (write.before.rows.values.map Row.still).Perm (snapshot.rows.map Row.still)) ∧
    (∀ silo, read.operation = .readRow silo →
      (write.before.rows.get? silo.rowKey).toList.map Row.still = snapshot.rows.map Row.still) := by
  have hstill := h.ready.still_eq hpair (Turn.version_of_snapshot hread) (Turn.version_of_won hwon)
  obtain ⟨stamp, -, ⟨silo, hop, rfl⟩ | ⟨hop, rfl⟩⟩ := Turn.snapshot_cases hread
  · refine ⟨by simp [hop], fun silo' hop' => ?_⟩
    obtain rfl : silo = silo' := by simpa using hop.symm.trans hop'
    have hrow := congrArg Option.toList (get?_eq_of_still hstill silo.rowKey)
    rw [Snapshot.rows_of_toList]
    simpa only [Option.toList_map] using hrow
  · refine ⟨fun _ => ?_, by simp [hop]⟩
    have hvalues := congrArg Rows.values (rows_eq_of_still hstill)
    rw [Rows.values_still, Rows.values_still] at hvalues
    rw [hvalues]
    exact ((Snapshot.perm_rows_of _ stamp).map Row.still).symm

-- A row is read, then its silo shows that it is alive and another write comes too late, and then the
-- row is revised as it was read.
def revised : List Operation :=
  let entry := Entry.fresh (.onLoopback 11111 1) "a" .epoch
  let alive := (Instant.ofParts? 60 0).getD .epoch
  [.establish 7, .insertRow entry ⟨0, tokenOf 7 1⟩, .readRow entry.silo,
    .mergeAlive (entry.withAliveTime alive), .insertRow entry ⟨0, tokenOf 7 1⟩,
    .updateRow (entry.withStatus .active) ⟨tokenOf 7 2⟩ ⟨1, tokenOf 7 3⟩]

theorem wellSupplied_revised : WellSupplied ((new "d").turns revised) where
  drawn_nodup := by decide +kernel
  few_tokens incarnation :=
    Nat.lt_of_le_of_lt (length_issuedUnder_le incarnation _) (by decide +kernel)

theorem rows_read_stand_at_write_revised :
    ∃ read write snapshot, WellSupplied ((new "d").turns revised) ∧
      [read, write].Sublist ((new "d").turns revised) ∧
      read.snapshot? = some snapshot ∧ write.won? = some snapshot.version ∧
      (read.operation = .readAll →
        (write.before.rows.values.map Row.still).Perm (snapshot.rows.map Row.still)) ∧
      (∀ silo, read.operation = .readRow silo →
        (write.before.rows.get? silo.rowKey).toList.map Row.still = snapshot.rows.map Row.still) := by
  let read : Turn := ⟨(new "d").after (revised.take 2), .readRow (.onLoopback 11111 1)⟩
  let write : Turn := ⟨(new "d").after (revised.take 5),
    .updateRow ((Entry.fresh (.onLoopback 11111 1) "a" .epoch).withStatus .active)
      ⟨tokenOf 7 2⟩ ⟨1, tokenOf 7 3⟩⟩
  let snapshot : Snapshot :=
    ⟨[⟨.fresh (.onLoopback 11111 1) "a" .epoch, ⟨tokenOf 7 2⟩⟩], ⟨1, tokenOf 7 3⟩⟩
  have hpair : [read, write].Sublist ((new "d").turns revised) :=
    .cons _ (.cons _ (.cons_cons _ (.cons _ (.cons _ (.cons_cons _ .slnil)))))
  have hread : read.snapshot? = some snapshot := by decide +kernel
  have hwon : write.won? = some snapshot.version := by decide +kernel
  exact ⟨read, write, snapshot, wellSupplied_revised, hpair, hread, hwon,
    rows_read_stand_at_write "d" revised wellSupplied_revised read write snapshot hpair hread hwon⟩

end Deployment
end Muster
