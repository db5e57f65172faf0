import Muster.Proofs.Table.Answer
import Muster.Proofs.Table.Keyed
import Muster.Proofs.Table.Stamp

-- What a call does to the table of its deployment, and when a write that goes by a reading wins.
namespace Muster

-- The entry that a conditional write is to put into the table, and the stamp that it expects.
def Call.write? : Call → Option (Entry × Version)
  | insertRow entry expected => some (entry, expected)
  | updateRow entry _ expected => some (entry, expected)
  | _ => none

-- The answer is the no that a conditional write gets.
def Call.loses : (call : Call) → call.Answer → Bool
  | insertRow _ _, .ok false => true
  | updateRow _ _ _, .ok false => true
  | _, _ => false

-- The ways in which a call can go.
inductive Call.Effect (call : Call) (won : Bool) (before after : Deployment) : Prop where
  -- Nothing changes but alive times.
  | still (won_eq : won = false) (still_eq : after.still = before.still)
  | write (won_eq : won = true) (entry : Entry) (stamp : Version) (write?_eq : call.write? = some (entry, stamp))
      (version : before.version = some stamp) (after_eq : after = before.commit entry stamp)
  -- A table without a stamp gets one.
  | stamp (won_eq : won = false) (call_eq : call = .establish true) (version : before.version = none)
      (rows : after.rows = before.rows)
  | delete (won_eq : won = false) (call_eq : call = .delete before.id) (version : after.version = none)
      (rows : after.rows = .empty)

namespace Deployment

variable {table : Deployment} {drawn : UInt64} {call : Call}

theorem answer_effect (table : Deployment) (drawn : UInt64) (call : Call) :
    call.Effect (call.wins (table.answer drawn call).1) table (table.answer drawn call).2 := by
  cases call with
  | establish create =>
    cases create with
    | false => exact .still rfl rfl
    | true =>
      cases hversion : table.version with
      | none =>
        refine .stamp rfl rfl hversion ?_
        simp only [answer, establish, hversion]
      | some stamp =>
        refine .still rfl ?_
        simp only [answer, establish, hversion]
  | delete deployment =>
    by_cases hid : deployment = table.id
    · refine .delete rfl (by rw [hid]) ?_ ?_ <;> simp only [answer, if_pos hid, clear]
    · refine .still rfl ?_
      simp only [answer, if_neg hid]
  | readRow silo => exact .still rfl rfl
  | readAll => exact .still rfl rfl
  | insertRow entry expected =>
    obtain ⟨hversion, -, hwrite⟩ | hwrite | ⟨-, hwrite⟩ := table.insertRow_cases entry expected <;>
      simp only [answer, hwrite, settle]
    · exact .write rfl entry expected rfl hversion rfl
    · exact .still rfl rfl
    · exact .still rfl rfl
  | updateRow entry etag expected =>
    obtain ⟨hversion, -, hwrite⟩ | hwrite | ⟨-, hwrite⟩ := table.updateRow_cases entry etag expected <;>
      simp only [answer, hwrite, settle]
    · exact .write rfl entry expected rfl hversion rfl
    · exact .still rfl rfl
    · exact .still rfl rfl
  | mergeAlive entry =>
    obtain ⟨-, next, hmerge, hstill⟩ | ⟨-, hmerge⟩ := table.mergeAlive_cases entry
    · refine .still rfl ?_
      simp only [answer, hmerge, Except.map, settle, hstill]
    · refine .still rfl ?_
      simp only [answer, hmerge, Except.map, settle]

-- Every row stands under the key of its silo, and no silo names a link.
structure Plain (table : Deployment) : Prop where
  keyed : table.rows.Keyed
  bare : ∀ key row, table.rows.get? key = some row → row.entry.silo.Bare

theorem plain_of_rows_empty (h : table.rows = .empty) : table.Plain := by
  refine ⟨h ▸ Rows.keyed_empty, fun key row hrow => ?_⟩
  rw [h, Rows.get?_empty] at hrow
  cases hrow

theorem Plain.silo_of_get? (h : table.Plain) {silo : Silo} {row : Row} (hsilo : silo.Bare)
    (hrow : table.rows.get? silo.rowKey = some row) : row.entry.silo = silo :=
  Silo.eq_of_rowKey (h.bare _ _ hrow) hsilo (h.keyed.rowKey_of_get? hrow)

theorem Plain.of_still {next : Deployment} (h : table.Plain) (hstill : next.still = table.still) : next.Plain := by
  refine ⟨h.keyed.of_still (rows_eq_of_still hstill), fun key row hrow => ?_⟩
  obtain ⟨row', hrow', hsame⟩ := exists_row_of_still hstill.symm hrow
  exact Row.silo_eq_of_still hsame ▸ h.bare key row' hrow'

theorem Plain.commit (h : table.Plain) {entry : Entry} (hentry : entry.silo.Bare) (stamp : Version) :
    (table.commit entry stamp).Plain := by
  refine ⟨h.keyed.insert rfl, fun key row hrow => ?_⟩
  rw [get?_commit] at hrow
  split at hrow
  · rw [← Option.some.inj hrow]
    exact hentry
  · exact h.bare key row hrow

end Deployment

theorem Call.Effect.plain {call : Call} {won : Bool} {before after : Deployment}
    (h : call.Effect won before after) (hplain : before.Plain)
    (hbare : ∀ entry stamp, call.write? = some (entry, stamp) → entry.silo.Bare) : after.Plain := by
  cases h with
  | still _ hstill => exact hplain.of_still hstill
  | write _ entry stamp hwrite _ hafter => exact hafter ▸ hplain.commit (hbare entry stamp hwrite) stamp
  | stamp _ _ _ hsame =>
    exact ⟨hsame ▸ hplain.keyed, fun key row hrow => hplain.bare key row (hsame ▸ hrow)⟩
  | delete _ _ _ hempty => exact Deployment.plain_of_rows_empty hempty

namespace Snapshot

variable {snapshot : Snapshot} {silo : Silo} {table next : Deployment}

-- The snapshot has the stamp of the table, and the row of the silo as it stands there.
structure Fits (snapshot : Snapshot) (silo : Silo) (table : Deployment) : Prop where
  version : table.version = some snapshot.version
  row : (snapshot.rowFor? silo).map Row.still = (table.rows.get? silo.rowKey).map Row.still

theorem fits_of_readRow (hplain : table.Plain) (hsilo : silo.Bare) (h : table.readRow silo = .ok snapshot) :
    snapshot.Fits silo table := by
  obtain ⟨stamp, hversion, rfl⟩ := Deployment.readRow_eq_ok h
  refine ⟨hversion, ?_⟩
  rw [rowFor?, rows_of_toList]
  cases hrow : table.rows.get? silo.rowKey with
  | none => rfl
  | some row => simp [hplain.silo_of_get? hsilo hrow]

theorem Fits.of_still (h : snapshot.Fits silo table) (hstill : next.still = table.still) :
    snapshot.Fits silo next where
  version := (Deployment.version_eq_of_still hstill).trans h.version
  row := h.row.trans (Deployment.get?_eq_of_still hstill _).symm

theorem Fits.insertRow (h : snapshot.Fits silo table) {entry : Entry} (hentry : entry.silo = silo)
    (hfree : snapshot.rowFor? silo = none) :
    table.insertRow entry snapshot.version = .ok (true, table.commit entry snapshot.version) := by
  have hrow := h.row
  rw [hfree, Option.map_none] at hrow
  apply Deployment.insertRow_of_free h.version
  rw [hentry]
  exact Option.map_eq_none_iff.mp hrow.symm

-- A heartbeat in between may have set the alive time of the row, but left its token.
theorem Fits.updateRow (h : snapshot.Fits silo table) {entry : Entry} {row : Row} (hentry : entry.silo = silo)
    (hfound : snapshot.rowFor? silo = some row) :
    table.updateRow entry row.etag snapshot.version = .ok (true, table.commit entry snapshot.version) := by
  have hrow := h.row
  rw [hfound, Option.map_some] at hrow
  obtain ⟨stored, hstored, hstill⟩ := Option.map_eq_some_iff.mp hrow.symm
  rw [← Row.etag_eq_of_still hstill]
  apply Deployment.updateRow_of_found entry h.version
  rw [hentry]
  exact hstored

end Snapshot

namespace Deployment

variable {table next : Deployment} {snapshot : Snapshot} {silo : Silo}

-- What a reading is worth later: its token has been given out, and as long as the stamp is the same the row
-- stands as it was read.
structure Recalls (table : Deployment) (silo : Silo) (snapshot : Snapshot) : Prop where
  token : ∃ number : UInt64, snapshot.version.token = tokenOf table.incarnation number ∧
    number.toNat ≤ table.sequence.toNat
  row : table.version = some snapshot.version → ∀ row, snapshot.rowFor? silo = some row →
    ∃ stored, table.rows.get? silo.rowKey = some stored ∧ stored.still = row.still

theorem recalls_of_readRow (hstamped : table.Stamped) (h : table.readRow silo = .ok snapshot) :
    table.Recalls silo snapshot := by
  obtain ⟨stamp, hversion, rfl⟩ := readRow_eq_ok h
  refine ⟨⟨table.sequence, hstamped stamp hversion, Nat.le_refl _⟩, fun _ row hrow => ?_⟩
  exact ⟨row, (Snapshot.rowFor?_of_toList hrow).1, rfl⟩

theorem Recalls.of_still (h : table.Recalls silo snapshot) (hstill : next.still = table.still) :
    next.Recalls silo snapshot := by
  obtain ⟨htoken, hrow⟩ := h
  refine ⟨?_, fun hversion row hfound => ?_⟩
  · rw [incarnation_eq_of_still hstill, sequence_eq_of_still hstill]
    exact htoken
  · rw [version_eq_of_still hstill] at hversion
    obtain ⟨stored, hstored, hsame⟩ := hrow hversion row hfound
    obtain ⟨stored', hstored', hsame'⟩ := exists_row_of_still hstill hstored
    exact ⟨stored', hstored', hsame'.trans hsame⟩

theorem Stamped.of_still (h : table.Stamped) (hstill : next.still = table.still) : next.Stamped := by
  intro stamp hstamp
  rw [version_eq_of_still hstill] at hstamp
  rw [incarnation_eq_of_still hstill, sequence_eq_of_still hstill]
  exact h stamp hstamp

theorem sequence_commit (entry : Entry) (stamp : Version) (h : table.sequence.toNat + 2 < 2 ^ 64) :
    (table.commit entry stamp).sequence.toNat = table.sequence.toNat + 2 := by
  rw [commit, UInt64.toNat_add]
  exact Nat.mod_eq_of_lt h

theorem stamped_commit (table : Deployment) (entry : Entry) (stamp : Version) : (table.commit entry stamp).Stamped := by
  intro version hversion
  rw [← Option.some.inj hversion]
  rfl

-- A write gives the table a stamp that nobody can have read before.
theorem Recalls.commit (h : table.Recalls silo snapshot) (entry : Entry) (stamp : Version)
    (hfew : table.sequence.toNat + 2 < 2 ^ 64) : (table.commit entry stamp).Recalls silo snapshot := by
  obtain ⟨⟨number, htoken, hle⟩, -⟩ := h
  have hsequence := sequence_commit entry stamp hfew
  refine ⟨⟨number, htoken, by omega⟩, fun hversion => ?_⟩
  have hstamp := stamped_commit table entry stamp _ hversion
  have hnumber := (tokenOf_injective (htoken.symm.trans hstamp)).2
  rw [hnumber, hsequence] at hle
  omega

end Deployment

-- A table without a stamp gives no write a no.
theorem Call.loses_of_version_eq_none {call : Call} {table : Deployment} {drawn : UInt64}
    (h : table.version = none) : call.loses (table.answer drawn call).1 = false := by
  cases call with
  | insertRow entry expected =>
    simp [Deployment.answer, Deployment.insertRow, Deployment.stamp_eq_error h, bind, Except.bind,
      Deployment.settle, Call.loses]
  | updateRow entry etag expected =>
    simp [Deployment.answer, Deployment.updateRow, Deployment.stamp_eq_error h, bind, Except.bind,
      Deployment.settle, Call.loses]
  | _ => rfl

end Muster
