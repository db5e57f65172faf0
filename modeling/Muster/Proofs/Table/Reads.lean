import Mathlib.Data.List.Nodup
import Muster.Proofs.Member.Order
import Muster.Proofs.Table.Effect

-- To read a table as a whole and to read one row of it come to the same.
namespace Muster

namespace Snapshot

-- The rows stand in the order of their silos, and no silo has two.
def Ascending (snapshot : Snapshot) : Prop :=
  snapshot.rows.Pairwise fun a b => a.entry.silo.order b.entry.silo = .lt

theorem ascending_of {rows : List Row} (h : (rows.map fun row => row.entry.silo).Nodup) (stamp : Version) :
    (of rows stamp).Ascending := by
  have hordered : (of rows stamp).rows.Pairwise fun a b => a.entry.silo.le b.entry.silo = true := by
    refine List.pairwise_mergeSort (fun a b c => ?_) (fun a b => ?_) rows
    · simpa only [Silo.le_iff] using le_trans
    · simpa only [Bool.or_eq_true, Silo.le_iff] using le_total a.entry.silo.sortKey b.entry.silo.sortKey
  have hnodup : (of rows stamp).rows.Pairwise fun a b => a.entry.silo ≠ b.entry.silo :=
    List.pairwise_map.mp (((perm_rows_of rows stamp).map _).nodup_iff.mpr h)
  refine (hordered.and hnodup).imp fun {a b} hab => Silo.order_eq_lt_iff.mpr ?_
  exact lt_of_le_of_ne (Silo.le_iff.mp hab.1) fun heq => hab.2 (Silo.sortKey_injective heq)

theorem Ascending.nodup {snapshot : Snapshot} (h : snapshot.Ascending) :
    (snapshot.rows.map fun row => row.entry.silo).Nodup := by
  refine List.pairwise_map.mpr (h.imp fun {a b} hab heq => ?_)
  rw [Silo.order_eq_lt_iff, heq] at hab
  exact lt_irrefl _ hab

theorem rowFor?_eq_head? (snapshot : Snapshot) (silo : Silo) :
    snapshot.rowFor? silo = (snapshot.rows.filter fun row => row.entry.silo == silo).head? :=
  List.head?_filter.symm

end Snapshot

-- Under different keys there are different silos.
theorem Rows.Keyed.nodup_silos {rows : Rows} (h : rows.Keyed) : (rows.values.map fun row => row.entry.silo).Nodup := by
  have hkeys : (rows.values.map fun row => row.entry.silo).map Silo.rowKey = rows.toList.map Prod.fst := by
    rw [values, List.map_map, List.map_map]
    exact List.map_congr_left h
  refine List.Nodup.of_map Silo.rowKey ?_
  rw [hkeys]
  exact List.pairwise_map.mpr (rows.sorted.imp fun hlt => String.ne_of_lt hlt)

namespace Deployment

variable {table : Deployment} {stamp : Version} {silo : Silo}

theorem Plain.ofSilo_eq (h : table.Plain) (hsilo : silo.Bare) :
    table.rows.ofSilo silo = (table.rows.get? silo.rowKey).toList := by
  rw [h.keyed.ofSilo_eq_get?]
  cases hrow : table.rows.get? silo.rowKey with
  | none => rfl
  | some row => simp [h.silo_of_get? hsilo hrow]

theorem readAll_of_version (hversion : table.version = some stamp) :
    table.readAll = .ok (.of table.rows.values stamp) := by
  rw [readAll, stamp_eq_ok hversion]
  rfl

theorem readRow_of_version (silo : Silo) (hversion : table.version = some stamp) :
    table.readRow silo = .ok ⟨(table.rows.get? silo.rowKey).toList, stamp⟩ := by
  have hrows : Snapshot.of (table.rows.get? silo.rowKey).toList stamp = ⟨(table.rows.get? silo.rowKey).toList, stamp⟩ :=
    congrArg (Snapshot.mk · stamp) (Snapshot.rows_of_toList _ stamp)
  rw [readRow, stamp_eq_ok hversion, ← hrows]
  rfl

-- Of all rows that are listed, those of one silo are what stands under its key.
theorem Plain.filter_rows_of (h : table.Plain) (hsilo : silo.Bare) (stamp : Version) :
    (Snapshot.of table.rows.values stamp).rows.filter (fun row => row.entry.silo == silo) =
      (table.rows.get? silo.rowKey).toList := by
  have hperm := (Snapshot.perm_rows_of table.rows.values stamp).filter fun row => row.entry.silo == silo
  rw [← Rows.ofSilo, h.ofSilo_eq hsilo] at hperm
  cases hrow : table.rows.get? silo.rowKey with
  | none =>
    rw [hrow] at hperm
    exact List.perm_nil.mp hperm
  | some row =>
    rw [hrow] at hperm
    exact List.perm_singleton.mp hperm

theorem Plain.rowFor?_readAll (h : table.Plain) (hsilo : silo.Bare) (stamp : Version) :
    (Snapshot.of table.rows.values stamp).rowFor? silo = table.rows.get? silo.rowKey := by
  rw [Snapshot.rowFor?_eq_head?, h.filter_rows_of hsilo, Option.head?_toList]

theorem Plain.rowFor?_readRow (h : table.Plain) (hsilo : silo.Bare) (stamp : Version) :
    (Snapshot.mk (table.rows.get? silo.rowKey).toList stamp).rowFor? silo = table.rows.get? silo.rowKey := by
  rw [← h.filter_rows_of hsilo stamp, Snapshot.rowFor?_eq_head?, List.filter_filter]
  simp only [Bool.and_self]
  rw [h.filter_rows_of hsilo, Option.head?_toList]

-- The silo whose row an operation reads or writes.
def Operation.silo? : Operation → Option Silo
  | readRow silo => some silo
  | insertRow entry _ => some entry.silo
  | updateRow entry _ _ => some entry.silo
  | mergeAlive entry => some entry.silo
  | _ => none

-- Whatever is done to a table, it can be asked for by a call.
theorem Operation.exists_call (operation : Operation) (id : String) :
    ∃ drawn call, operation = Call.operation drawn id call ∧
      ∀ entry stamp, call.write? = some (entry, stamp) → operation.silo? = some entry.silo := by
  cases operation with
  | establish drawn => exact ⟨drawn, .establish true, rfl, fun _ _ h => by cases h⟩
  | clear => exact ⟨0, .delete id, (if_pos rfl).symm, fun _ _ h => by cases h⟩
  | readRow silo => exact ⟨0, .readRow silo, rfl, fun _ _ h => by cases h⟩
  | readAll => exact ⟨0, .readAll, rfl, fun _ _ h => by cases h⟩
  | insertRow entry expected => exact ⟨0, .insertRow entry expected, rfl, by rintro _ _ ⟨⟩; rfl⟩
  | updateRow entry etag expected => exact ⟨0, .updateRow entry etag expected, rfl, by rintro _ _ ⟨⟩; rfl⟩
  | mergeAlive entry => exact ⟨0, .mergeAlive entry, rfl, fun _ _ h => by cases h⟩

theorem Turn.plain (turn : Turn) (h : turn.before.Plain) (hsilo : ∀ silo ∈ turn.operation.silo?, silo.Bare) :
    turn.after.Plain := by
  obtain ⟨table, operation⟩ := turn
  obtain ⟨drawn, call, rfl, hwrite⟩ := operation.exists_call table.id
  rw [Turn.after, ← Call.answer_eq_perform]
  exact (table.answer_effect drawn call).plain h fun entry stamp hcall => hsilo entry.silo (hwrite entry stamp hcall)

theorem plain_after (h : table.Plain) {operations : List Operation}
    (hbare : ∀ operation ∈ operations, ∀ silo ∈ operation.silo?, silo.Bare) :
    (table.after operations).Plain := by
  induction operations generalizing table with
  | nil => exact h
  | cons operation rest ih =>
    obtain ⟨hfirst, hrest⟩ := List.forall_mem_cons.mp hbare
    exact ih (Turn.plain ⟨table, operation⟩ h hfirst) hrest

theorem plain_new (id : String) : (new id).Plain := plain_of_rows_empty rfl

theorem Turn.id_after (turn : Turn) : turn.after.id = turn.before.id := by
  cases turn.course with
  | quiet still => exact id_eq_of_still still
  | write entry stamp _ after => rw [after, commit]
  | draw drawn _ after => rw [after]
  | clear after => rw [after, Deployment.clear]

theorem id_after (table : Deployment) (operations : List Operation) : (table.after operations).id = table.id := by
  induction operations generalizing table with
  | nil => rfl
  | cons operation rest ih => rw [after, ih, Turn.id_after]

-- Once a table has a stamp, the rows that it lists are in the order of their silos, each silo has one at
-- most, and to read one silo is to pick its row, token and all, from the list.
theorem reads_agree (id : String) (operations : List Operation)
    (hbare : ∀ operation ∈ operations, ∀ silo ∈ operation.silo?, silo.Bare) :
    let table := (new id).after operations
    table.rows.Keyed ∧
    (table.version = none → table.readAll = .error (.notInitialized id) ∧
      ∀ silo, table.readRow silo = .error (.notInitialized id)) ∧
    ∀ stamp, table.version = some stamp → ∃ all, table.readAll = .ok all ∧ all.version = stamp ∧
      all.Ascending ∧ (all.rows.map fun row => row.entry.silo).Nodup ∧ all.rows.Perm table.rows.values ∧
      ∀ silo : Silo, silo.Bare → ∃ one, table.readRow silo = .ok one ∧ one.version = all.version ∧
        one.rows = all.rows.filter (fun row => row.entry.silo == silo) ∧
        one.rows = (one.rowFor? silo).toList ∧ one.rowFor? silo = all.rowFor? silo := by
  intro table
  have hplain : table.Plain := plain_after (plain_new id) hbare
  have hid : table.id = id := id_after (new id) operations
  refine ⟨hplain.keyed, fun hversion => ?_, fun stamp hversion => ?_⟩
  · rw [← hid]
    exact ⟨by rw [readAll, stamp_eq_error hversion]; rfl, fun silo => by rw [readRow, stamp_eq_error hversion]; rfl⟩
  · have hascending := Snapshot.ascending_of hplain.keyed.nodup_silos stamp
    refine ⟨.of table.rows.values stamp, readAll_of_version hversion, rfl, hascending, hascending.nodup,
      Snapshot.perm_rows_of _ stamp, fun silo hsilo => ?_⟩
    refine ⟨_, readRow_of_version silo hversion, rfl, (hplain.filter_rows_of hsilo stamp).symm, ?_, ?_⟩
    · rw [hplain.rowFor?_readRow hsilo]
    · rw [hplain.rowFor?_readRow hsilo, hplain.rowFor?_readAll hsilo]

-- Two silos that are listed in the other order than their keys stand in, in the second life of a table.
def relisted : List Operation :=
  let nine := Entry.fresh (.onLoopback 9 1) "nine" .epoch
  let ten := Entry.fresh (.onLoopback 10 1) "ten" .epoch
  [.establish 7, .insertRow ten ⟨0, tokenOf 7 1⟩, .clear, .establish 8, .insertRow ten ⟨0, tokenOf 8 1⟩,
    .insertRow nine ⟨1, tokenOf 8 3⟩, .mergeAlive (ten.withAliveTime ((Instant.ofParts? 60 0).getD .epoch)), .readAll]

theorem reads_agree_relisted :
    let table := (new "d").after relisted
    let nine := Silo.onLoopback 9 1
    (∀ operation ∈ relisted, ∀ silo ∈ operation.silo?, silo.Bare) ∧ nine.Bare ∧
    table.version = some ⟨2, tokenOf 8 5⟩ ∧ table.rows.keys = ["127.0.0.1-10-1", "127.0.0.1-9-1"] ∧
    ∃ all, table.readAll = .ok all ∧ all.Ascending ∧ all.rows.Perm table.rows.values ∧
      ∃ one, table.readRow nine = .ok one ∧ one.version = all.version ∧
        one.rows = all.rows.filter (fun row => row.entry.silo == nine) ∧ one.rowFor? nine = all.rowFor? nine := by
  intro table nine
  have hbare : ∀ operation ∈ relisted, ∀ silo ∈ operation.silo?, silo.Bare := by decide
  have hversion : table.version = some ⟨2, tokenOf 8 5⟩ := by decide +kernel
  obtain ⟨all, hall, -, hascending, -, hperm, hrows⟩ := (reads_agree "d" relisted hbare).2.2 _ hversion
  obtain ⟨one, hone, hsame, hfilter, -, hfound⟩ := hrows nine (by decide)
  exact ⟨hbare, by decide, hversion, by decide +kernel, all, hall, hascending, hperm, one, hone, hsame, hfilter,
    hfound⟩

-- Two silos that differ in nothing but the flow, and no link is named. Whoever reads the one is shown the row of the
-- other, which the list has for the other alone.
theorem reads_of_flows_differ :
    let stored := Silo.linkLocal 1 0
    let asked := Silo.linkLocal 2 0
    let row : Row := ⟨.fresh stored "a" .epoch, ⟨tokenOf 7 2⟩⟩
    let table := (new "d").after [.establish 7, .insertRow (.fresh stored "a" .epoch) ⟨0, tokenOf 7 1⟩]
    stored.endpoint.scope = 0 ∧ asked.endpoint.scope = 0 ∧ stored ≠ asked ∧
    ∃ one all, table.readRow asked = .ok one ∧ table.readAll = .ok all ∧ one.rows = [row] ∧
      all.rows.filter (fun row => row.entry.silo == asked) = [] ∧ one.rowFor? asked = none := by
  intro stored asked row table
  have hversion : table.version = some ⟨1, tokenOf 7 3⟩ := by decide +kernel
  refine ⟨rfl, rfl, by decide, _, _, readRow_of_version asked hversion, readAll_of_version hversion, ?_⟩
  decide +kernel

end Deployment
end Muster
