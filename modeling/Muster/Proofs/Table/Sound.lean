import Muster.Proofs.Table.Reads

-- Tables whose readings agree with each other and show no gateway at port 0. Calls with entries that have been
-- put together step by step keep a table so.
namespace Muster

namespace Entry

-- Entries as they are put together step by step, beginning with a silo that has just been created.
inductive Built : Entry → Prop where
  | fresh (silo : Silo) (host : String) (startTime : Instant) : Built (.fresh silo host startTime)
  | status {entry : Entry} (built : Built entry) (status : Status) : Built (entry.withStatus status)
  | gatewayPort {entry : Entry} (built : Built entry) (port : Option UInt16) : Built (entry.withGatewayPort port)
  | isPrimary {entry : Entry} (built : Built entry) (isPrimary : Bool) : Built (entry.withPrimary isPrimary)
  | role {entry : Entry} (built : Built entry) (role : String) : Built (entry.withRole role)
  | instanceName {entry : Entry} (built : Built entry) (name : String) : Built (entry.withInstanceName name)
  | zones {entry : Entry} (built : Built entry) (updateZone faultZone : UInt32) :
      Built (entry.withZones updateZone faultZone)
  | aliveTime {entry : Entry} (built : Built entry) (time : Instant) : Built (entry.withAliveTime time)
  | suspicion {entry : Entry} (built : Built entry) (suspicion : Suspicion) : Built (entry.withSuspicion suspicion)

theorem Built.gatewayPort_ne {entry : Entry} (h : entry.Built) : entry.gatewayPort ≠ some 0 := by
  induction h with
  | fresh silo host startTime => exact nofun
  | @gatewayPort entry built port ih =>
    intro hport
    have hzero := Option.eq_some_of_filter_eq_some hport
    rw [hzero] at hport
    cases hport
  | status _ _ ih => exact ih
  | isPrimary _ _ ih => exact ih
  | role _ _ ih => exact ih
  | instanceName _ _ ih => exact ih
  | zones _ _ _ ih => exact ih
  | aliveTime _ _ ih => exact ih
  | suspicion _ _ ih => exact ih

theorem gateway?_port (entry : Entry) :
    (∀ endpoint ∈ entry.gateway?, endpoint.port ≠ 0) ↔ entry.gatewayPort ≠ some 0 := by
  unfold gateway?
  cases entry.gatewayPort with
  | none => simp
  | some port => cases hip : entry.silo.ip <;> simp [Net.Endpoint.ofIp, Net.Endpoint.port]

end Entry

-- The list shows no silo twice and no gateway at port 0, and to read a silo is to pick its rows from the list.
structure Snapshot.Agrees (all : Snapshot) (readRow : Silo → Except Fault Snapshot) : Prop where
  nodup : (all.rows.map fun row => row.entry.silo).Nodup
  row : ∀ silo : Silo, silo.Bare →
    readRow silo = .ok ⟨all.rows.filter fun row => row.entry.silo == silo, all.version⟩
  gateway : ∀ row ∈ all.rows, ∀ endpoint ∈ row.entry.gateway?, endpoint.port ≠ 0

namespace Deployment

variable {table next : Deployment} {stamp : Version}

-- What the one who writes a document can get wrong: the keys of the rows, links, ports.
structure Sound (table : Deployment) : Prop extends table.Plain where
  gateway : ∀ key row, table.rows.get? key = some row → row.entry.gatewayPort ≠ some 0

theorem sound_of_rows_empty (h : table.rows = .empty) : table.Sound where
  toPlain := plain_of_rows_empty h
  gateway key row hrow := by
    rw [h, Rows.get?_empty] at hrow
    cases hrow

theorem Sound.of_rows (h : table.Sound) (hrows : next.rows = table.rows) : next.Sound where
  keyed := hrows ▸ h.keyed
  bare key row hrow := h.bare key row (hrows ▸ hrow)
  gateway key row hrow := h.gateway key row (hrows ▸ hrow)

theorem Sound.of_still (h : table.Sound) (hstill : next.still = table.still) : next.Sound where
  toPlain := h.toPlain.of_still hstill
  gateway key row hrow := by
    obtain ⟨row', hrow', hsame⟩ := exists_row_of_still hstill.symm hrow
    exact Row.gatewayPort_eq_of_still hsame ▸ h.gateway key row' hrow'

theorem Sound.commit (h : table.Sound) {entry : Entry} (hbuilt : entry.Built) (hbare : entry.silo.Bare)
    (stamp : Version) : (table.commit entry stamp).Sound where
  toPlain := h.toPlain.commit hbare stamp
  gateway key row hrow := by
    rw [get?_commit] at hrow
    split at hrow
    · rw [← Option.some.inj hrow]
      exact hbuilt.gatewayPort_ne
    · exact h.gateway key row hrow

theorem Sound.agrees (h : table.Sound) (hversion : table.version = some stamp) :
    (Snapshot.of table.rows.values stamp).Agrees table.readRow where
  nodup := (Snapshot.ascending_of h.keyed.nodup_silos stamp).nodup
  row silo hsilo := by
    rw [readRow_of_version silo hversion, h.toPlain.filter_rows_of hsilo]
    rfl
  gateway row hrow := by
    have hvalue := (Snapshot.perm_rows_of table.rows.values stamp).mem_iff.mp hrow
    exact row.entry.gateway?_port.mpr (h.gateway _ row (h.keyed.get?_eq_some_iff.mpr ⟨hvalue, rfl⟩))

-- A row under a key that is not its silo's is listed, but its silo is not found or has two rows.
theorem keyed_of_agrees (hbare : ∀ key row, table.rows.get? key = some row → row.entry.silo.Bare)
    (hversion : table.version = some stamp) (h : (Snapshot.of table.rows.values stamp).Agrees table.readRow) :
    table.rows.Keyed := by
  have hnodup : (table.rows.toList.map fun pair => pair.2.entry.silo).Nodup := by
    have hvalues := ((Snapshot.perm_rows_of table.rows.values stamp).map _).nodup_iff.mp h.nodup
    rwa [Rows.values, List.map_map] at hvalues
  rintro ⟨key, row⟩ hpair
  have hread := h.row row.entry.silo (hbare key row (Rows.get?_of_mem_toList hpair))
  rw [readRow_of_version _ hversion] at hread
  obtain ⟨hrows, -⟩ := Snapshot.mk.inj (Except.ok.inj hread)
  have hlisted : row ∈ (Snapshot.of table.rows.values stamp).rows :=
    (Snapshot.perm_rows_of _ stamp).mem_iff.mpr (List.mem_map_of_mem hpair)
  have hfound : row ∈ (table.rows.get? row.entry.silo.rowKey).toList := by
    rw [hrows, List.mem_filter]
    exact ⟨hlisted, beq_self_eq_true _⟩
  have hown := Rows.mem_toList_of_get? (Option.mem_toList.mp hfound)
  exact congrArg Prod.fst (List.inj_on_of_nodup_map hnodup hown hpair rfl)

theorem sound_of_agrees (hbare : ∀ key row, table.rows.get? key = some row → row.entry.silo.Bare)
    (hversion : table.version = some stamp) (h : (Snapshot.of table.rows.values stamp).Agrees table.readRow) :
    table.Sound where
  keyed := keyed_of_agrees hbare hversion h
  bare := hbare
  gateway key row hrow := by
    refine row.entry.gateway?_port.mp (h.gateway row ?_)
    have hvalue : row ∈ table.rows.values := List.mem_map_of_mem (Rows.mem_toList_of_get? hrow)
    exact (Snapshot.perm_rows_of table.rows.values stamp).mem_iff.mpr hvalue

end Deployment

theorem Call.Effect.sound {call : Call} {won : Bool} {before after : Deployment}
    (h : call.Effect won before after) (hsound : before.Sound)
    (hbuilt : ∀ entry stamp, call.write? = some (entry, stamp) → entry.Built ∧ entry.silo.Bare) : after.Sound := by
  cases h with
  | still _ hstill => exact hsound.of_still hstill
  | write _ entry stamp hwrite _ hafter =>
    obtain ⟨hentry, hbare⟩ := hbuilt entry stamp hwrite
    exact hafter ▸ hsound.commit hentry hbare stamp
  | stamp _ _ _ hsame => exact hsound.of_rows hsame
  | delete _ _ _ hempty => exact Deployment.sound_of_rows_empty hempty

end Muster
