import Muster.Table.Deployment

-- Rows and tables apart from the times at which silos were last alive. A heartbeat changes nothing else.
namespace Muster

-- A row as it is but for the time at which its silo was last alive.
def Row.still (row : Row) : Row := { row with entry := row.entry.withAliveTime .epoch }

section
variable {a b : Row}

theorem Row.silo_eq_of_still (h : a.still = b.still) : a.entry.silo = b.entry.silo := by
  simpa [Row.still] using congrArg (fun row => row.entry.silo) h

theorem Row.etag_eq_of_still (h : a.still = b.still) : a.etag = b.etag := by
  simpa [Row.still] using congrArg Row.etag h

theorem Row.status_eq_of_still (h : a.still = b.still) : a.entry.status = b.entry.status := by
  simpa [Row.still, Entry.withAliveTime] using congrArg (fun row => row.entry.status) h

theorem Row.gatewayPort_eq_of_still (h : a.still = b.still) : a.entry.gatewayPort = b.entry.gatewayPort := by
  simpa [Row.still, Entry.withAliveTime] using congrArg (fun row => row.entry.gatewayPort) h

theorem Row.suspicions_eq_of_still (h : a.still = b.still) : a.entry.suspicions = b.entry.suspicions := by
  simpa [Row.still, Entry.withAliveTime] using congrArg (fun row => row.entry.suspicions) h

end

theorem Row.still_withAliveTime (row : Row) (time : Instant) :
    Row.still { row with entry := row.entry.withAliveTime time } = row.still := rfl

namespace Rows

def still (rows : Rows) : Rows :=
  ⟨rows.toList.map fun (key, row) => (key, row.still), List.pairwise_map.mpr rows.sorted⟩

theorem get?_still (rows : Rows) (key : String) : rows.still.get? key = (rows.get? key).map Row.still :=
  lookup_map (fun _ => Row.still) rows.toList key

theorem values_still (rows : Rows) : rows.still.values = rows.values.map Row.still := by
  simp [values, still, Function.comp_def]

theorem still_adjust (rows : Rows) (key : String) {change : Row → Row}
    (h : ∀ row, (change row).still = row.still) : (rows.adjust key change).still = rows.still := by
  simp only [still, adjust, List.map_map, Rows.mk.injEq]
  apply List.map_congr_left
  rintro ⟨k, row⟩ _
  by_cases hk : k = key <;> simp [hk, h]

end Rows

namespace Deployment

def still (table : Deployment) : Deployment := { table with rows := table.rows.still }

theorem id_eq_of_still {a b : Deployment} (h : a.still = b.still) : a.id = b.id := by
  simpa [still] using congrArg Deployment.id h

theorem version_eq_of_still {a b : Deployment} (h : a.still = b.still) : a.version = b.version := by
  simpa [still] using congrArg Deployment.version h

theorem incarnation_eq_of_still {a b : Deployment} (h : a.still = b.still) :
    a.incarnation = b.incarnation := by
  simpa [still] using congrArg Deployment.incarnation h

theorem sequence_eq_of_still {a b : Deployment} (h : a.still = b.still) : a.sequence = b.sequence := by
  simpa [still] using congrArg Deployment.sequence h

theorem rows_eq_of_still {a b : Deployment} (h : a.still = b.still) : a.rows.still = b.rows.still := by
  simpa [still] using congrArg Deployment.rows h

theorem get?_eq_of_still {a b : Deployment} (h : a.still = b.still) (key : String) :
    (a.rows.get? key).map Row.still = (b.rows.get? key).map Row.still := by
  rw [← Rows.get?_still, ← Rows.get?_still, rows_eq_of_still h]

theorem exists_row_of_still {a b : Deployment} (h : a.still = b.still) {key : String} {row : Row}
    (hrow : b.rows.get? key = some row) : ∃ row', a.rows.get? key = some row' ∧ row'.still = row.still := by
  have hget := get?_eq_of_still h key
  rw [hrow, Option.map_some] at hget
  exact Option.map_eq_some_iff.mp hget

end Deployment
end Muster
