import Muster.Proofs.Member.RowKey
import Muster.Proofs.Net.Endpoint
import Muster.Proofs.Time.Instant
import Muster.Table.Deployment

-- What is read back of everything that a table is made of. The text of an endpoint leaves out its flow, and that of a
-- leap second in the middle of a minute is the one of the second after it. All else comes back as it was.
namespace Muster

namespace Silo

def reread (silo : Silo) : Silo := { silo with endpoint := silo.endpoint.reread }

def Legible (silo : Silo) : Prop := silo.endpoint.flow = 0

instance (silo : Silo) : Decidable silo.Legible := inferInstanceAs (Decidable (_ = _))

variable {silo : Silo}

theorem reread_eq_self_iff : silo.reread = silo ↔ silo.Legible := by
  rw [Legible, ← Net.Endpoint.reread_eq_self_iff]
  exact ⟨congrArg Silo.endpoint, fun h => by rw [reread, h]⟩

theorem Bare.legible (h : silo.Bare) : silo.Legible := h.1

@[simp] theorem rowKey_reread (silo : Silo) : silo.reread.rowKey = silo.rowKey :=
  (rowKey_eq_iff _ _).mpr ⟨silo.endpoint.ip_reread, silo.endpoint.port_reread, rfl⟩

end Silo

namespace Suspicion

def reread (suspicion : Suspicion) : Suspicion := ⟨suspicion.voter.reread, suspicion.time.reread⟩

def Legible (suspicion : Suspicion) : Prop := suspicion.voter.Legible ∧ suspicion.time.Legible

instance (suspicion : Suspicion) : Decidable suspicion.Legible := inferInstanceAs (Decidable (_ ∧ _))

theorem reread_eq_self_iff {suspicion : Suspicion} : suspicion.reread = suspicion ↔ suspicion.Legible := by
  obtain ⟨voter, time⟩ := suspicion
  simp only [reread, Legible, Suspicion.mk.injEq, Silo.reread_eq_self_iff, Instant.reread_eq_self_iff]

end Suspicion

namespace Entry

def reread (entry : Entry) : Entry :=
  { entry with
    silo := entry.silo.reread
    startTime := entry.startTime.reread
    aliveTime := entry.aliveTime.reread
    suspicions := entry.suspicions.map Suspicion.reread }

def Legible (entry : Entry) : Prop :=
  entry.silo.Legible ∧ entry.startTime.Legible ∧ entry.aliveTime.Legible ∧
    ∀ suspicion ∈ entry.suspicions, suspicion.Legible

instance (entry : Entry) : Decidable entry.Legible := inferInstanceAs (Decidable (_ ∧ _))

variable {entry : Entry}

theorem reread_eq_self_iff : entry.reread = entry ↔ entry.Legible := by
  have hsuspicions : entry.suspicions.map Suspicion.reread = entry.suspicions ↔
      ∀ suspicion ∈ entry.suspicions, suspicion.Legible := by
    have hall := List.map_inj_left (f := Suspicion.reread) (g := id) (l := entry.suspicions)
    rw [List.map_id] at hall
    exact hall.trans (forall₂_congr fun _ _ => Suspicion.reread_eq_self_iff)
  rw [Legible, ← Silo.reread_eq_self_iff, ← Instant.reread_eq_self_iff, ← Instant.reread_eq_self_iff, ← hsuspicions]
  cases entry
  simp [reread]

end Entry

def Row.reread (row : Row) : Row := { row with entry := row.entry.reread }

theorem Row.reread_eq_self_iff {row : Row} : row.reread = row ↔ row.entry.Legible := by
  rw [← Entry.reread_eq_self_iff]
  exact ⟨congrArg Row.entry, fun h => by rw [reread, h]⟩

namespace Rows

def reread (rows : Rows) : Rows :=
  ⟨rows.toList.map fun (key, row) => (key, row.reread), List.pairwise_map.mpr rows.sorted⟩

theorem get?_reread (rows : Rows) (key : String) : rows.reread.get? key = (rows.get? key).map Row.reread :=
  lookup_map (fun _ => Row.reread) rows.toList key

theorem reread_eq_self_iff {rows : Rows} : rows.reread = rows ↔
    ∀ key row, rows.get? key = some row → row.entry.Legible := by
  refine ⟨fun h key row hrow => ?_, fun h => ?_⟩
  · have hread := rows.get?_reread key
    rw [h, hrow] at hread
    exact Row.reread_eq_self_iff.mp (Option.some.inj hread).symm
  · have hpairs : (rows.toList.map fun (key, row) => (key, row.reread)) = rows.toList.map id := by
      refine List.map_congr_left fun (key, row) hpair => ?_
      exact congrArg (key, ·) (Row.reread_eq_self_iff.mpr (h key row (get?_of_mem_toList hpair)))
    obtain ⟨pairs, sorted⟩ := rows
    simpa [reread] using hpairs

end Rows

namespace Deployment

def reread (table : Deployment) : Deployment := { table with rows := table.rows.reread }

def Legible (table : Deployment) : Prop := ∀ key row, table.rows.get? key = some row → row.entry.Legible

theorem legible_new (id : String) : (new id).Legible := by
  intro key row hrow
  cases hrow

theorem Legible.commit {table : Deployment} (h : table.Legible) {entry : Entry} (hentry : entry.Legible)
    (stamp : Version) : (table.commit entry stamp).Legible := by
  intro key row hrow
  rw [get?_commit] at hrow
  split at hrow
  · exact Option.some.inj hrow ▸ hentry
  · exact h key row hrow

theorem reread_eq_self_iff {table : Deployment} : table.reread = table ↔ table.Legible := by
  rw [Legible, ← Rows.reread_eq_self_iff]
  exact ⟨congrArg Deployment.rows, fun h => by rw [reread, h]⟩

end Deployment
end Muster
