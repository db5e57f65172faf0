import Muster.Json.Deployment
import Muster.Proofs.Json.Reread

-- What has been read leaves nothing out when it is written: it is its own rereading.
namespace Muster

namespace Net.Endpoint

theorem flow_of_takeV4? {text rest : List Char} {endpoint : Endpoint} (h : takeV4? text = some (endpoint, rest)) :
    endpoint.flow = 0 := by
  obtain ⟨_, _, h⟩ := Option.bind_eq_some_iff.mp h
  obtain ⟨_, _, h⟩ := Option.bind_eq_some_iff.mp h
  obtain ⟨rfl, -⟩ := Prod.mk.inj (Option.some.inj h)
  rfl

theorem flow_of_takeV6? {text rest : List Char} {endpoint : Endpoint} (h : takeV6? text = some (endpoint, rest)) :
    endpoint.flow = 0 := by
  obtain ⟨_, _, h⟩ := Option.bind_eq_some_iff.mp h
  obtain ⟨_, _, h⟩ := Option.bind_eq_some_iff.mp h
  obtain ⟨_, _, h⟩ := Option.bind_eq_some_iff.mp h
  obtain ⟨_, _, h⟩ := Option.bind_eq_some_iff.mp h
  obtain ⟨rfl, -⟩ := Prod.mk.inj (Option.some.inj h)
  rfl

theorem flow_of_ofText? {text : List Char} {endpoint : Endpoint} (h : ofText? text = some endpoint) :
    endpoint.flow = 0 := by
  unfold ofText? at h
  split at h
  · next htake =>
    obtain rfl := Option.some.inj h
    cases hquad : takeV4? text with
    | some taken =>
      rw [hquad] at htake
      exact flow_of_takeV4? (hquad.trans htake)
    | none =>
      rw [hquad] at htake
      exact flow_of_takeV6? htake
  · cases h

end Net.Endpoint

namespace Json

variable {α β : Type} {read : Value → Option α} {fields : List (String × Value)} {name : String}
  {rest : α → Option β} {b : β}

theorem exists_of_required (h : (required fields name read >>= rest) = some b) :
    ∃ a, (∃ value, read value = some a) ∧ rest a = some b := by
  obtain ⟨a, hfield, hrest⟩ := Option.bind_eq_some_iff.mp h
  obtain ⟨value, -, hread⟩ := Option.bind_eq_some_iff.mp hfield
  exact ⟨a, ⟨value, hread⟩, hrest⟩

theorem exists_of_mapM {γ : Type} {read : γ → Option α} {values : List γ} {as : List α}
    (h : values.mapM read = some as) : ∀ a ∈ as, ∃ value, read value = some a := by
  induction values generalizing as with
  | nil =>
    obtain rfl := Option.some.inj h
    exact List.forall_mem_nil _
  | cons value values ih =>
    rw [List.mapM_cons] at h
    obtain ⟨first, hfirst, h⟩ := Option.bind_eq_some_iff.mp h
    obtain ⟨others, hothers, h⟩ := Option.bind_eq_some_iff.mp h
    obtain rfl := Option.some.inj h
    exact List.forall_mem_cons.mpr ⟨⟨value, hfirst⟩, ih hothers⟩

end Json

open Muster.Json

theorem Instant.legible_of_ofJson? {value : Value} {instant : Instant} (h : ofJson? value = some instant) :
    instant.Legible := by
  obtain ⟨text, -, htext⟩ := Option.bind_eq_some_iff.mp h
  obtain ⟨reading, -, hreading⟩ := Option.bind_eq_some_iff.mp htext
  exact legible_of_instant? hreading

theorem Silo.legible_of_ofJson? {value : Value} {silo : Silo} (h : ofJson? value = some silo) : silo.Legible := by
  obtain ⟨fields, -, h⟩ := Option.bind_eq_some_iff.mp h
  obtain ⟨endpoint, ⟨field, hendpoint⟩, h⟩ := exists_of_required h
  obtain ⟨generation, -, h⟩ := exists_of_required h
  obtain rfl := Option.some.inj h
  obtain ⟨text, -, htext⟩ := Option.bind_eq_some_iff.mp hendpoint
  exact Net.Endpoint.flow_of_ofText? htext

theorem Suspicion.legible_of_ofJson? {value : Value} {suspicion : Suspicion} (h : ofJson? value = some suspicion) :
    suspicion.Legible := by
  obtain ⟨fields, -, h⟩ := Option.bind_eq_some_iff.mp h
  obtain ⟨voter, ⟨_, hvoter⟩, h⟩ := exists_of_required h
  obtain ⟨time, ⟨_, htime⟩, h⟩ := exists_of_required h
  obtain rfl := Option.some.inj h
  exact ⟨Silo.legible_of_ofJson? hvoter, Instant.legible_of_ofJson? htime⟩

theorem Entry.legible_of_ofJson? {value : Value} {entry : Entry} (h : ofJson? value = some entry) : entry.Legible := by
  obtain ⟨fields, -, h⟩ := Option.bind_eq_some_iff.mp h
  obtain ⟨silo, ⟨_, hsilo⟩, h⟩ := exists_of_required h
  obtain ⟨host, -, h⟩ := exists_of_required h
  obtain ⟨status, -, h⟩ := exists_of_required h
  obtain ⟨gatewayPort, -, h⟩ := Option.bind_eq_some_iff.mp h
  obtain ⟨isPrimary, -, h⟩ := exists_of_required h
  obtain ⟨role, -, h⟩ := exists_of_required h
  obtain ⟨instanceName, -, h⟩ := exists_of_required h
  obtain ⟨updateZone, -, h⟩ := exists_of_required h
  obtain ⟨faultZone, -, h⟩ := exists_of_required h
  obtain ⟨startTime, ⟨_, hstart⟩, h⟩ := exists_of_required h
  obtain ⟨aliveTime, ⟨_, halive⟩, h⟩ := exists_of_required h
  obtain ⟨suspicions, ⟨list, hsuspicions⟩, h⟩ := exists_of_required h
  obtain rfl := Option.some.inj h
  refine ⟨Silo.legible_of_ofJson? hsilo, Instant.legible_of_ofJson? hstart, Instant.legible_of_ofJson? halive, ?_⟩
  unfold Value.list? at hsuspicions
  split at hsuspicions
  · intro suspicion hmem
    obtain ⟨item, hitem⟩ := exists_of_mapM hsuspicions suspicion hmem
    exact Suspicion.legible_of_ofJson? hitem
  · cases hsuspicions

theorem Row.legible_of_ofJson? {value : Value} {row : Row} (h : ofJson? value = some row) : row.entry.Legible := by
  obtain ⟨fields, -, h⟩ := Option.bind_eq_some_iff.mp h
  obtain ⟨entry, ⟨_, hentry⟩, h⟩ := exists_of_required h
  obtain ⟨etag, -, h⟩ := exists_of_required h
  obtain rfl := Option.some.inj h
  exact Entry.legible_of_ofJson? hentry

namespace Rows

theorem mem_of_foldl_insert {pairs : List (String × Row)} {rows : Rows} {pair : String × Row}
    (h : pair ∈ (pairs.foldl (fun rows (key, row) => rows.insert key row) rows).toList) :
    pair ∈ pairs ∨ pair ∈ rows.toList := by
  induction pairs generalizing rows with
  | nil => exact Or.inr h
  | cons first pairs ih =>
    rcases ih h with hmem | hmem
    · exact Or.inl (List.mem_cons_of_mem _ hmem)
    · rcases mem_place hmem with rfl | hmem
      · exact Or.inl List.mem_cons_self
      · exact Or.inr hmem

theorem legible_of_ofJson? {value : Value} {rows : Rows} (h : ofJson? value = some rows) {key : String} {row : Row}
    (hrow : rows.get? key = some row) : row.entry.Legible := by
  unfold ofJson? at h
  split at h
  · obtain ⟨pairs, hpairs, rfl⟩ := Option.map_eq_some_iff.mp h
    rcases mem_of_foldl_insert (mem_toList_of_get? hrow) with hmem | hmem
    · obtain ⟨⟨name?, field⟩, hfield⟩ := exists_of_mapM hpairs _ hmem
      cases name? with
      | none => cases hfield
      | some name =>
        obtain ⟨read, hread, hpair⟩ := Option.map_eq_some_iff.mp hfield
        obtain ⟨-, rfl⟩ := Prod.mk.inj hpair
        exact Row.legible_of_ofJson? hread
    · cases hmem
  · cases h

end Rows

namespace Deployment

theorem legible_of_ofJson? {value : Value} {table : Deployment} (h : ofJson? value = some table) : table.Legible := by
  obtain ⟨fields, -, h⟩ := Option.bind_eq_some_iff.mp h
  obtain ⟨id, -, h⟩ := exists_of_required h
  obtain ⟨version, -, h⟩ := Option.bind_eq_some_iff.mp h
  obtain ⟨rows, ⟨_, hrows⟩, h⟩ := exists_of_required h
  obtain ⟨incarnation, -, h⟩ := Option.bind_eq_some_iff.mp h
  obtain ⟨sequence, -, h⟩ := exists_of_required h
  obtain rfl := Option.some.inj h
  exact fun key row => Rows.legible_of_ofJson? hrows

theorem legible_of_ofBytes? {bytes : ByteArray} {table : Deployment} (h : ofBytes? bytes = some table) :
    table.Legible := by
  obtain ⟨value, -, hvalue⟩ := Option.bind_eq_some_iff.mp h
  exact legible_of_ofJson? hvalue

end Deployment
end Muster
