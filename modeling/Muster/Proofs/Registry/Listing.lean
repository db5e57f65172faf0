import Muster.Proofs.Registry.Columns
import Muster.Proofs.Registry.Lookup

-- What a registry hands out, all records or one of them, are the rows of its table laid out in columns.
namespace Muster

namespace Registry

open Updater

-- A row of a table under a stamp, as it is handed out.
def handed (registry : Registry) (stamp : Version) (row : Row) : Record × Etag :=
  (.ofEntry registry.deployment row.entry (some stamp.counter), row.etag)

-- What a registry says when it is asked about a table, for all records or for one by its keys.
def listing (registry : Registry) (table : Deployment) : Except RegistryError (List (Record × Etag)) :=
  (table.readAll.mapError .table).bind fun snapshot => .ok (snapshot.rows.map (registry.recordOf snapshot))

def finding (registry : Registry) (deployment rowKey : String) (table : Deployment) :
    Except RegistryError (Option (Record × Etag)) :=
  if deployment ≠ registry.deployment then .ok none
  else
    ((Silo.ofRowKey rowKey).mapError fun error => .record (.rowKey error)).bind fun silo =>
      ((table.readRow silo).mapError .table).bind fun snapshot =>
        .ok ((snapshot.rowFor? silo).map (registry.recordOf snapshot))

section
variable {σ : Type} {around : Surroundings σ} {deployment : String} {filed : Prop} {holds : σ → Deployment → Prop}
  {state : σ} {table : Deployment}

theorem listing_yields (hserves : around.Serves deployment filed holds) (hholds : holds state table)
    (registry : Registry) : registry.readAll.Yields around state fun result state' =>
      result = registry.listing table ∧ holds state' table :=
  readThen_yields hserves hholds .readAll nofun trivial (fun _ => rfl) _

theorem finding_yields (hserves : around.Serves deployment filed holds) (hholds : holds state table)
    (registry : Registry) (asked key : String) : (registry.read asked key).Yields around state fun result state' =>
      result = registry.finding asked key table ∧ holds state' table := by
  unfold read finding
  by_cases hown : asked = registry.deployment
  · rw [if_neg (not_not.mpr hown), if_neg (not_not.mpr hown)]
    cases hsilo : Silo.ofRowKey key with
    | error error => exact ⟨rfl, hholds⟩
    | ok silo => exact readThen_yields hserves hholds (.readRow silo) nofun trivial (fun _ => rfl) _
  · rw [if_pos hown, if_pos hown]
    exact ⟨rfl, hholds⟩

end

variable {registry : Registry} {table : Deployment} {roll : Roll} {stamp : Version} {all : List (Record × Etag)}
  {deployment key : String} {silo : Silo}

theorem listing_of_version (hversion : table.version = some stamp) (registry : Registry) :
    registry.listing table = .ok ((Snapshot.of table.rows.values stamp).rows.map (registry.handed stamp)) := by
  rw [listing, Deployment.readAll, Deployment.stamp_eq_ok hversion]
  rfl

theorem mem_listing (hversion : table.version = some stamp) (hall : registry.listing table = .ok all)
    {listed : Record × Etag} : listed ∈ all ↔ ∃ row ∈ table.rows.values, registry.handed stamp row = listed := by
  rw [listing_of_version hversion] at hall
  rw [← Except.ok.inj hall, List.mem_map]
  simp only [(Snapshot.perm_rows_of _ _).mem_iff]

theorem version_of_listing (hall : registry.listing table = .ok all) : ∃ stamp, table.version = some stamp := by
  cases hversion : table.version with
  | some stamp => exact ⟨stamp, rfl⟩
  | none =>
    rw [listing, Deployment.readAll, Deployment.stamp_eq_error hversion] at hall
    cases hall

theorem finding_of_silo (registry : Registry) (h : table.Lists roll) (hversion : table.version = some stamp)
    (hsilo : Silo.ofRowKey key = .ok silo) :
    registry.finding registry.deployment key table =
      .ok ((table.rows.get? silo.rowKey).map (registry.handed stamp)) := by
  obtain ⟨snapshot, hread, hstamp, hrow⟩ := h.readRow (Silo.bare_of_ofRowKey hsilo)
  obtain rfl := Option.some.inj (hversion.symm.trans hstamp)
  rw [finding, if_neg (not_not.mpr rfl), hsilo]
  simp only [Except.mapError, Except.bind, hread, hrow]
  rfl

-- What one is told who asks for a record by its keys, when all records are known.
structure Answers (own : String) (all : List (Record × Etag)) (asked key : String)
    (answer : Except RegistryError (Option (Record × Etag))) : Prop where
  found_iff : ∀ record etag, answer = .ok (some (record, etag)) ↔
    asked = own ∧ (record, etag) ∈ all ∧ ∃ silo, Silo.ofRowKey key = .ok silo ∧ silo.rowKey = record.rowKey
  foreign : asked ≠ own → answer = .ok none
  malformed : asked = own → ∀ error, Silo.ofRowKey key = .error error → answer = .error (.record (.rowKey error))
  missing : asked = own → ∀ silo, Silo.ofRowKey key = .ok silo → (∀ listed ∈ all, listed.1.rowKey ≠ silo.rowKey) →
    answer = .ok none

-- A record is listed under the key of its silo, and found there.
theorem mem_listing_and_rowKey_iff (h : table.Lists roll) (hversion : table.version = some stamp)
    (hall : registry.listing table = .ok all) {listed : Record × Etag} :
    listed ∈ all ∧ silo.rowKey = listed.1.rowKey ↔
      (table.rows.get? silo.rowKey).map (registry.handed stamp) = some listed := by
  simp only [mem_listing hversion hall, Option.map_eq_some_iff, h.keyed.get?_eq_some_iff]
  constructor
  · rintro ⟨⟨row, hrow, rfl⟩, hkey⟩
    exact ⟨row, ⟨hrow, hkey.symm⟩, rfl⟩
  · rintro ⟨row, ⟨hrow, hkey⟩, rfl⟩
    exact ⟨⟨row, hrow, rfl⟩, hkey.symm⟩

theorem answers_of_lists (h : table.Lists roll) (hall : registry.listing table = .ok all) (asked key : String) :
    Answers registry.deployment all asked key (registry.finding asked key table) := by
  obtain ⟨stamp, hversion⟩ := version_of_listing hall
  have hmalformed : ∀ error, Silo.ofRowKey key = .error error →
      registry.finding registry.deployment key table = .error (.record (.rowKey error)) := by
    intro error herror
    rw [finding, if_neg (not_not.mpr rfl), herror]
    rfl
  have hforeign : asked ≠ registry.deployment → registry.finding asked key table = .ok none := fun hne => if_pos hne
  refine ⟨fun record etag => ?_, hforeign, fun hown => hown ▸ hmalformed, fun hown silo hsilo hnone => ?_⟩
  · by_cases hown : asked = registry.deployment
    · subst hown
      cases hsilo : Silo.ofRowKey key with
      | error error => simp [hmalformed error hsilo]
      | ok silo =>
        rw [finding_of_silo registry h hversion hsilo, Except.ok.injEq, ← mem_listing_and_rowKey_iff h hversion hall]
        simp
    · simp [hforeign hown, hown]
  · subst hown
    rw [finding_of_silo registry h hversion hsilo]
    cases hfound : (table.rows.get? silo.rowKey).map (registry.handed stamp) with
    | none => rfl
    | some listed =>
      obtain ⟨hmem, hkey⟩ := (mem_listing_and_rowKey_iff h hversion hall).mpr hfound
      exact absurd hkey.symm (hnone listed hmem)

-- Of the spellings of a silo one is its row key, and the listing has no other.
theorem Answers.found_under {own asked key : String} {answer : Except RegistryError (Option (Record × Etag))}
    (h : Answers own all asked key answer) (hall : registry.listing table = .ok all)
    (hkey : ∀ silo, Silo.ofRowKey key = .ok silo → silo.rowKey = key) (record : Record) (etag : Etag) :
    answer = .ok (some (record, etag)) ↔ asked = own ∧ (record, etag) ∈ all ∧ record.rowKey = key := by
  rw [h.found_iff]
  refine and_congr_right fun _ => and_congr_right fun hmem => ?_
  constructor
  · rintro ⟨silo, hsilo, hsame⟩
    rw [← hsame, hkey silo hsilo]
  · intro hrecord
    obtain ⟨stamp, hversion⟩ := version_of_listing hall
    obtain ⟨row, -, hrow⟩ := (mem_listing hversion hall).mp hmem
    have hrowKey : row.entry.silo.rowKey = key := (congrArg (fun listed => listed.1.rowKey) hrow).trans hrecord
    have hsilo := Silo.ofRowKey_rowKey row.entry.silo
    rw [hrowKey] at hsilo
    exact ⟨_, hsilo, (hkey _ hsilo).trans hrecord.symm⟩

end Registry

end Muster
