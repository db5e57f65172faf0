import Muster.Table.Rows

namespace Muster

-- What a reader gets: rows in the order of their silos, and the stamp of the table they stood in.
structure Snapshot where
  rows : List Row
  version : Version
deriving DecidableEq

namespace Snapshot

-- Rows of one silo keep the order they are given in.
def of (rows : List Row) (version : Version) : Snapshot :=
  ⟨rows.mergeSort fun a b => a.entry.silo.le b.entry.silo, version⟩

def rowFor? (snapshot : Snapshot) (silo : Silo) : Option Row :=
  snapshot.rows.find? fun row => row.entry.silo == silo

def activeSilos (snapshot : Snapshot) : List Silo :=
  (snapshot.rows.filter fun row => row.entry.status.isActive).map fun row => row.entry.silo

theorem perm_rows_of (rows : List Row) (version : Version) :
    (of rows version).rows.Perm rows :=
  List.mergeSort_perm rows _

theorem rows_of_toList (row : Option Row) (version : Version) :
    (of row.toList version).rows = row.toList := by
  cases row with
  | none => rw [of, Option.toList_none, List.mergeSort_nil]
  | some row => rw [of, Option.toList_some, List.mergeSort_singleton]

theorem rowFor?_of_toList {row : Option Row} {version : Version} {silo : Silo} {found : Row}
    (h : (of row.toList version).rowFor? silo = some found) : row = some found ∧ found.entry.silo = silo := by
  rw [rowFor?, rows_of_toList] at h
  cases row with
  | none => cases h
  | some row =>
      have hsilo := List.find?_some h
      have hmem := List.mem_of_find?_eq_some h
      rw [Option.toList_some, List.mem_singleton] at hmem
      exact ⟨congrArg some hmem.symm, by simpa using hsilo⟩

end Snapshot
end Muster
