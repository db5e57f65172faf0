import Muster.Member.Entry
import Muster.Table.Version

namespace Muster

structure Row where
  entry : Entry
  etag : Etag
deriving DecidableEq

-- The rows of a table under their keys, in the order of the keys.
structure Rows where
  toList : List (String × Row)
  sorted : toList.Pairwise fun a b => a.1 < b.1
deriving DecidableEq

-- A filter that lets pass what stands under a key leaves the key's value in place.
theorem lookup_filter [BEq α] [LawfulBEq α] {p : α × β → Bool} {key : α} {pairs : List (α × β)}
    (h : ∀ pair ∈ pairs, pair.1 = key → p pair = true) : (pairs.filter p).lookup key = pairs.lookup key := by
  induction pairs with
  | nil => rfl
  | cons head rest ih =>
    obtain ⟨k, value⟩ := head
    have hrest := ih fun pair hpair => h pair (List.mem_cons_of_mem _ hpair)
    by_cases hkey : k = key
    · rw [List.filter_cons_of_pos (h (k, value) List.mem_cons_self hkey), hkey, List.lookup_cons_self,
        List.lookup_cons_self]
    · have hbeq : (key == k) = false := beq_eq_false_iff_ne.mpr (Ne.symm hkey)
      rw [List.filter_cons]
      split <;> simp [List.lookup_cons, hbeq, hrest]

-- Where every key stands once, what stands under a key is found there.
theorem lookup_of_nodup [BEq α] [LawfulBEq α] {pairs : List (α × β)} (hnodup : (pairs.map Prod.fst).Nodup) {key : α}
    {value : β} (h : (key, value) ∈ pairs) : pairs.lookup key = some value := by
  obtain ⟨front, back, rfl⟩ := List.append_of_mem h
  rw [List.map_append, List.nodup_append] at hnodup
  refine List.lookup_eq_some_iff.mpr ⟨front, back, rfl, fun pair hpair => ?_⟩
  exact bne_iff_ne.mpr (hnodup.2.2 _ (List.mem_map_of_mem hpair) _ List.mem_cons_self).symm

namespace Rows

def empty : Rows := ⟨[], .nil⟩

def get? (rows : Rows) (key : String) : Option Row := rows.toList.lookup key

def keys (rows : Rows) : List String := rows.toList.map Prod.fst

def values (rows : Rows) : List Row := rows.toList.map Prod.snd

-- Puts a row in its place and drops the one that was under its key before.
def place (key : String) (row : Row) : List (String × Row) → List (String × Row)
  | [] => [(key, row)]
  | (k, r) :: rest =>
    if key < k then (key, row) :: (k, r) :: rest
    else if k < key then (k, r) :: place key row rest
    else (key, row) :: rest

theorem mem_place {key : String} {row : Row} {rows : List (String × Row)} {pair : String × Row}
    (h : pair ∈ place key row rows) : pair = (key, row) ∨ pair ∈ rows := by
  induction rows with
  | nil => exact Or.inl (by simpa [place] using h)
  | cons head rest ih =>
    obtain ⟨k, r⟩ := head
    unfold place at h
    split at h
    · simpa using h
    · split at h
      · rcases List.mem_cons.mp h with h | h
        · exact Or.inr (h ▸ List.mem_cons_self)
        · exact (ih h).imp id (List.mem_cons_of_mem _)
      · rcases List.mem_cons.mp h with h | h
        · exact Or.inl h
        · exact Or.inr (List.mem_cons_of_mem _ h)

theorem sorted_place (key : String) (row : Row) {rows : List (String × Row)}
    (h : rows.Pairwise fun a b => a.1 < b.1) : (place key row rows).Pairwise fun a b => a.1 < b.1 := by
  induction rows with
  | nil => simp [place]
  | cons head rest ih =>
    obtain ⟨k, r⟩ := head
    obtain ⟨hhead, hrest⟩ := List.pairwise_cons.mp h
    unfold place
    split
    · next hlt =>
      refine List.pairwise_cons.mpr ⟨fun pair hpair => ?_, h⟩
      rcases List.mem_cons.mp hpair with hpair | hpair
      · exact hpair ▸ hlt
      · exact String.lt_trans hlt (hhead pair hpair)
    · split
      · next hgt =>
        refine List.pairwise_cons.mpr ⟨fun pair hpair => ?_, ih hrest⟩
        rcases mem_place hpair with hpair | hpair
        · exact hpair ▸ hgt
        · exact hhead pair hpair
      · next hlt hgt =>
        have hkey : k = key := String.le_antisymm (String.not_lt.mp hlt) (String.not_lt.mp hgt)
        exact List.pairwise_cons.mpr ⟨fun pair hpair => hkey ▸ hhead pair hpair, hrest⟩

def insert (rows : Rows) (key : String) (row : Row) : Rows :=
  ⟨place key row rows.toList, sorted_place key row rows.sorted⟩

def adjust (rows : Rows) (key : String) (change : Row → Row) : Rows :=
  ⟨rows.toList.map fun (k, row) => (k, if k = key then change row else row),
    List.pairwise_map.mpr rows.sorted⟩

-- Of several rows under one key the last one stays.
def ofList (rows : List (String × Row)) : Rows :=
  rows.foldl (fun rows (key, row) => rows.insert key row) empty

theorem mem_toList_of_get? {rows : Rows} {key : String} {row : Row} (h : rows.get? key = some row) :
    (key, row) ∈ rows.toList := by
  obtain ⟨front, back, hlist, -⟩ := List.lookup_eq_some_iff.mp h
  simp [hlist]

theorem get?_of_mem_toList {rows : Rows} {key : String} {row : Row} (h : (key, row) ∈ rows.toList) :
    rows.get? key = some row := by
  have hnodup : (rows.toList.map Prod.fst).Nodup :=
    List.pairwise_map.mpr (rows.sorted.imp fun hlt => String.ne_of_lt hlt)
  exact lookup_of_nodup hnodup h

@[simp] theorem get?_empty (key : String) : empty.get? key = none := rfl

private theorem lookup_cons_of_ne {key other : String} (row : Row) (rest : List (String × Row))
    (h : other ≠ key) : ((key, row) :: rest).lookup other = rest.lookup other := by
  rw [List.lookup_cons, beq_eq_false_iff_ne.mpr h]

theorem lookup_place (key other : String) (row : Row) (rows : List (String × Row)) :
    (place key row rows).lookup other = if other = key then some row else rows.lookup other := by
  induction rows with
  | nil => by_cases h : other = key <;> simp [place, h]
  | cons head rest ih =>
    obtain ⟨k, r⟩ := head
    unfold place
    split
    · by_cases h : other = key
      · simp [h]
      · rw [lookup_cons_of_ne _ _ h, if_neg h]
    · next hlt =>
      split
      · next hgt =>
        have hne : k ≠ key := fun h => String.lt_irrefl key (h ▸ hgt)
        by_cases hk : other = k
        · simp [hk, hne]
        · rw [lookup_cons_of_ne _ _ hk, lookup_cons_of_ne _ _ hk, ih]
      · next hgt =>
        have hkey : k = key := String.le_antisymm (String.not_lt.mp hlt) (String.not_lt.mp hgt)
        by_cases h : other = key
        · simp [h]
        · rw [lookup_cons_of_ne _ _ h, lookup_cons_of_ne _ _ (hkey ▸ h), if_neg h]

theorem get?_insert (rows : Rows) (key other : String) (row : Row) :
    (rows.insert key row).get? other = if other = key then some row else rows.get? other :=
  lookup_place key other row rows.toList

@[simp] theorem get?_insert_self (rows : Rows) (key : String) (row : Row) :
    (rows.insert key row).get? key = some row := by
  rw [get?_insert, if_pos rfl]

theorem lookup_map (f : String → Row → Row) (rows : List (String × Row)) (other : String) :
    (rows.map fun (key, row) => (key, f key row)).lookup other = (rows.lookup other).map (f other) := by
  induction rows with
  | nil => rfl
  | cons head rest ih =>
    obtain ⟨k, r⟩ := head
    rw [List.map_cons]
    by_cases hk : other = k
    · simp [hk]
    · rw [lookup_cons_of_ne _ _ hk, lookup_cons_of_ne _ _ hk, ih]

theorem get?_adjust (rows : Rows) (key other : String) (change : Row → Row) :
    (rows.adjust key change).get? other =
      (rows.get? other).map fun row => if other = key then change row else row :=
  lookup_map (fun k row => if k = key then change row else row) rows.toList other

end Rows
end Muster
