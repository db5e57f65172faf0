import Muster.Proofs.Member.RowKey
import Muster.Proofs.Table.Turn

-- Every row stands under the key of its own silo, so silos with different keys have nothing in common.
namespace Muster

namespace Rows

def Keyed (rows : Rows) : Prop := ∀ pair ∈ rows.toList, pair.2.entry.silo.rowKey = pair.1

variable {rows : Rows} {key : String} {row : Row}

theorem keyed_empty : empty.Keyed := by
  intro pair hpair
  cases hpair

theorem keyed_still : rows.still.Keyed ↔ rows.Keyed := List.forall_mem_map

theorem Keyed.of_still {other : Rows} (h : rows.Keyed) (hstill : other.still = rows.still) : other.Keyed :=
  keyed_still.mp (hstill ▸ keyed_still.mpr h)

theorem Keyed.insert (h : rows.Keyed) (hrow : row.entry.silo.rowKey = key) : (rows.insert key row).Keyed := by
  intro pair hpair
  rcases mem_place hpair with rfl | hpair
  · exact hrow
  · exact h pair hpair

theorem Keyed.rowKey_of_get? (h : rows.Keyed) (hrow : rows.get? key = some row) :
    row.entry.silo.rowKey = key := h _ (mem_toList_of_get? hrow)

-- A row is under the key of its silo, and nowhere else.
theorem Keyed.get?_eq_some_iff (h : rows.Keyed) :
    rows.get? key = some row ↔ row ∈ rows.values ∧ row.entry.silo.rowKey = key := by
  constructor
  · exact fun hrow => ⟨List.mem_map_of_mem (mem_toList_of_get? hrow), h.rowKey_of_get? hrow⟩
  · rintro ⟨hrow, rfl⟩
    obtain ⟨⟨key, row⟩, hpair, rfl⟩ := List.mem_map.mp hrow
    have hkey : row.entry.silo.rowKey = key := h _ hpair
    rw [hkey]
    exact get?_of_mem_toList hpair

-- The rows of one silo.
def ofSilo (rows : Rows) (silo : Silo) : List Row := rows.values.filter fun row => row.entry.silo == silo

theorem filter_place {p : String × Row → Bool} {rows : List (String × Row)} (hrow : p (key, row) = false)
    (hold : ∀ pair ∈ rows, pair.1 = key → p pair = false) : (place key row rows).filter p = rows.filter p := by
  induction rows with
  | nil => simp [place, hrow]
  | cons head rest ih =>
    obtain ⟨k, r⟩ := head
    have hrest := ih fun pair hpair => hold pair (List.mem_cons_of_mem _ hpair)
    unfold place
    split
    · simp [hrow]
    · next hlt =>
      split
      · simp only [List.filter_cons, hrest]
      · next hgt =>
        have hkey : k = key := String.le_antisymm (String.not_lt.mp hlt) (String.not_lt.mp hgt)
        simp [hrow, hold (k, r) List.mem_cons_self hkey]

theorem ofSilo_eq (rows : Rows) (silo : Silo) :
    rows.ofSilo silo = (rows.toList.filter fun pair => pair.2.entry.silo == silo).map Prod.snd := List.filter_map

theorem Keyed.ofSilo_insert (h : rows.Keyed) (hrow : row.entry.silo.rowKey = key) {silo : Silo}
    (hne : silo.rowKey ≠ key) : (rows.insert key row).ofSilo silo = rows.ofSilo silo := by
  have hother : ∀ {row : Row}, row.entry.silo.rowKey = key → (row.entry.silo == silo) = false := by
    intro row hrow
    refine beq_eq_false_iff_ne.mpr fun hsilo => hne ?_
    rw [← hsilo, hrow]
  rw [ofSilo_eq, ofSilo_eq, Rows.insert, filter_place (hother hrow)]
  intro pair hpair hkey
  exact hother ((h pair hpair).trans hkey)

theorem Keyed.ofSilo_adjust (h : rows.Keyed) {change : Row → Row}
    (hchange : ∀ row, (change row).entry.silo = row.entry.silo) {silo : Silo} (hne : silo.rowKey ≠ key) :
    (rows.adjust key change).ofSilo silo = rows.ofSilo silo := by
  have hsilo : ((fun pair : String × Row => pair.2.entry.silo == silo) ∘
      fun (k, row) => (k, if k = key then change row else row)) = fun pair => pair.2.entry.silo == silo := by
    funext ⟨k, row⟩
    dsimp only [Function.comp_apply]
    split
    · rw [hchange]
    · rfl
  rw [ofSilo_eq, ofSilo_eq, adjust, List.filter_map, hsilo, List.map_map]
  refine List.map_congr_left fun pair hpair => ?_
  obtain ⟨hpair, hpsilo⟩ := List.mem_filter.mp hpair
  have hkey : pair.1 ≠ key := by
    rw [← h pair hpair, eq_of_beq hpsilo]
    exact hne
  exact if_neg hkey

private theorem filter_of_key {p : String × Row → Bool} {key : String} {pairs : List (String × Row)}
    (hsorted : pairs.Pairwise fun a b => a.1 < b.1) (hp : ∀ pair ∈ pairs, p pair = true → pair.1 = key) :
    pairs.filter p = ((pairs.lookup key).toList.map fun row => (key, row)).filter p := by
  induction pairs with
  | nil => rfl
  | cons head rest ih =>
    obtain ⟨k, row⟩ := head
    obtain ⟨hhead, hrest⟩ := List.pairwise_cons.mp hsorted
    have hp' := fun pair hpair => hp pair (List.mem_cons_of_mem _ hpair)
    by_cases hk : k = key
    · subst hk
      have hnone : rest.filter p = [] := by
        rw [List.filter_eq_nil_iff]
        intro pair hpair hpass
        exact String.lt_irrefl k (hp' pair hpair hpass ▸ hhead pair hpair)
      simp [List.filter_cons, hnone]
    · have hfail : p (k, row) = false := by
        cases hpass : p (k, row) with
        | false => rfl
        | true => exact absurd (hp _ List.mem_cons_self hpass) hk
      rw [List.filter_cons_of_neg (by simp [hfail]), ih hrest hp', List.lookup_cons,
        beq_eq_false_iff_ne.mpr (Ne.symm hk)]

-- A silo has its rows under one key.
theorem Keyed.ofSilo_eq_get? (h : rows.Keyed) (silo : Silo) :
    rows.ofSilo silo = (rows.get? silo.rowKey).toList.filter fun row => row.entry.silo == silo := by
  have hkey : ∀ pair ∈ rows.toList, (pair.2.entry.silo == silo) = true → pair.1 = silo.rowKey := by
    intro pair hpair hsilo
    rw [← h pair hpair, eq_of_beq hsilo]
  rw [ofSilo_eq, filter_of_key rows.sorted hkey, List.filter_map, List.map_map]
  exact List.map_id _

-- The rows that are left when a silo has none.
def without (rows : Rows) (silo : Silo) : Rows :=
  ⟨rows.toList.filter fun pair => pair.2.entry.silo != silo, rows.sorted.filter _⟩

theorem Keyed.get?_without (h : rows.Keyed) {silo : Silo} (hne : silo.rowKey ≠ key) :
    (rows.without silo).get? key = rows.get? key := by
  refine lookup_filter fun pair hpair hkey => bne_iff_ne.mpr fun hsilo => hne ?_
  rw [← hsilo, h pair hpair, hkey]

end Rows

namespace Deployment

variable {table next : Deployment} {entry : Entry} {a b : Silo}

theorem rows_commit (table : Deployment) (entry : Entry) (stamp : Version) :
    (table.commit entry stamp).rows = table.rows.insert entry.silo.rowKey ⟨entry, ⟨table.token 1⟩⟩ := rfl

theorem Turn.keyed (turn : Turn) (h : turn.before.rows.Keyed) : turn.after.rows.Keyed := by
  cases turn.course with
  | quiet still _ _ _ _ =>
    exact h.of_still (rows_eq_of_still still)
  | write entry stamp _ after _ _ _ _ =>
    rw [after, rows_commit]
    exact h.insert rfl
  | draw drawn _ after _ _ _ _ =>
    rw [after]
    exact h
  | clear after _ _ _ _ =>
    rw [after]
    exact Rows.keyed_empty

theorem keyed_after (h : table.rows.Keyed) (operations : List Operation) : (table.after operations).rows.Keyed := by
  induction operations generalizing table with
  | nil => exact h
  | cons operation rest ih => exact ih (Turn.keyed ⟨table, operation⟩ h)

theorem silo_ne_of_readRow (h : table.rows.Keyed) (hne : b.rowKey ≠ a.rowKey) {snapshot : Snapshot}
    (hread : table.readRow a = .ok snapshot) {row : Row} (hrow : row ∈ snapshot.rows) : row.entry.silo ≠ b := by
  obtain ⟨stamp, -, rfl⟩ := readRow_eq_ok hread
  rw [Snapshot.rows_of_toList, Option.mem_toList] at hrow
  rintro rfl
  exact hne (h.rowKey_of_get? hrow)

def without (table : Deployment) (silo : Silo) : Deployment := { table with rows := table.rows.without silo }

-- The verdict on a new row is the same whether or not a silo with another key has a row.
theorem insertRow_without (h : table.rows.Keyed) (hne : a.rowKey ≠ entry.silo.rowKey) (expected : Version) :
    ((table.without a).insertRow entry expected).map Prod.fst = (table.insertRow entry expected).map Prod.fst := by
  unfold insertRow
  rw [without, h.get?_without hne]
  cases hversion : table.version with
  | none => simp [stamp, hversion, bind, Except.bind, Except.map]
  | some version =>
    simp only [stamp, hversion, bind, Except.bind]
    split
    · rfl
    · split <;> rfl

theorem ofSilo_mergeAlive (h : table.rows.Keyed) (hne : b.rowKey ≠ entry.silo.rowKey)
    (hmerge : table.mergeAlive entry = .ok next) : next.rows.ofSilo b = table.rows.ofSilo b := by
  unfold mergeAlive at hmerge
  cases hversion : table.version with
  | none => simp [stamp_eq_error hversion, bind, Except.bind] at hmerge
  | some version =>
    rw [stamp_eq_ok hversion] at hmerge
    rw [← Except.ok.inj hmerge]
    refine h.ofSilo_adjust ?_ hne
    exact fun _ => rfl

theorem ofSilo_updateRow (h : table.rows.Keyed) (hne : b.rowKey ≠ entry.silo.rowKey) {etag : Etag}
    {expected : Version} {won : Bool} (hupdate : table.updateRow entry etag expected = .ok (won, next)) :
    next.rows.ofSilo b = table.rows.ofSilo b := by
  obtain ⟨-, -, hwrite⟩ | hwrite | ⟨-, hwrite⟩ := table.updateRow_cases entry etag expected
  · have hnext : table.commit entry expected = next := congrArg Prod.snd (Except.ok.inj (hwrite.symm.trans hupdate))
    have hrow : (Row.mk entry ⟨table.token 1⟩).entry.silo.rowKey = entry.silo.rowKey := rfl
    rw [← hnext, rows_commit, h.ofSilo_insert hrow hne]
  · have hnext : table = next := congrArg Prod.snd (Except.ok.inj (hwrite.symm.trans hupdate))
    rw [← hnext]
  · cases hwrite.symm.trans hupdate

-- Silos that differ in address, port or generation do not get into each other's rows.
theorem rows_stand_apart (id : String) (operations : List Operation) (a b : Silo)
    (h : ¬(a.ip = b.ip ∧ a.port = b.port ∧ a.generation = b.generation)) :
    let table := (new id).after operations
    (∀ snapshot, table.readRow a = .ok snapshot → ∀ row ∈ snapshot.rows, row.entry.silo ≠ b) ∧
    (∀ entry expected, entry.silo = b →
      ((table.without a).insertRow entry expected).map Prod.fst = (table.insertRow entry expected).map Prod.fst) ∧
    (∀ entry next, entry.silo = a → table.mergeAlive entry = .ok next →
      next.rows.ofSilo b = table.rows.ofSilo b) ∧
    ∀ entry etag expected won next, entry.silo = a → table.updateRow entry etag expected = .ok (won, next) →
      next.rows.ofSilo b = table.rows.ofSilo b := by
  intro table
  have hkeyed : table.rows.Keyed := keyed_after Rows.keyed_empty operations
  have hne : a.rowKey ≠ b.rowKey := fun hkey => h ((Silo.rowKey_eq_iff a b).mp hkey)
  refine ⟨?_, ?_, ?_, ?_⟩
  · intro snapshot hread row hrow
    exact silo_ne_of_readRow hkeyed hne.symm hread hrow
  · rintro entry expected rfl
    exact insertRow_without hkeyed hne expected
  · rintro entry next rfl hmerge
    exact ofSilo_mergeAlive hkeyed hne.symm hmerge
  · rintro entry etag expected won next rfl hupdate
    exact ofSilo_updateRow hkeyed hne.symm hupdate

-- A silo that is restarted: its two lives are two silos.
theorem rows_stand_apart_restarted :
    let old := Silo.onLoopback 11111 1
    let young := Silo.onLoopback 11111 2
    let table := (new "d").after [.establish 7, .insertRow (.fresh old "a" .epoch) ⟨0, tokenOf 7 1⟩]
    ¬(old.ip = young.ip ∧ old.port = young.port ∧ old.generation = young.generation) ∧
    (∀ snapshot, table.readRow old = .ok snapshot → ∀ row ∈ snapshot.rows, row.entry.silo ≠ young) ∧
    (∀ entry expected, entry.silo = young →
      ((table.without old).insertRow entry expected).map Prod.fst = (table.insertRow entry expected).map Prod.fst) ∧
    (∀ entry next, entry.silo = old → table.mergeAlive entry = .ok next →
      next.rows.ofSilo young = table.rows.ofSilo young) ∧
    ∀ entry etag expected won next, entry.silo = old → table.updateRow entry etag expected = .ok (won, next) →
      next.rows.ofSilo young = table.rows.ofSilo young := by
  intro old young table
  have hdiffer : ¬(old.ip = young.ip ∧ old.port = young.port ∧ old.generation = young.generation) := by
    decide
  exact ⟨hdiffer, rows_stand_apart "d" [.establish 7, .insertRow (.fresh old "a" .epoch) ⟨0, tokenOf 7 1⟩] old young
    hdiffer⟩

-- Silos that differ in their link alone do get into each other's rows, in each of the four ways.
theorem rows_shared_across_links :
    let a := Silo.linkLocal 0 1
    let b := Silo.linkLocal 0 2
    let entry := (Entry.fresh a "a" .epoch).withAliveTime ((Instant.ofParts? 60 0).getD .epoch)
    let stamp : Version := ⟨1, tokenOf 7 3⟩
    let table := (new "d").after [.establish 7, .insertRow (.fresh b "b" .epoch) ⟨0, tokenOf 7 1⟩]
    a ≠ b ∧
    (table.readRow a).map (fun snapshot => snapshot.rows.map fun row => row.entry.silo) = .ok [b] ∧
    (table.insertRow entry stamp).map Prod.fst = .ok false ∧
    ((table.without b).insertRow entry stamp).map Prod.fst = .ok true ∧
    (table.mergeAlive entry).map (fun next => next.rows.ofSilo b) ≠ .ok (table.rows.ofSilo b) ∧
    table.rows.ofSilo b ≠ [] ∧
    (table.updateRow entry ⟨tokenOf 7 2⟩ stamp).map (fun (won, next) => (won, next.rows.ofSilo b)) =
      .ok (true, []) := by
  decide +kernel

end Deployment
end Muster
