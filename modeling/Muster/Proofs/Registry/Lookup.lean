import Mathlib.Data.List.Induction
import Muster.Proofs.Member.Order
import Muster.Proofs.Registry.Round

-- Whoever looks for gateways or for the primary finds them on the roll.
namespace Muster

namespace Roll

-- The gateways of the active silos, each once and in order.
structure Gateways (roll : Roll) (endpoints : List Net.Endpoint) : Prop where
  ordered : endpoints.Pairwise fun a b => a.sortKey < b.sortKey
  mem_iff : ∀ endpoint, endpoint ∈ endpoints ↔
    ∃ silo entry, roll.members silo = some ⟨entry, .active⟩ ∧ entry.gateway? = some endpoint

-- The silo is an active primary, and no active primary has started later. Among those that have started
-- together it is listed last.
structure Leads (roll : Roll) (silo : Silo) : Prop where
  primary : ∃ entry, roll.members silo = some ⟨entry, .active⟩ ∧ entry.isPrimary = true
  latest : ∀ other entry, roll.members other = some ⟨entry, .active⟩ → entry.isPrimary = true →
    other.generation < silo.generation ∨ silo.generation = other.generation ∧ other.le silo = true

def Primary (roll : Roll) : Option Net.Endpoint → Prop
  | some endpoint => ∃ silo, silo.endpoint = endpoint ∧ roll.Leads silo
  | none => ∀ silo entry, roll.members silo = some ⟨entry, .active⟩ → entry.isPrimary = false

end Roll

namespace Registry

section
variable {α : Type} [DecidableEq α]

theorem mem_dropRepeated {a : α} {list : List α} : a ∈ dropRepeated list ↔ a ∈ list := by
  induction list using dropRepeated.induct with
  | case1 => rfl
  | case2 b => rfl
  | case3 b rest ih => simp [dropRepeated, ih]
  | case4 b c rest hne ih => simp [dropRepeated, hne, ih]

-- Of a list in order what is left is in order, and nothing is in it twice.
theorem pairwise_dropRepeated {key : α → List Nat} (hkey : ∀ {a b}, key a = key b → a = b) {list : List α}
    (h : list.Pairwise fun a b => ¬key b < key a) : (dropRepeated list).Pairwise fun a b => key a < key b := by
  induction list using dropRepeated.induct with
  | case1 => exact .nil
  | case2 b => exact List.pairwise_singleton _ _
  | case3 b rest ih =>
    rw [dropRepeated, if_pos rfl]
    exact ih (List.pairwise_cons.mp h).2
  | case4 b c rest hne ih =>
    obtain ⟨hb, hrest⟩ := List.pairwise_cons.mp h
    rw [dropRepeated, if_neg hne, List.pairwise_cons]
    refine ⟨fun a ha => ?_, ih hrest⟩
    have hbc : key b < key c := lt_of_le_of_ne (not_lt.mp (hb c List.mem_cons_self)) fun heq => hne (hkey heq)
    rcases List.mem_cons.mp (mem_dropRepeated.mp ha) with rfl | ha
    · exact hbc
    · exact lt_of_lt_of_le hbc (not_lt.mp ((List.pairwise_cons.mp hrest).1 a ha))

end

theorem mem_gatewaysOf {snapshot : Snapshot} {endpoint : Net.Endpoint} : endpoint ∈ gatewaysOf snapshot ↔
    ∃ row ∈ snapshot.rows, row.entry.status.isActive = true ∧ row.entry.gateway? = some endpoint := by
  simp [gatewaysOf, mem_dropRepeated, List.mem_mergeSort, and_assoc]

theorem pairwise_gatewaysOf (snapshot : Snapshot) :
    (gatewaysOf snapshot).Pairwise fun a b => a.sortKey < b.sortKey := by
  refine pairwise_dropRepeated Net.Endpoint.sortKey_injective ?_
  refine (List.pairwise_mergeSort (fun a b c => ?_) (fun a b => ?_) _).imp fun {a b} h => ?_
  · simpa using fun hab hbc => le_trans hab hbc
  · simpa using le_total a.sortKey b.sortKey
  · simpa using h

section
variable {a b c : Silo}

theorem outranks_iff : outranks a b = true ↔
    b.generation < a.generation ∨ a.generation = b.generation ∧ b.le a = true := by
  simp [outranks]

theorem outranks_refl (a : Silo) : outranks a a = true := by
  rw [outranks_iff, Silo.le_iff]
  exact Or.inr ⟨rfl, le_refl _⟩

theorem outranks_trans (hab : outranks a b = true) (hbc : outranks b c = true) : outranks a c = true := by
  rw [outranks_iff, Silo.le_iff, Int32.lt_iff_toInt_lt, ← Int32.toInt_inj] at hab hbc ⊢
  rcases hab with hab | ⟨hab, hle⟩
  · exact Or.inl (by omega)
  · rcases hbc with hbc | ⟨hbc, hle'⟩
    · exact Or.inl (by omega)
    · exact Or.inr ⟨by omega, le_trans hle' hle⟩

theorem outranks_total (a b : Silo) : outranks a b = true ∨ outranks b a = true := by
  simp only [outranks_iff, Silo.le_iff, Int32.lt_iff_toInt_lt, ← Int32.toInt_inj]
  rcases lt_trichotomy a.generation.toInt b.generation.toInt with h | h | h
  · exact Or.inr (Or.inl h)
  · exact (le_total b.sortKey a.sortKey).imp (fun hle => Or.inr ⟨h, hle⟩) fun hle => Or.inr ⟨h.symm, hle⟩
  · exact Or.inl (Or.inl h)

end

-- The one of some silos that outranks them all.
def Best (silos : List Silo) : Option Silo → Prop
  | none => silos = []
  | some best => best ∈ silos ∧ ∀ silo ∈ silos, outranks best silo = true

theorem best_foldl (silos : List Silo) : Best silos (silos.foldl
    (fun best silo =>
      match best with
      | none => some silo
      | some best => if outranks silo best then some silo else some best)
    none) := by
  induction silos using List.reverseRecOn with
  | nil => rfl
  | append_singleton silos silo ih =>
    rw [List.foldl_append, List.foldl_cons, List.foldl_nil]
    generalize silos.foldl _ none = best? at ih ⊢
    cases best? with
    | none =>
      have hnil : silos = [] := ih
      simp [hnil, Best, outranks_refl]
    | some best =>
      obtain ⟨hmem, hbest⟩ := ih
      dsimp only
      split
      · next hsilo =>
        refine ⟨by simp, fun other hother => ?_⟩
        rcases List.mem_append.mp hother with hother | hother
        · exact outranks_trans hsilo (hbest other hother)
        · rw [List.mem_singleton.mp hother]
          exact outranks_refl silo
      · next hsilo =>
        refine ⟨List.mem_append_left _ hmem, fun other hother => ?_⟩
        rcases List.mem_append.mp hother with hother | hother
        · exact hbest other hother
        · rw [List.mem_singleton.mp hother]
          exact (outranks_total silo best).resolve_left hsilo

theorem best_primaryOf (snapshot : Snapshot) :
    Best ((snapshot.rows.filter fun row => row.entry.status.isActive && row.entry.isPrimary).map fun row =>
      row.entry.silo) (primaryOf snapshot) := best_foldl _

end Registry

namespace Deployment.Lists

open Registry

variable {table : Deployment} {roll : Roll} {silo : Silo} {entry : Entry} {row : Row}

-- The rows of active silos, and what they are on the roll.
theorem active_of_row (h : table.Lists roll) (hrow : row ∈ table.rows.values)
    (hactive : row.entry.status.isActive = true) :
    ∃ entry, roll.members row.entry.silo = some ⟨entry, .active⟩ ∧
      row.still.entry = Member.standing ⟨entry, .active⟩ := by
  obtain ⟨⟨entry, phase⟩, hmember, hstanding⟩ := h.member_of_row hrow
  have hstatus : row.entry.status = phase.status := congrArg Entry.status hstanding
  rw [hstatus] at hactive
  cases phase with
  | active => exact ⟨entry, hmember, hstanding⟩
  | created => cases hactive
  | dead => cases hactive

theorem row_of_active (h : table.Lists roll) (hmember : roll.members silo = some ⟨entry, .active⟩) :
    ∃ row ∈ table.rows.values, row.entry.silo = silo ∧ row.entry.status.isActive = true ∧
      row.still.entry = Member.standing ⟨entry, .active⟩ := by
  obtain ⟨row, hrow, hsilo, hstanding⟩ := h.row_of_member hmember
  have hstatus : row.entry.status = .active := congrArg Entry.status hstanding
  exact ⟨row, hrow, hsilo, by rw [hstatus]; rfl, hstanding⟩

theorem gateways (h : table.Lists roll) (stamp : Version) :
    roll.Gateways (gatewaysOf (.of table.rows.values stamp)) where
  ordered := pairwise_gatewaysOf _
  mem_iff endpoint := by
    have hrows : ∀ row, row ∈ (Snapshot.of table.rows.values stamp).rows ↔ row ∈ table.rows.values :=
      fun row => (Snapshot.perm_rows_of _ _).mem_iff
    rw [mem_gatewaysOf]
    constructor
    · rintro ⟨row, hrow, hactive, hgateway⟩
      obtain ⟨entry, hmember, hstanding⟩ := h.active_of_row ((hrows row).mp hrow) hactive
      have hsame : row.entry.gateway? = entry.gateway? := (congrArg Entry.gateway? hstanding :)
      exact ⟨_, entry, hmember, hsame ▸ hgateway⟩
    · rintro ⟨silo, entry, hmember, hgateway⟩
      obtain ⟨row, hrow, -, hactive, hstanding⟩ := h.row_of_active hmember
      have hsame : row.entry.gateway? = entry.gateway? := (congrArg Entry.gateway? hstanding :)
      exact ⟨row, (hrows row).mpr hrow, hactive, hsame.trans hgateway⟩

theorem primary (h : table.Lists roll) (stamp : Version) :
    roll.Primary ((primaryOf (.of table.rows.values stamp)).map fun silo => silo.endpoint) := by
  have hrows : ∀ row, row ∈ (Snapshot.of table.rows.values stamp).rows ↔ row ∈ table.rows.values :=
    fun row => (Snapshot.perm_rows_of _ _).mem_iff
  have hlisted : ∀ silo entry, roll.members silo = some ⟨entry, .active⟩ → entry.isPrimary = true →
      silo ∈ ((Snapshot.of table.rows.values stamp).rows.filter fun row =>
        row.entry.status.isActive && row.entry.isPrimary).map fun row => row.entry.silo := by
    intro silo entry hmember hprimary
    obtain ⟨row, hrow, rfl, hactive, hstanding⟩ := h.row_of_active hmember
    have hsame : row.entry.isPrimary = entry.isPrimary := (congrArg Entry.isPrimary hstanding :)
    refine List.mem_map.mpr ⟨row, List.mem_filter.mpr ⟨(hrows row).mpr hrow, ?_⟩, rfl⟩
    rw [hactive, hsame, hprimary]
    rfl
  have hbest := best_primaryOf (.of table.rows.values stamp)
  cases hfound : primaryOf (.of table.rows.values stamp) with
  | none =>
    rw [hfound] at hbest
    intro silo entry hmember
    cases hprimary : entry.isPrimary with
    | false => rfl
    | true =>
      have hmem := hlisted silo entry hmember hprimary
      rw [show _ = [] from hbest] at hmem
      cases hmem
  | some best =>
    rw [hfound] at hbest
    obtain ⟨hmem, hbest⟩ := hbest
    refine ⟨best, rfl, ?_, fun other entry hmember hprimary => ?_⟩
    · obtain ⟨row, hrow, rfl⟩ := List.mem_map.mp hmem
      obtain ⟨hrow, hpass⟩ := List.mem_filter.mp hrow
      obtain ⟨hactive, hprimary⟩ := Bool.and_eq_true_iff.mp hpass
      obtain ⟨entry, hmember, hstanding⟩ := h.active_of_row ((hrows row).mp hrow) hactive
      have hsame : row.entry.isPrimary = entry.isPrimary := (congrArg Entry.isPrimary hstanding :)
      exact ⟨entry, hmember, hsame.symm.trans hprimary⟩
    · exact outranks_iff.mp (hbest other (hlisted other entry hmember hprimary))

end Deployment.Lists

namespace Registry

open Plan Updater

variable {σ : Type} {around : Surroundings σ} {deployment : String} {filed : Prop} {holds : σ → Deployment → Prop}
  {state : σ} {roll? : Option Roll}

-- A reading tells what the table says, and leaves it alone.
theorem readThen_yields {α : Type} {table : Deployment} (hserves : around.Serves deployment filed holds)
    (hholds : holds state table) (call : Call) (hcall : ∀ other, call ≠ .delete other) (hlegible : call.Legible)
    {answer : call.Answer} (hanswer : ∀ drawn, table.answer drawn call = (answer, table))
    (next : call.Result → Except RegistryError α) :
    (readThen call next).Yields around state fun result state' =>
      result = (answer.mapError RegistryError.table).bind next ∧ holds state' table := by
  refine yields_call hserves hholds call hcall (fun _ => hlegible) fun drawn state' hholds' => ?_
  rw [hanswer] at hholds' ⊢
  cases answer with
  | error fault => exact ⟨rfl, hholds'⟩
  | ok result => exact ⟨rfl, hholds'⟩

-- What is found on a roll. Without a roll nothing can be looked up.
def Finds {α : Type} (deployment : String) (shows : Roll → α → Prop) (roll? : Option Roll)
    (result : Except RegistryError α) : Prop :=
  match roll? with
  | none => result = .error (.table (.notInitialized deployment))
  | some roll => ∃ value, result = .ok value ∧ shows roll value

theorem readAll_yields {α : Type} (hserves : around.Serves deployment filed holds) (hheld : Held holds roll? state)
    {look : Snapshot → α} (shows : Roll → α → Prop)
    (hlook : ∀ (table : Deployment) (roll : Roll), table.Lists roll → ∀ stamp,
      shows roll (look (.of table.rows.values stamp))) :
    (readThen .readAll fun snapshot => .ok (look snapshot)).Yields around state
      fun result state' => Finds deployment shows roll? result ∧ Held holds roll? state' := by
  obtain ⟨table, hholds, hkeeps⟩ := hheld
  obtain ⟨hresult, hholds'⟩ := readThen_yields hserves hholds .readAll nofun trivial (fun _ => rfl)
    fun snapshot => .ok (look snapshot)
  refine ⟨?_, table, hholds', hkeeps⟩
  cases roll? with
  | none =>
    rw [hresult, Deployment.readAll, Deployment.stamp_eq_error hkeeps.1, hserves.id hholds]
    rfl
  | some roll =>
    obtain ⟨stamp, hversion, -⟩ := hkeeps.version
    rw [hresult, Deployment.readAll, Deployment.stamp_eq_ok hversion]
    exact ⟨_, rfl, hlook table roll hkeeps stamp⟩

theorem gateways_yields (hserves : around.Serves deployment filed holds) (hheld : Held holds roll? state)
    (registry : Registry) : registry.gateways.Yields around state
      fun result state' => Finds deployment Roll.Gateways roll? result ∧ Held holds roll? state' :=
  readAll_yields hserves hheld Roll.Gateways fun _ _ hlists => hlists.gateways

theorem primary_yields (hserves : around.Serves deployment filed holds) (hheld : Held holds roll? state)
    (registry : Registry) : registry.primary.Yields around state
      fun result state' => Finds deployment Roll.Primary roll? result ∧ Held holds roll? state' :=
  readAll_yields hserves hheld Roll.Primary fun _ _ hlists => hlists.primary

end Registry

end Muster
