import Muster.Proofs.Update.Effect

-- What happens to the rows of a table that only changes of the roll write to: they stay, their statuses
-- move forward, and their suspicions add up.
namespace Muster

namespace Deployment

-- A table that has just got its stamp, for the first time or after a clearing.
def anew (table : Deployment) (drawn : UInt64) : Deployment := (table.clear.establish drawn).2

theorem stamped_anew (table : Deployment) (drawn : UInt64) : (table.anew drawn).Stamped := by
  intro stamp h
  rw [← Option.some.inj h]
  rfl

-- The rows are there still, and none has gone back in its life.
def Grows (earlier later : Deployment) : Prop :=
  ∀ key row, earlier.rows.get? key = some row → ∃ row', later.rows.get? key = some row' ∧
    row'.entry.silo = row.entry.silo ∧
    (row'.entry.status = row.entry.status ∨ row.entry.status.precedes row'.entry.status)

theorem Grows.refl (table : Deployment) : table.Grows table :=
  fun _ row hrow => ⟨row, hrow, rfl, Or.inl rfl⟩

end Deployment

theorem Status.precedes_trans {a b c : Status} (hab : a.precedes b) (hbc : b.precedes c) : a.precedes c := by
  simp only [Status.precedes, decide_eq_true_eq] at hab hbc ⊢
  omega

namespace Deployment

theorem Grows.trans {a b c : Deployment} (hab : a.Grows b) (hbc : b.Grows c) : a.Grows c := by
  intro key row hrow
  obtain ⟨row₁, hrow₁, hsilo₁, hstatus₁⟩ := hab key row hrow
  obtain ⟨row₂, hrow₂, hsilo₂, hstatus₂⟩ := hbc key row₁ hrow₁
  refine ⟨row₂, hrow₂, hsilo₂.trans hsilo₁, ?_⟩
  rcases hstatus₁ with heq₁ | hlt₁
  · rw [← heq₁]
    exact hstatus₂
  · rcases hstatus₂ with heq₂ | hlt₂
    · exact Or.inr (heq₂ ▸ hlt₁)
    · exact Or.inr (Status.precedes_trans hlt₁ hlt₂)

theorem Grows.dead {earlier later : Deployment} (h : earlier.Grows later) {key : String} {row : Row}
    (hrow : earlier.rows.get? key = some row) (hdead : row.entry.status = .dead) :
    ∃ row', later.rows.get? key = some row' ∧ row'.entry.status = .dead := by
  obtain ⟨row', hrow', -, hsame | hforward⟩ := h key row hrow
  · exact ⟨row', hrow', hsame.trans hdead⟩
  · rw [hdead, Status.dead_not_precedes] at hforward
    cases hforward

end Deployment

namespace Updater

-- The suspicion against a silo that a call has written.
def Exchange.suspicionOn? (silo : Silo) (exchange : Exchange) : Option Suspicion :=
  if exchange.won ∧ exchange.task.silo = silo then exchange.task.suspicion? else none

-- The suspicions against a silo that have been written, in order.
def suspicionsOn (silo : Silo) (log : List Exchange) : List Suspicion :=
  log.filterMap (Exchange.suspicionOn? silo)

namespace Exchange

-- What a call makes of a row that is there.
structure Advances (exchange : Exchange) (row row' : Row) : Prop where
  silo : row'.entry.silo = row.entry.silo
  status : row'.entry.status = row.entry.status ∨ row.entry.status.precedes row'.entry.status
  suspicions : row'.entry.suspicions = row.entry.suspicions ++ (exchange.suspicionOn? row.entry.silo).toList

variable {exchange : Exchange} {key : String} {row : Row}

theorem advances_of_still {row' : Row} (h : row'.still = row.still)
    (hnone : exchange.suspicionOn? row.entry.silo = none) : exchange.Advances row row' where
  silo := Row.silo_eq_of_still h
  status := Or.inl (Row.status_eq_of_still h)
  suspicions := by rw [hnone, Option.toList_none, List.append_nil, Row.suspicions_eq_of_still h]

theorem Effect.advances (h : exchange.Effect) (hrow : exchange.before.rows.get? key = some row)
    (hkey : row.entry.silo.rowKey = key) :
    ∃ row', exchange.after.rows.get? key = some row' ∧ exchange.Advances row row' := by
  cases h with
  | quiet hwon hstill =>
      obtain ⟨row', hrow', hsame⟩ := Deployment.exists_row_of_still hstill hrow
      exact ⟨row', hrow', advances_of_still hsame (by simp [suspicionOn?, hwon])⟩
  | insert entry stamp _ _ htask hfree hafter =>
      have hne : key ≠ entry.silo.rowKey := by
        rintro rfl
        simp [hrow] at hfree
      refine ⟨row, ?_, advances_of_still rfl (by simp [suspicionOn?, htask, Task.suspicion?])⟩
      rw [hafter, Deployment.get?_commit, if_neg hne, hrow]
  | revise current entry stored stamp hwon _ hsilo hfound hstill hrevises hafter =>
      by_cases hsame : key = entry.silo.rowKey
      · have hrowkey : key = exchange.task.silo.rowKey := by rw [hsame, hsilo]
        obtain rfl : row = stored := Option.some.inj (hrow.symm.trans (hrowkey ▸ hfound))
        have hsilo' : row.entry.silo = exchange.task.silo := by
          rw [Row.silo_eq_of_still hstill, ← hrevises.silo_eq, hsilo]
        have hstatus : row.entry.status = current.status := Row.status_eq_of_still hstill
        have hsuspicions : row.entry.suspicions = current.suspicions := Row.suspicions_eq_of_still hstill
        refine ⟨⟨entry, ⟨exchange.before.token 1⟩⟩, ?_, ?_⟩
        · rw [hafter, Deployment.get?_commit, if_pos hsame]
        · constructor
          case silo => rw [hsilo', hsilo]
          case status =>
            rw [hstatus]
            exact hrevises.status_forward
          case suspicions =>
            have hbrought : exchange.suspicionOn? row.entry.silo = exchange.task.suspicion? := by
              simp [suspicionOn?, hwon, hsilo']
            rw [hsuspicions, hbrought]
            exact hrevises.suspicions_eq
      · refine ⟨row, ?_, advances_of_still rfl ?_⟩
        · rw [hafter, Deployment.get?_commit, if_neg hsame, hrow]
        · have hne : exchange.task.silo ≠ row.entry.silo := by
            intro heq
            exact hsame (by rw [← hkey, hsilo, heq])
          simp [suspicionOn?, hne]

-- A row comes by an insertion of the entry it holds then.
theorem Effect.inserts (h : exchange.Effect) (hfree : exchange.before.rows.get? key = none) :
    (exchange.after.rows.get? key = none ∧ ∀ silo, silo.rowKey = key → exchange.suspicionOn? silo = none) ∨
    ∃ entry token, exchange.won ∧ exchange.task = .insert entry ∧ entry.silo.rowKey = key ∧
      exchange.after.rows.get? key = some ⟨entry, token⟩ := by
  cases h with
  | quiet hwon hstill =>
      refine Or.inl ⟨?_, fun silo _ => by simp [suspicionOn?, hwon]⟩
      have hget := Deployment.get?_eq_of_still hstill key
      rw [hfree, Option.map_none] at hget
      exact Option.map_eq_none_iff.mp hget
  | insert entry stamp hwon _ htask _ hafter =>
      by_cases hkey : entry.silo.rowKey = key
      · refine Or.inr ⟨entry, ⟨exchange.before.token 1⟩, hwon, htask, hkey, ?_⟩
        rw [hafter, Deployment.get?_commit, if_pos hkey.symm]
      · refine Or.inl ⟨?_, fun silo _ => by simp [suspicionOn?, htask, Task.suspicion?]⟩
        rw [hafter, Deployment.get?_commit, if_neg (Ne.symm hkey), hfree]
  | revise current entry stored stamp hwon _ hsilo hfound _ _ hafter =>
      have hne : key ≠ exchange.task.silo.rowKey := by
        rintro rfl
        simp [hfound] at hfree
      refine Or.inl ⟨?_, fun silo hkey => ?_⟩
      · rw [hafter, Deployment.get?_commit, hsilo, if_neg hne, hfree]
      · have hother : exchange.task.silo ≠ silo := by
          rintro rfl
          exact hne hkey.symm
        simp [suspicionOn?, hother]

-- An entry that is put in the place of another one is stored as it is.
theorem Effect.stores (h : exchange.Effect) (hwon : exchange.won) {entry : Entry}
    (hrevision : exchange.revision? = some entry) :
    (exchange.after.rows.get? exchange.task.silo.rowKey).map Row.entry = some entry := by
  cases h with
  | quiet hlost => simp [hlost] at hwon
  | insert _ _ _ hcall => simp [revision?, hcall] at hrevision
  | revise current revised stored stamp _ hcall hsilo _ _ _ hafter =>
      obtain rfl : revised = entry := by simpa [revision?, hcall] using hrevision
      rw [hafter, Deployment.get?_commit, hsilo, if_pos rfl, Option.map_some]

end Exchange

end Updater
end Muster
