import Muster.Proofs.Json.Reread
import Muster.Proofs.Table.Answer

-- Tables that are the same when they have been written down and read again. Calls that write nothing else keep them
-- so, and show nothing else.
namespace Muster

-- What the call writes comes back from a text.
def Call.Legible : Call → Prop
  | .insertRow entry _ => entry.Legible
  | .updateRow entry _ _ => entry.Legible
  | .mergeAlive entry => entry.aliveTime.Legible
  | _ => True

instance : (call : Call) → Decidable call.Legible
  | .insertRow entry _ => inferInstanceAs (Decidable entry.Legible)
  | .updateRow entry _ _ => inferInstanceAs (Decidable entry.Legible)
  | .mergeAlive entry => inferInstanceAs (Decidable entry.aliveTime.Legible)
  | .establish _ => instDecidableTrue
  | .delete _ => instDecidableTrue
  | .readRow _ => instDecidableTrue
  | .readAll => instDecidableTrue

-- What the answer shows comes back from a text.
def Call.Shows : (call : Call) → call.Answer → Prop
  | .readRow _, .ok snapshot => ∀ row ∈ snapshot.rows, row.entry.Legible
  | .readAll, .ok snapshot => ∀ row ∈ snapshot.rows, row.entry.Legible
  | _, _ => True

namespace Deployment

variable {table next : Deployment} {entry : Entry} {expected : Version}

theorem Legible.establish (h : table.Legible) (drawn : UInt64) : (table.establish drawn).2.Legible := by
  unfold Deployment.establish
  split
  · exact h
  · exact h

theorem Legible.insertRow {won : Bool} (h : table.Legible) (hentry : entry.Legible)
    (hwrite : table.insertRow entry expected = .ok (won, next)) : next.Legible := by
  obtain ⟨-, -, hcommit⟩ | hlost | ⟨-, hfault⟩ := table.insertRow_cases entry expected
  · obtain ⟨-, rfl⟩ := Prod.mk.inj (Except.ok.inj (hcommit.symm.trans hwrite))
    exact h.commit hentry expected
  · obtain ⟨-, rfl⟩ := Prod.mk.inj (Except.ok.inj (hlost.symm.trans hwrite))
    exact h
  · cases hfault.symm.trans hwrite

theorem Legible.updateRow {won : Bool} {etag : Etag} (h : table.Legible) (hentry : entry.Legible)
    (hwrite : table.updateRow entry etag expected = .ok (won, next)) : next.Legible := by
  obtain ⟨-, -, hcommit⟩ | hlost | ⟨-, hfault⟩ := table.updateRow_cases entry etag expected
  · obtain ⟨-, rfl⟩ := Prod.mk.inj (Except.ok.inj (hcommit.symm.trans hwrite))
    exact h.commit hentry expected
  · obtain ⟨-, rfl⟩ := Prod.mk.inj (Except.ok.inj (hlost.symm.trans hwrite))
    exact h
  · cases hfault.symm.trans hwrite

theorem Legible.mergeAlive (h : table.Legible) (htime : entry.aliveTime.Legible)
    (hmerge : table.mergeAlive entry = .ok next) : next.Legible := by
  intro key row hrow
  rw [get?_of_mergeAlive hmerge] at hrow
  obtain ⟨old, hold, rfl⟩ := Option.map_eq_some_iff.mp hrow
  obtain ⟨hsilo, hstart, halive, hsuspicions⟩ := h key old hold
  split
  · exact ⟨hsilo, hstart, htime, hsuspicions⟩
  · exact ⟨hsilo, hstart, halive, hsuspicions⟩

theorem Legible.settle {result : Except Fault (α × Deployment)} (h : table.Legible)
    (hnext : ∀ value next, result = .ok (value, next) → next.Legible) : (table.settle result).2.Legible := by
  cases result with
  | error fault => exact h
  | ok result => exact hnext result.1 result.2 rfl

theorem Legible.shows_readRow (h : table.Legible) (silo : Silo) : (Call.readRow silo).Shows (table.readRow silo) := by
  unfold readRow stamp
  cases table.version with
  | none => trivial
  | some version =>
    intro row hrow
    rw [Snapshot.rows_of_toList] at hrow
    exact h _ row (Option.mem_toList.mp hrow)

theorem Legible.shows_readAll (h : table.Legible) : Call.readAll.Shows table.readAll := by
  unfold readAll stamp
  cases table.version with
  | none => trivial
  | some version =>
    intro row hrow
    have hvalue := (Snapshot.perm_rows_of table.rows.values version).mem_iff.mp hrow
    obtain ⟨⟨key, _⟩, hpair, rfl⟩ := List.mem_map.mp hvalue
    exact h key _ (Rows.get?_of_mem_toList hpair)

theorem Legible.answer (h : table.Legible) (drawn : UInt64) {call : Call} (hcall : call.Legible) :
    (table.answer drawn call).2.Legible ∧ call.Shows (table.answer drawn call).1 := by
  cases call with
  | establish create =>
    cases create with
    | true => exact ⟨h.establish drawn, trivial⟩
    | false => exact ⟨h, trivial⟩
  | delete deployment =>
    refine ⟨?_, trivial⟩
    rw [Deployment.answer]
    split
    · exact legible_new table.id
    · exact h
  | readRow silo => exact ⟨h, h.shows_readRow silo⟩
  | readAll => exact ⟨h, h.shows_readAll⟩
  | insertRow entry expected => exact ⟨h.settle fun _ _ => h.insertRow hcall, trivial⟩
  | updateRow entry etag expected => exact ⟨h.settle fun _ _ => h.updateRow hcall, trivial⟩
  | mergeAlive entry =>
    refine ⟨h.settle fun _ next hmerge => ?_, trivial⟩
    cases hresult : table.mergeAlive entry with
    | error fault =>
      rw [hresult] at hmerge
      cases hmerge
    | ok merged =>
      rw [hresult] at hmerge
      obtain ⟨-, rfl⟩ := Prod.mk.inj (Except.ok.inj hmerge)
      exact h.mergeAlive hcall hresult

end Deployment

namespace Store

def Legible (store : Store) : Prop := ∀ deployment table, store.find? deployment = some table → table.Legible

theorem legible_empty (latency : Span) : Legible { empty with latency } := by
  intro deployment table hfind
  cases hfind

theorem Legible.table {store : Store} (h : store.Legible) (deployment : String) : (store.table deployment).Legible := by
  unfold Store.table
  cases hfind : store.find? deployment with
  | none => exact Deployment.legible_new deployment
  | some table => exact h deployment table hfind

end Store
end Muster
