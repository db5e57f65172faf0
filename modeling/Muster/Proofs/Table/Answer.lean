import Muster.Proofs.Table.Turn
import Muster.Table.Store

-- A table asked from outside: every call is one operation on it, and the store that keeps it in memory
-- gives the same answers.
namespace Muster

namespace Deployment

-- The answer to a call and the table after it. A table that gets its stamp here takes the incarnation
-- drawn.
def answer (table : Deployment) (drawn : UInt64) : (call : Call) → call.Answer × Deployment
  | .establish true => (.ok true, (table.establish drawn).2)
  | .establish false => (.ok table.isInitialized, table)
  | .delete deployment => (.ok (), if deployment = table.id then table.clear else table)
  | .readRow silo => (table.readRow silo, table)
  | .readAll => (table.readAll, table)
  | .insertRow entry expected => table.settle (table.insertRow entry expected)
  | .updateRow entry etag expected => table.settle (table.updateRow entry etag expected)
  | .mergeAlive entry => table.settle ((table.mergeAlive entry).map fun next => ((), next))

theorem id_establish (table : Deployment) (drawn : UInt64) : (table.establish drawn).2.id = table.id := by
  unfold establish
  cases table.version <;> rfl

theorem id_of_insertRow {table next : Deployment} {entry : Entry} {expected : Version} {won : Bool}
    (h : table.insertRow entry expected = .ok (won, next)) : next.id = table.id := by
  obtain ⟨_, _, hwrite⟩ | hwrite | ⟨_, hwrite⟩ := table.insertRow_cases entry expected
  · simp only [hwrite, Except.ok.injEq, Prod.mk.injEq] at h
    rw [← h.2, commit]
  · simp only [hwrite, Except.ok.injEq, Prod.mk.injEq] at h
    rw [h.2]
  · simp [hwrite] at h

theorem id_of_updateRow {table next : Deployment} {entry : Entry} {etag : Etag} {expected : Version} {won : Bool}
    (h : table.updateRow entry etag expected = .ok (won, next)) : next.id = table.id := by
  obtain ⟨_, _, hwrite⟩ | hwrite | ⟨_, hwrite⟩ := table.updateRow_cases entry etag expected
  · simp only [hwrite, Except.ok.injEq, Prod.mk.injEq] at h
    rw [← h.2, commit]
  · simp only [hwrite, Except.ok.injEq, Prod.mk.injEq] at h
    rw [h.2]
  · simp [hwrite] at h

theorem id_of_mergeAlive {table next : Deployment} {entry : Entry} (h : table.mergeAlive entry = .ok next) :
    next.id = table.id := by
  unfold mergeAlive at h
  cases hversion : table.version with
  | none => simp [stamp_eq_error hversion, bind, Except.bind] at h
  | some version =>
      rw [stamp_eq_ok hversion] at h
      rw [← Except.ok.inj h]

theorem id_of_map_mergeAlive {table next : Deployment} {entry : Entry} {value : Unit}
    (h : ((table.mergeAlive entry).map fun next => ((), next)) = .ok (value, next)) : next.id = table.id := by
  cases hmerge : table.mergeAlive entry with
  | error fault => simp [hmerge, Except.map] at h
  | ok merged =>
      simp only [hmerge, Except.map, Except.ok.injEq, Prod.mk.injEq] at h
      rw [← h.2, id_of_mergeAlive hmerge]

variable {table : Deployment} {fault : Fault}

theorem fault_of_stamp {next : Version → Except Fault α} (h : (table.stamp >>= next) = .error fault)
    (hnext : ∀ stamp, next stamp ≠ .error fault) : fault = .notInitialized table.id := by
  cases hversion : table.version with
  | none =>
      rw [stamp_eq_error hversion] at h
      exact (Except.error.inj h).symm
  | some stamp =>
      rw [stamp_eq_ok hversion] at h
      exact absurd h (hnext stamp)

theorem eq_error_of_settle {result : Except Fault (α × Deployment)} (h : (table.settle result).1 = .error fault) :
    result = .error fault := by
  cases result with
  | error fault => exact congrArg Except.error (Except.error.inj h)
  | ok result => cases h

-- A table fails for want of a stamp only.
theorem fault_of_answer {drawn : UInt64} {call : Call} (h : (table.answer drawn call).1 = .error fault) :
    fault = .notInitialized table.id := by
  cases call with
  | establish create => cases create <;> cases h
  | delete deployment => cases h
  | readRow silo => exact fault_of_stamp h fun _ => nofun
  | readAll => exact fault_of_stamp h fun _ => nofun
  | insertRow entry expected =>
      refine fault_of_stamp (eq_error_of_settle h) fun version => ?_
      split
      · exact nofun
      · split <;> exact nofun
  | updateRow entry etag expected =>
      refine fault_of_stamp (eq_error_of_settle h) fun version => ?_
      split
      · exact nofun
      · split
        · exact nofun
        · split <;> exact nofun
  | mergeAlive entry =>
      have hmerge := eq_error_of_settle h
      cases hresult : table.mergeAlive entry with
      | error fault =>
          rw [hresult] at hmerge
          rw [← Except.error.inj hmerge]
          exact fault_of_stamp hresult fun _ => nofun
      | ok next =>
          rw [hresult] at hmerge
          cases hmerge

end Deployment

namespace Call

-- What a call does to a table. To ask for its stamp and to delete another deployment leave it alone,
-- as a reading does.
def operation (drawn : UInt64) (id : String) : Call → Deployment.Operation
  | establish true => .establish drawn
  | establish false => .readAll
  | delete deployment => if deployment = id then .clear else .readAll
  | readRow silo => .readRow silo
  | readAll => .readAll
  | insertRow entry expected => .insertRow entry expected
  | updateRow entry etag expected => .updateRow entry etag expected
  | mergeAlive entry => .mergeAlive entry

def wins : (call : Call) → call.Answer → Bool
  | insertRow _ _, .ok true => true
  | updateRow _ _ _, .ok true => true
  | _, _ => false

theorem answer_eq_perform (table : Deployment) (drawn : UInt64) (call : Call) :
    (table.answer drawn call).2 = (table.perform (call.operation drawn table.id)).2 := by
  cases call with
  | establish create => cases create <;> rfl
  | delete deployment =>
    by_cases h : deployment = table.id <;> simp [Deployment.answer, operation, Deployment.perform, h]
  | _ => rfl

theorem wins_eq_isSome (table : Deployment) (drawn : UInt64) (call : Call) :
    call.wins (table.answer drawn call).1 =
      (Deployment.Turn.mk table (call.operation drawn table.id)).won?.isSome := by
  cases call with
  | establish create => cases create <;> rfl
  | delete deployment =>
    by_cases h : deployment = table.id <;> simp [wins, operation, Deployment.Turn.won?, h]
  | insertRow entry expected =>
    obtain ⟨_, _, h⟩ | h | ⟨_, h⟩ := table.insertRow_cases entry expected <;>
      simp [wins, Deployment.answer, operation, Deployment.Turn.won?, Deployment.Turn.outcome,
        Deployment.perform, Deployment.settle, h]
  | updateRow entry etag expected =>
    obtain ⟨_, _, h⟩ | h | ⟨_, h⟩ := table.updateRow_cases entry etag expected <;>
      simp [wins, Deployment.answer, operation, Deployment.Turn.won?, Deployment.Turn.outcome,
        Deployment.perform, Deployment.settle, h]
  | _ => rfl

end Call

namespace Store

theorem write_eq_settle (store : Store) (deployment : String)
    (change : Deployment → Except Fault (α × Deployment))
    (hnew : change (.new deployment) = .error (.notInitialized deployment))
    (hid : ∀ table value next, change table = .ok (value, next) → next.id = table.id) :
    (store.write deployment change).1 = ((store.table deployment).settle (change (store.table deployment))).1 ∧
    (store.write deployment change).2.table deployment =
      ((store.table deployment).settle (change (store.table deployment))).2 := by
  unfold write
  cases hfind : store.find? deployment with
  | none => simp [Store.table, hfind, hnew, Deployment.settle]
  | some table =>
      have htable : store.table deployment = table := by rw [Store.table, hfind, Option.getD_some]
      cases hchange : change table with
      | error fault => simp [htable, hchange, Deployment.settle]
      | ok result =>
          have hnext := (hid table result.1 result.2 hchange).trans (id_of_find? hfind)
          simp [htable, hchange, Deployment.settle, table_put_of_id hnext]

-- A store answers for a deployment as its table does, unless the deployment is deleted.
theorem answer_eq (deployment : String) (drawn : UInt64) (call : Call) (store : Store)
    (h : call ≠ .delete deployment) :
    (store.answer deployment drawn call).1 = ((store.table deployment).answer drawn call).1 ∧
    (store.answer deployment drawn call).2.table deployment = ((store.table deployment).answer drawn call).2 := by
  cases call with
  | establish create =>
      cases create with
      | false => exact ⟨rfl, rfl⟩
      | true => exact ⟨rfl, table_put_of_id ((Deployment.id_establish _ drawn).trans (store.id_table deployment))⟩
  | delete other =>
      have hother : other ≠ deployment := fun heq => h (heq ▸ rfl)
      refine ⟨rfl, (store.table_remove_of_ne hother).trans ?_⟩
      rw [Deployment.answer, if_neg (by rw [id_table]; exact hother)]
  | readRow silo => exact ⟨rfl, rfl⟩
  | readAll => exact ⟨rfl, rfl⟩
  | insertRow entry expected =>
      exact store.write_eq_settle deployment _ rfl fun _ _ _ => Deployment.id_of_insertRow
  | updateRow entry etag expected =>
      exact store.write_eq_settle deployment _ rfl fun _ _ _ => Deployment.id_of_updateRow
  | mergeAlive entry =>
      exact store.write_eq_settle deployment _ rfl fun _ _ _ => Deployment.id_of_map_mergeAlive

theorem fault_of_answer {store : Store} {deployment : String} {drawn : UInt64} {call : Call} {fault : Fault}
    (h : (store.answer deployment drawn call).1 = .error fault) : fault = .notInitialized deployment := by
  by_cases hdelete : call = .delete deployment
  · subst hdelete
    cases h
  · rw [(answer_eq deployment drawn call store hdelete).1] at h
    rw [Deployment.fault_of_answer h, id_table]

end Store
end Muster
