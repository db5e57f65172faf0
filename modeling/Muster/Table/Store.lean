import Muster.Table.Call
import Muster.Table.Deployment
import Muster.Time.Clock
import Muster.Time.Work

namespace Muster

-- Tables kept in memory, one for each deployment that has been established.
structure Store where
  tables : List Deployment
  outage : Option String
  latency : Span
deriving DecidableEq

namespace Store

def empty : Store := ⟨[], none, .zero⟩

def find? (store : Store) (deployment : String) : Option Deployment :=
  store.tables.find? fun table => table.id == deployment

-- A deployment that is not there looks like one that has no stamp.
def table (store : Store) (deployment : String) : Deployment := (store.find? deployment).getD (.new deployment)

-- Puts a table where the one of its deployment is, or behind the others.
def put (store : Store) (table : Deployment) : Store :=
  { store with
    tables :=
      if store.tables.any fun other => other.id == table.id then
        store.tables.map fun other => if other.id == table.id then table else other
      else store.tables ++ [table] }

def remove (store : Store) (deployment : String) : Store :=
  { store with tables := store.tables.filter fun table => table.id != deployment }

def write (store : Store) (deployment : String) (change : Deployment → Except Fault (α × Deployment)) :
    Except Fault α × Store :=
  match store.find? deployment with
  | none => (.error (.notInitialized deployment), store)
  | some table =>
    match change table with
    | .error fault => (.error fault, store)
    | .ok (value, table) => (.ok value, store.put table)

-- The answer to a call for a deployment. A table that gets its stamp here takes the incarnation drawn.
def answer (deployment : String) (drawn : UInt64) (call : Call) (store : Store) : call.Answer × Store :=
  match call with
  | .establish true => (.ok true, store.put ((store.table deployment).establish drawn).2)
  | .establish false => (.ok (store.table deployment).isInitialized, store)
  | .delete other => (.ok (), store.remove other)
  | .readRow silo => ((store.table deployment).readRow silo, store)
  | .readAll => ((store.table deployment).readAll, store)
  | .insertRow entry expected => store.write deployment fun table => table.insertRow entry expected
  | .updateRow entry etag expected => store.write deployment fun table => table.updateRow entry etag expected
  | .mergeAlive entry => store.write deployment fun table => (table.mergeAlive entry).map fun table => ((), table)

-- A call takes the latency of the store, and comes to nothing in an outage.
def perform (clock : Clock) (deployment : String) (drawn : UInt64) (call : Call) : Work Store call.Answer := do
  let store ← Work.get
  if !store.latency.isZero then Work.sleep (clock.sleepTicks store.latency)
  match store.outage with
  | some reason => pure (.error (.unavailable reason))
  | none => Work.act (answer deployment drawn call)

theorem id_of_find? {store : Store} {deployment : String} {table : Deployment}
    (h : store.find? deployment = some table) : table.id = deployment := by
  simpa using List.find?_some h

theorem id_table (store : Store) (deployment : String) : (store.table deployment).id = deployment := by
  cases h : store.find? deployment with
  | none => simp [Store.table, h, Deployment.new]
  | some table => simp [Store.table, h, id_of_find? h]

private theorem find?_replaced (tables : List Deployment) (table : Deployment)
    (h : tables.any fun other => other.id == table.id) :
    (tables.map fun other => if other.id == table.id then table else other).find?
      (fun other => other.id == table.id) = some table := by
  induction tables with
  | nil => simp at h
  | cons head rest ih =>
      by_cases hid : head.id = table.id
      · simp [hid]
      · simp only [List.any_cons, Bool.or_eq_true, beq_iff_eq, hid, false_or] at h
        simpa [hid] using ih h

theorem find?_put (store : Store) (table : Deployment) :
    (store.put table).find? table.id = some table := by
  unfold put find?
  by_cases h : store.tables.any fun other => other.id == table.id
  · simp only [h, if_true]
    exact find?_replaced store.tables table h
  · have hnone : store.tables.find? (fun other => other.id == table.id) = none := by
      simpa using h
    simp only [h]
    rw [if_neg Bool.false_ne_true, List.find?_append, hnone]
    simp

theorem table_put (store : Store) (table : Deployment) : (store.put table).table table.id = table := by
  rw [Store.table, find?_put, Option.getD_some]

theorem table_put_of_id {store : Store} {table : Deployment} {deployment : String} (h : table.id = deployment) :
    (store.put table).table deployment = table := by
  rw [← h, table_put]

theorem table_remove_of_ne {deployment other : String} (store : Store) (h : other ≠ deployment) :
    (store.remove other).table deployment = store.table deployment := by
  simp only [Store.table, find?, remove, List.find?_filter]
  congr 2
  funext table
  by_cases hid : table.id = deployment
  · simp [hid, h.symm]
  · simp [hid]

end Store

def Call.within (call : Call) (clock : Clock) (limit : Span) (work : Work σ call.Answer) : Work σ call.Answer :=
  work.within (clock.ticks limit) (.error (.timeout call.name limit))

end Muster
