import Muster.Proofs.Table.Backends
import Muster.Proofs.Table.Effect
import Muster.Proofs.Time.Work
import Muster.Rig.Handle

-- Ways to a table. The calls that get through come to what they come to on the store behind.
namespace Muster

namespace Store

variable {store : Store}

theorem latency_write {α : Type} (store : Store) (deployment : String)
    (change : Deployment → Except Fault (α × Deployment)) :
    (store.write deployment change).2.latency = store.latency := by
  unfold write
  split
  · rfl
  · split <;> rfl

theorem latency_answer (store : Store) (deployment : String) (drawn : UInt64) (call : Call) :
    (store.answer deployment drawn call).2.latency = store.latency := by
  cases call with
  | establish create => cases create <;> rfl
  | insertRow entry expected => exact latency_write store deployment _
  | updateRow entry etag expected => exact latency_write store deployment _
  | mergeAlive entry => exact latency_write store deployment _
  | _ => rfl

theorem elapsed_perform_le (clock : Clock) (deployment : String) (drawn : UInt64) (call : Call) (store : Store) :
    (perform clock deployment drawn call store).elapsed ≤ clock.sleepTicks store.latency := by
  obtain ⟨tables, outage, latency⟩ := store
  by_cases hlatency : latency.isZero <;> cases outage <;>
    simp [perform, bind, Work.get, Work.sleep, Work.act, Course.bind, pure, Course.elapsed, hlatency]

-- Either a call fails and leaves the store alone, or it gets the answer of the store.
def Comes (deployment : String) (drawn : UInt64) (store : Store) (call : Call) (value : call.Answer)
    (left : Store) : Prop :=
  ((∃ fault, value = .error fault) ∧ left = store) ∨
    (value = (store.answer deployment drawn call).1 ∧ left = (store.answer deployment drawn call).2)

theorem perform_idles (clock : Clock) (deployment : String) (drawn : UInt64) (call : Call) (store : Store) :
    (perform clock deployment drawn call store).Idles store (store.Comes deployment drawn call) := by
  obtain ⟨tables, outage, latency⟩ := store
  by_cases hlatency : latency.isZero <;> cases outage <;>
    simp [perform, bind, Work.get, Work.sleep, Work.act, Course.bind, pure, Course.Idles, Comes, hlatency]

-- A store answers as the table of the deployment does, and the call has its effect on that table.
theorem answer_effect (store : Store) (deployment : String) (drawn : UInt64) (call : Call) :
    (store.answer deployment drawn call).1 = ((store.table deployment).answer drawn call).1 ∧
    call.Effect (call.wins (store.answer deployment drawn call).1) (store.table deployment)
      ((store.answer deployment drawn call).2.table deployment) := by
  by_cases hdelete : call = .delete deployment
  · subst hdelete
    have hgone : (store.remove deployment).table deployment = .new deployment := by
      rw [table, find?_remove, if_pos rfl, Option.getD_none]
    refine ⟨rfl, .delete rfl (by rw [id_table]) ?_ ?_⟩ <;> rw [answer, hgone] <;> rfl
  · obtain ⟨hvalue, htable⟩ := answer_eq deployment drawn call store hdelete
    refine ⟨hvalue, ?_⟩
    rw [hvalue, htable]
    exact (store.table deployment).answer_effect drawn call

end Store

namespace Rig

def putStore (rig : Rig) (n : Nat) (store : Store) : Rig := { rig with stores := rig.stores.set n store }

variable (rig : Rig) (n : Nat) (store : Store)

@[simp] theorem queues_putStore : (rig.putStore n store).queues = rig.queues := rfl

@[simp] theorem length_stores_putStore : (rig.putStore n store).stores.length = rig.stores.length :=
  List.length_set

theorem store_putStore {n : Nat} (h : n < rig.stores.length) : (rig.putStore n store).store n = store := by
  rw [Rig.store, putStore, List.getElem?_set_self h, Option.getD_some]

end Rig

namespace Handle

-- How long a call takes.
def latency (rig : Rig) : Handle → Span
  | memory number _ => (rig.store number).latency
  | files _ => .zero
  | deadline inner _ => inner.latency rig
  | contested inner _ => inner.latency rig

-- The calls get through to the store, or to files that mirror it, and nobody else comes between.
def Backs (clock : Clock) (rig : Rig) (store : Store) : Handle → Prop
  | memory number _ => rig.stores[number]? = some store ∧ store.outage = none
  | files table => Mirrors rig.files table.folder store ∧ rig.files.Takes table.folder table.deployment
  | deadline inner limit => inner.Backs clock rig store ∧ clock.sleepTicks (inner.latency rig) ≤ clock.ticks limit
  | contested _ _ => False

-- The table is kept in files.
def Filed : Handle → Prop
  | memory _ _ => False
  | files _ => True
  | deadline inner _ => inner.Filed
  | contested inner _ => inner.Filed

-- A deployment, perhaps not that of the table, has files that can be written, if it is kept in files at all.
def Takes (rig : Rig) (deployment : String) : Handle → Prop
  | memory _ _ => True
  | files table => rig.files.Takes table.folder deployment
  | deadline inner _ => inner.Takes rig deployment
  | contested inner _ => inner.Takes rig deployment

variable {handle : Handle} {hour : Hour} {rig : Rig} {store : Store}

theorem latency_queues (handle : Handle) (rig : Rig) (queues : List EventQueue) :
    handle.latency { rig with queues } = handle.latency rig := by
  induction handle with
  | memory number deployment => rfl
  | files table => rfl
  | deadline inner limit ih => exact ih
  | contested inner script ih => exact ih

theorem backs_queues {clock : Clock} (queues : List EventQueue) :
    handle.Backs clock { rig with queues } store ↔ handle.Backs clock rig store := by
  induction handle with
  | memory number deployment => exact Iff.rfl
  | files table => exact Iff.rfl
  | deadline inner limit ih => simp only [Backs, latency_queues, ih]
  | contested inner script ih => exact Iff.rfl

theorem takes_queues {deployment : String} (queues : List EventQueue) :
    handle.Takes { rig with queues } deployment ↔ handle.Takes rig deployment := by
  induction handle with
  | memory number id => exact Iff.rfl
  | files table => exact Iff.rfl
  | deadline inner limit ih => exact ih
  | contested inner script ih => exact ih

theorem Backs.takes {clock : Clock} (h : handle.Backs clock rig store) : handle.Takes rig handle.deployment := by
  induction handle with
  | memory number id => trivial
  | files table => exact h.2
  | deadline inner limit ih => exact ih h.1
  | contested inner script => exact h.elim

theorem Backs.legible {clock : Clock} (h : handle.Backs clock rig store) (hfiled : handle.Filed) : store.Legible := by
  induction handle with
  | memory number id => exact hfiled.elim
  | files table => exact h.1.legible
  | deadline inner limit ih => exact ih h.1 hfiled
  | contested inner script => exact h.elim

-- A call comes in time to what it comes to on the store.
structure Answers (handle : Handle) (hour : Hour) (rig : Rig) (store : Store) (drawn : UInt64) (call : Call) :
    Prop where
  inTime : (handle.perform hour drawn call rig).elapsed ≤ hour.clock.sleepTicks (handle.latency rig)
  value : (handle.perform hour drawn call rig).value = (store.answer handle.deployment drawn call).1
  backs : handle.Backs hour.clock (handle.perform hour drawn call rig).state
    (store.answer handle.deployment drawn call).2
  latency : handle.latency (handle.perform hour drawn call rig).state = handle.latency rig
  takes : ∀ other, handle.Takes rig other → handle.Takes (handle.perform hour drawn call rig).state other

theorem Backs.answers (h : handle.Backs hour.clock rig store) (drawn : UInt64) (call : Call)
    (hcall : handle.Takes rig (FileTable.target handle.deployment call)) (hlegible : handle.Filed → call.Legible) :
    handle.Answers hour rig store drawn call := by
  induction handle with
  | memory number deployment =>
    obtain ⟨hstore, hup⟩ := h
    have hrig : rig.store number = store := by rw [Rig.store, hstore, Option.getD_some]
    obtain ⟨hvalue, hstate⟩ := Store.perform_eq hour.clock deployment drawn call hup
    have hlt := (List.getElem?_eq_some_iff.mp hstore).1
    have hperform : (memory number deployment).perform hour drawn call rig =
        (Store.perform hour.clock deployment drawn call store).mapState fun store =>
          { rig with stores := rig.stores.set number store } := by
      rw [← hrig]
      rfl
    refine ⟨?_, ?_, ?_, ?_, fun _ _ => trivial⟩
    · rw [hperform, Course.elapsed_mapState, latency, hrig]
      exact Store.elapsed_perform_le ..
    · rw [hperform, Course.value_mapState, hvalue]
      rfl
    · rw [hperform, Course.state_mapState, hstate]
      exact ⟨List.getElem?_set_self hlt, (Store.outage_answer ..).trans hup⟩
    · rw [hperform, Course.state_mapState, hstate, latency, latency, hrig, Rig.store]
      dsimp only
      rw [List.getElem?_set_self hlt, Option.getD_some, Store.latency_answer]
  | files table =>
    obtain ⟨hmirrors, htakes⟩ := h
    obtain ⟨hrefused, -⟩ | ⟨left, hact, hleft, hstill⟩ :=
      FileTable.act_agrees hmirrors table.deployment drawn call (hlegible trivial)
    · exact absurd hcall hrefused
    · have hanswer : table.answer drawn call rig.files = (_, left) := hact
      have hperform : (files table).perform hour drawn call rig =
          .done (table.answer drawn call rig.files).1 { rig with files := (table.answer drawn call rig.files).2 } := rfl
      rw [hanswer] at hperform
      refine ⟨?_, ?_, ?_, rfl, ?_⟩
      · rw [hperform]
        exact Nat.zero_le _
      · rw [hperform]
        rfl
      · rw [hperform]
        exact ⟨hleft, hstill _ htakes⟩
      · rw [hperform]
        exact hstill
  | deadline inner limit ih =>
    obtain ⟨hbacks, hlimit⟩ := h
    have hinner := ih hbacks hcall hlegible
    have hwithin : (deadline inner limit).perform hour drawn call rig = inner.perform hour drawn call rig :=
      Course.within_of_elapsed_le _ (Nat.le_trans hinner.inTime hlimit)
    refine ⟨?_, ?_, ?_, ?_, ?_⟩
    · rw [hwithin]
      exact hinner.inTime
    · rw [hwithin]
      exact hinner.value
    · rw [hwithin]
      exact ⟨hinner.backs, hinner.latency ▸ hlimit⟩
    · rw [hwithin]
      exact hinner.latency
    · rw [hwithin]
      exact hinner.takes
  | contested inner script => exact h.elim

-- A call for the table's own deployment finds what it needs.
theorem Backs.answers_own (h : handle.Backs hour.clock rig store) (drawn : UInt64) (call : Call)
    (hcall : FileTable.target handle.deployment call = handle.deployment) (hlegible : handle.Filed → call.Legible) :
    handle.Answers hour rig store drawn call := by
  refine h.answers drawn call ?_ hlegible
  rw [hcall]
  exact h.takes

theorem tell_eq (queue : Option Nat) (event : Event) (rig : Rig) :
    ∃ queues, (Rig.tell queue event rig).state = { rig with queues } := by
  cases queue with
  | none => exact ⟨rig.queues, rfl⟩
  | some number => exact ⟨_, rfl⟩

-- The store behind all deadlines, and the deadlines apart from it.
def base : Handle → Handle
  | deadline inner _ => inner.base
  | handle => handle

def InTime (clock : Clock) (latency : Span) : Handle → Prop
  | deadline inner limit => inner.InTime clock latency ∧ clock.sleepTicks latency ≤ clock.ticks limit
  | _ => True

theorem deployment_base (handle : Handle) : handle.base.deployment = handle.deployment := by
  induction handle with
  | deadline inner limit ih => exact ih
  | _ => rfl

theorem filed_base (handle : Handle) : handle.base.Filed ↔ handle.Filed := by
  induction handle with
  | deadline inner limit ih => exact ih
  | _ => exact Iff.rfl

theorem latency_base (handle : Handle) (rig : Rig) : handle.base.latency rig = handle.latency rig := by
  induction handle with
  | deadline inner limit ih => exact ih
  | _ => rfl

theorem backs_iff (handle : Handle) (clock : Clock) (rig : Rig) (store : Store) :
    handle.Backs clock rig store ↔ handle.base.Backs clock rig store ∧ handle.InTime clock (handle.latency rig) := by
  induction handle with
  | deadline inner limit ih =>
    simp only [Backs, base, InTime, latency, ih]
    exact and_assoc
  | _ => simp only [base, InTime, and_true]

-- The store that backs the handle has the table, and calls take some time.
structure Shows (handle : Handle) (clock : Clock) (latency : Span) (rig : Rig) (table : Deployment) : Prop where
  latency : handle.latency rig = latency
  table : ∃ store, handle.Backs clock rig store ∧ store.table handle.deployment = table

variable {latency : Span} {table : Deployment}

theorem shows_iff (handle : Handle) (clock : Clock) (latency : Span) (rig : Rig) (table : Deployment) :
    handle.Shows clock latency rig table ↔ handle.base.Shows clock latency rig table ∧ handle.InTime clock latency := by
  constructor
  · rintro ⟨hlatency, store, hbacks, htable⟩
    obtain ⟨hbase, htime⟩ := (handle.backs_iff clock rig store).mp hbacks
    refine ⟨⟨?_, store, hbase, ?_⟩, hlatency ▸ htime⟩
    · rw [latency_base, hlatency]
    · rw [deployment_base, htable]
  · rintro ⟨⟨hlatency, store, hbase, htable⟩, htime⟩
    rw [latency_base] at hlatency
    refine ⟨hlatency, store, (handle.backs_iff clock rig store).mpr ⟨hbase, hlatency.symm ▸ htime⟩, ?_⟩
    rw [← htable, deployment_base]

theorem Shows.queues {clock : Clock} (h : handle.Shows clock latency rig table) (queues : List EventQueue) :
    handle.Shows clock latency { rig with queues } table := by
  obtain ⟨hlatency, store, hbacks, htable⟩ := h
  exact ⟨(handle.latency_queues rig queues).trans hlatency, store, (backs_queues queues).mpr hbacks, htable⟩

theorem Shows.legible {clock : Clock} (h : handle.Shows clock latency rig table) (hfiled : handle.Filed) :
    table.Legible := by
  obtain ⟨-, store, hbacks, rfl⟩ := h
  exact (hbacks.legible hfiled).table handle.deployment

-- A call through the handle is a call on the table, and the handle shows what it makes of the table.
theorem Shows.perform (hour : Hour) (h : handle.Shows hour.clock latency rig table) (drawn : UInt64) (call : Call)
    (hcall : FileTable.target handle.deployment call = handle.deployment) (hlegible : handle.Filed → call.Legible) :
    (handle.perform hour drawn call rig).value = (table.answer drawn call).1 ∧
    ∃ next, handle.Shows hour.clock latency (handle.perform hour drawn call rig).state next ∧
      call.Effect (call.wins (handle.perform hour drawn call rig).value) table next := by
  obtain ⟨hlatency, store, hbacks, rfl⟩ := h
  have hanswers := hbacks.answers_own drawn call hcall hlegible
  obtain ⟨hvalue, heffect⟩ := store.answer_effect handle.deployment drawn call
  refine ⟨hanswers.value.trans hvalue, _, ⟨hanswers.latency.trans hlatency, _, hanswers.backs, rfl⟩, ?_⟩
  rw [hanswers.value]
  exact heffect

-- A call that deletes nothing gives the answer of the table, and leaves the table as that call does.
theorem Shows.answer (hour : Hour) (h : handle.Shows hour.clock latency rig table) (drawn : UInt64) {call : Call}
    (hcall : ∀ other, call ≠ .delete other) (hlegible : handle.Filed → call.Legible) :
    (handle.perform hour drawn call rig).value = (table.answer drawn call).1 ∧
      handle.Shows hour.clock latency (handle.perform hour drawn call rig).state (table.answer drawn call).2 := by
  obtain ⟨hlatency, store, hbacks, rfl⟩ := h
  have hanswers := hbacks.answers_own drawn call (FileTable.target_of_ne_delete hcall _) hlegible
  obtain ⟨hvalue, htable⟩ := store.answer_eq handle.deployment drawn call (hcall _)
  exact ⟨hanswers.value.trans hvalue, hanswers.latency.trans hlatency, _, hanswers.backs, htable⟩

-- The table is kept in memory. However slow the store is, and whatever deadlines there are, a call either
-- fails and leaves everything as it was, or has its effect.
theorem perform_memory {n : Nat} {deployment : String} (h : handle.base = .memory n deployment) (hour : Hour)
    (drawn : UInt64) (call : Call) (rig : Rig) :
    (handle.perform hour drawn call rig).Idles (rig.putStore n (rig.store n)) fun value left =>
      ∃ store, (rig.store n).Comes deployment drawn call value store ∧ left = rig.putStore n store := by
  induction handle with
  | memory number id =>
    obtain ⟨rfl, rfl⟩ := memory.inj h
    have hidles := Store.perform_idles hour.clock id drawn call (rig.store number)
    exact hidles.mapState (f := rig.putStore number) fun _ store hcomes => ⟨store, hcomes, rfl⟩
  | deadline inner limit ih =>
    exact (ih h).within _ ⟨rig.store n, Or.inl ⟨⟨_, rfl⟩, rfl⟩, rfl⟩
  | files table => cases h
  | contested inner script => cases h

end Handle
end Muster
