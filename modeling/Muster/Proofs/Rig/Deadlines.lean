import Muster.Proofs.Registry.Office

-- Deadlines around a table that is under deadlines already. A call keeps to the one that passes first.
namespace Muster

namespace Course

variable {σ α : Type}

theorem within_within_of_le {inner outer : Nat} (h : inner ≤ outer) (late later : α) (course : Course σ α) :
    (course.within inner late).within outer later = course.within inner late :=
  within_of_elapsed_le later (Nat.le_trans (elapsed_within_le inner late course) h)

theorem within_within_of_lt {inner outer : Nat} (h : outer < inner) (late later : α) (course : Course σ α) :
    (course.within inner late).within outer later = course.within outer later := by
  induction course generalizing inner outer with
  | done value state => rfl
  | sleep ticks asleep rest ih =>
    by_cases houter : ticks ≤ outer
    · have hinner : ticks ≤ inner := by omega
      rw [within, if_pos hinner, within, if_pos houter, within, if_pos houter, ih (by omega)]
    · by_cases hinner : ticks ≤ inner
      · rw [within, if_pos hinner, within, if_neg houter, within, if_neg houter]
      · rw [within, if_neg hinner, within, if_neg (Nat.not_le_of_lt h), within, if_neg houter]

-- Work that a deadline cuts off ends at the deadline, where it fell asleep.
theorem Idles.late {course : Course σ α} {state : σ} {ends : α → σ → Prop} (h : course.Idles state ends) {limit : Nat}
    (hlimit : limit < course.elapsed) (late : α) :
    (course.within limit late).value = late ∧ (course.within limit late).elapsed = limit ∧
      (course.within limit late).state = state := by
  induction course generalizing limit with
  | done value left => exact absurd hlimit (Nat.not_lt_zero limit)
  | sleep ticks asleep rest ih =>
    obtain ⟨rfl, hrest⟩ := h
    by_cases hticks : ticks ≤ limit
    · rw [elapsed] at hlimit
      have hleft : limit - ticks < rest.elapsed := by omega
      obtain ⟨hvalue, helapsed, hstate⟩ := ih hrest hleft
      rw [Course.within, if_pos hticks]
      refine ⟨hvalue, ?_, hstate⟩
      rw [elapsed, helapsed]
      omega
    · rw [Course.within, if_neg hticks]
      exact ⟨rfl, rfl, rfl⟩

end Course

namespace Clock

variable {clock : Clock} {a b : Span}

-- Of deadlines, the innermost of which is named first, this one passes first. Of those that pass in the same tick
-- it is the innermost.
def PassesFirst (clock : Clock) (first : Span) (limits : List Span) : Prop :=
  ∃ inner outer, limits = inner ++ first :: outer ∧ (∀ limit ∈ inner, clock.ticks first < clock.ticks limit) ∧
    ∀ limit ∈ outer, clock.ticks first ≤ clock.ticks limit

theorem exists_passesFirst (clock : Clock) {limits : List Span} (h : limits ≠ []) :
    ∃ first, clock.PassesFirst first limits := by
  induction limits with
  | nil => exact absurd rfl h
  | cons limit rest ih =>
    by_cases hrest : rest = []
    · subst hrest
      exact ⟨limit, [], [], rfl, nofun, nofun⟩
    · obtain ⟨first, inner, outer, rfl, hinner, houter⟩ := ih hrest
      by_cases hfirst : clock.ticks limit ≤ clock.ticks first
      · refine ⟨limit, [], inner ++ first :: outer, rfl, nofun, fun other hother => ?_⟩
        rcases List.mem_append.mp hother with hother | hother
        · exact Nat.le_trans hfirst (Nat.le_of_lt (hinner other hother))
        · rcases List.mem_cons.mp hother with rfl | hother
          · exact hfirst
          · exact Nat.le_trans hfirst (houter other hother)
      · refine ⟨first, limit :: inner, outer, rfl, fun other hother => ?_, houter⟩
        rcases List.mem_cons.mp hother with rfl | hother
        · exact Nat.lt_of_not_le hfirst
        · exact hinner other hother

theorem PassesFirst.mem {first : Span} {limits : List Span} (h : clock.PassesFirst first limits) : first ∈ limits := by
  obtain ⟨inner, outer, rfl, -, -⟩ := h
  exact List.mem_append_right inner List.mem_cons_self

theorem PassesFirst.le {first limit : Span} {limits : List Span} (h : clock.PassesFirst first limits)
    (hlimit : limit ∈ limits) : clock.ticks first ≤ clock.ticks limit := by
  obtain ⟨inner, outer, rfl, hinner, houter⟩ := h
  rcases List.mem_append.mp hlimit with hlimit | hlimit
  · exact Nat.le_of_lt (hinner limit hlimit)
  · rcases List.mem_cons.mp hlimit with rfl | hlimit
    · exact Nat.le_refl _
    · exact houter limit hlimit

-- A deadline at the span is met to the nanosecond, and so is the end of a sleep.
def TellsLimit (clock : Clock) (limit : Span) : Prop := clock.ticks limit * clock.tick = limit.nanos

def TellsSleep (clock : Clock) (span : Span) : Prop := clock.sleepTicks span * clock.tick = span.nanos

instance (clock : Clock) (limit : Span) : Decidable (clock.TellsLimit limit) :=
  inferInstanceAs (Decidable (clock.ticks limit * clock.tick = limit.nanos))

instance (clock : Clock) (span : Span) : Decidable (clock.TellsSleep span) :=
  inferInstanceAs (Decidable (clock.sleepTicks span * clock.tick = span.nanos))

section
variable {m n : Nat} (hm : m * clock.tick = a.nanos)
include hm

theorem ticks_le_iff (hn : n * clock.tick = b.nanos) : m ≤ n ↔ a ≤ b := by
  show _ ↔ a.nanos ≤ b.nanos
  rw [← hm, ← hn]
  exact (Nat.mul_le_mul_right_iff clock.tick_pos).symm

theorem spanOf_ticks : clock.spanOf m = a := by
  apply Span.ext
  rw [spanOf, Span.nanos_ofNanos, hm, Nat.min_eq_left a.nanos_le_longest]

end

end Clock

theorem Store.elapsed_perform (clock : Clock) (deployment : String) (drawn : UInt64) (call : Call) (store : Store) :
    (perform clock deployment drawn call store).elapsed = clock.sleepTicks store.latency := by
  obtain ⟨tables, outage, latency⟩ := store
  by_cases hlatency : latency.isZero
  · obtain rfl : latency = .zero := Span.ext (eq_of_beq hlatency)
    cases outage <;>
      simp [perform, bind, Work.get, Work.act, Course.bind, pure, Course.elapsed, hlatency, clock.sleepTicks_zero]
  · cases outage <;>
      simp [perform, bind, Work.get, Work.sleep, Work.act, Course.bind, pure, Course.elapsed, hlatency]

theorem Rig.putStore_store (rig : Rig) (n : Nat) : rig.putStore n (rig.store n) = rig := by
  rw [putStore, store, set_getD]

namespace Handle

-- Deadlines around a way to a table, the innermost first.
def under (handle : Handle) (limits : List Span) : Handle := limits.foldl deadline handle

theorem under_concat (handle : Handle) (limits : List Span) (limit : Span) :
    handle.under (limits ++ [limit]) = .deadline (handle.under limits) limit := by
  rw [under, List.foldl_append]
  rfl

variable {handle : Handle} {hour : Hour} {drawn : UInt64} {call : Call} {rig : Rig}

theorem perform_deadline_of_le {first limit : Span} (h : hour.clock.ticks first ≤ hour.clock.ticks limit) :
    (deadline (deadline handle first) limit).perform hour drawn call =
      (deadline handle first).perform hour drawn call :=
  funext fun _ => Course.within_within_of_le h _ _ _

theorem perform_deadline_of_lt {first limit : Span} (h : hour.clock.ticks first < hour.clock.ticks limit) :
    (deadline (deadline handle limit) first).perform hour drawn call =
      (deadline handle first).perform hour drawn call :=
  funext fun _ => Course.within_within_of_lt h _ _ _

-- Whatever the table is, the deadlines inside of the one that passes first do not matter, nor those outside.
theorem perform_under {first : Span} {limits : List Span} (h : hour.clock.PassesFirst first limits) :
    (handle.under limits).perform hour drawn call = (deadline handle first).perform hour drawn call := by
  obtain ⟨inner, outer, rfl, hinner, houter⟩ := h
  have hinside : (deadline (handle.under inner) first).perform hour drawn call =
      (deadline handle first).perform hour drawn call := by
    induction inner using List.reverseRecOn with
    | nil => rfl
    | append_singleton inner limit ih =>
      rw [under_concat, perform_deadline_of_lt (hinner limit (by simp))]
      exact ih fun other hother => hinner other (List.mem_append_left _ hother)
  induction outer using List.reverseRecOn with
  | nil =>
    rw [under_concat]
    exact hinside
  | append_singleton outer limit ih =>
    have houtside := ih fun other hother => houter other (List.mem_append_left _ hother)
    have hwithin : (deadline (handle.under (inner ++ first :: outer)) limit).perform hour drawn call =
        (deadline (deadline handle first) limit).perform hour drawn call := by
      simp only [perform, houtside]
    rw [← List.cons_append, ← List.append_assoc, under_concat, hwithin]
    exact perform_deadline_of_le (houter limit (by simp))

-- A call on a table that takes its time for an answer is cut off at the deadline, or else it is the call on the
-- table itself.
structure KeepsTo (way table : Handle) (hour : Hour) (drawn : UInt64) (call : Call) (rig : Rig) (limit : Span) :
    Prop where
  inTime : hour.clock.sleepTicks (table.latency rig) ≤ hour.clock.ticks limit →
    way.perform hour drawn call rig = table.perform hour drawn call rig ∧
    (way.perform hour drawn call rig).elapsed = hour.clock.sleepTicks (table.latency rig)
  late : hour.clock.ticks limit < hour.clock.sleepTicks (table.latency rig) →
    (way.perform hour drawn call rig).value = .error (.timeout call.name limit) ∧
    (way.perform hour drawn call rig).elapsed = hour.clock.ticks limit ∧
    (way.perform hour drawn call rig).state = rig

theorem elapsed_memory (hour : Hour) (drawn : UInt64) (call : Call) (rig : Rig) (n : Nat) (deployment : String) :
    ((memory n deployment).perform hour drawn call rig).elapsed =
      hour.clock.sleepTicks ((memory n deployment).latency rig) :=
  (Course.elapsed_mapState _ _).trans (Store.elapsed_perform ..)

theorem keepsTo_deadline (hour : Hour) (drawn : UInt64) (call : Call) (rig : Rig) (n : Nat) (deployment : String)
    (limit : Span) :
    (deadline (memory n deployment) limit).KeepsTo (memory n deployment) hour drawn call rig limit where
  inTime h := by
    have helapsed := elapsed_memory hour drawn call rig n deployment
    have hsame : (deadline (memory n deployment) limit).perform hour drawn call rig =
        (memory n deployment).perform hour drawn call rig :=
      Course.within_of_elapsed_le _ (helapsed ▸ h)
    exact ⟨hsame, hsame ▸ helapsed⟩
  late h := by
    have hidles := perform_memory (rfl : (memory n deployment).base = memory n deployment) hour drawn call rig
    rw [← elapsed_memory hour drawn call rig n deployment] at h
    rw [Rig.putStore_store] at hidles
    exact hidles.late h _

-- Deadlines act as the one among them that passes first. On a clock that meets them all, and sleeps the latency out, to
-- the nanosecond, that is the shortest one.
def Stacks (way table : Handle) (hour : Hour) (drawn : UInt64) (call : Call) (rig : Rig) (limits : List Span) : Prop :=
  ∃ first, hour.clock.PassesFirst first limits ∧ way.KeepsTo table hour drawn call rig first ∧
    (hour.clock.TellsSleep (table.latency rig) → (∀ limit ∈ limits, hour.clock.TellsLimit limit) →
      (∀ limit ∈ limits, first ≤ limit) ∧
      (table.latency rig ≤ first →
        way.perform hour drawn call rig = table.perform hour drawn call rig ∧
        hour.clock.spanOf (way.perform hour drawn call rig).elapsed = table.latency rig) ∧
      (first < table.latency rig →
        (way.perform hour drawn call rig).value = .error (.timeout call.name first) ∧
        hour.clock.spanOf (way.perform hour drawn call rig).elapsed = first ∧
        (way.perform hour drawn call rig).state = rig))

theorem stacks_under (hour : Hour) (drawn : UInt64) (call : Call) (rig : Rig) (n : Nat) (deployment : String)
    {limits : List Span} (h : limits ≠ []) :
    ((memory n deployment).under limits).Stacks (memory n deployment) hour drawn call rig limits := by
  obtain ⟨first, hfirst⟩ := hour.clock.exists_passesFirst h
  have hperform : ((memory n deployment).under limits).perform hour drawn call rig =
      (deadline (memory n deployment) first).perform hour drawn call rig := congrFun (perform_under hfirst) rig
  have hkeeps : ((memory n deployment).under limits).KeepsTo (memory n deployment) hour drawn call rig first := by
    obtain ⟨hinTime, hlate⟩ := keepsTo_deadline hour drawn call rig n deployment first
    rw [← hperform] at hinTime hlate
    exact ⟨hinTime, hlate⟩
  refine ⟨first, hfirst, hkeeps, fun hlatency hlimits => ?_⟩
  have hlimit := hlimits first hfirst.mem
  obtain ⟨hinTime, hlate⟩ := hkeeps
  refine ⟨fun limit hmem => ?_, fun hle => ?_, fun hlt => ?_⟩
  · exact (Clock.ticks_le_iff hlimit (hlimits limit hmem)).mp (hfirst.le hmem)
  · obtain ⟨hsame, helapsed⟩ := hinTime ((Clock.ticks_le_iff hlatency hlimit).mpr hle)
    exact ⟨hsame, by rw [helapsed, Clock.spanOf_ticks hlatency]⟩
  · have hticks : hour.clock.ticks first < hour.clock.sleepTicks ((memory n deployment).latency rig) :=
      Nat.lt_of_not_le fun hle => Nat.not_le_of_lt hlt ((Clock.ticks_le_iff hlatency hlimit).mp hle)
    obtain ⟨hvalue, helapsed, hstate⟩ := hlate hticks
    exact ⟨hvalue, by rw [helapsed, Clock.spanOf_ticks hlimit], hstate⟩

end Handle

-- The way that an updater takes to a table if it is put up with settings: a deadline of its own comes on top.
def TableConfig.way (config : TableConfig) (handle : Handle) : Handle := .deadline handle config.timeout

namespace Handle

-- Any number of deadlines around a table in memory, on any clock: they act as the one that passes first, and so do
-- they with the deadline that an updater or a registry puts on top.
theorem deadlines_act_as_first (hour : Hour) (drawn : UInt64) (call : Call) (rig : Rig) (n : Nat) (deployment : String)
    (limits : List Span) :
    let table := memory n deployment
    (limits ≠ [] → (table.under limits).Stacks table hour drawn call rig limits) ∧
    (∀ config : TableConfig,
      (config.way (table.under limits)).Stacks table hour drawn call rig (limits ++ [config.timeout])) ∧
    ∀ office : Office, office.handle = table.under limits →
      office.way.Stacks table hour drawn call rig (limits ++ [office.config.timeout]) := by
  intro table
  have hway : ∀ limit, (deadline (table.under limits) limit).Stacks table hour drawn call rig (limits ++ [limit]) := by
    intro limit
    rw [← under_concat]
    exact stacks_under hour drawn call rig n deployment (List.append_ne_nil_of_right_ne_nil _ (List.cons_ne_nil _ _))
  refine ⟨stacks_under hour drawn call rig n deployment, fun config => hway config.timeout, fun office hoffice => ?_⟩
  rw [Office.way, hoffice]
  exact hway office.config.timeout

theorem deadlines_act_as_first_slow :
    let hour : Hour := ⟨.steady (.ofSeconds (2 ^ 62)), .epoch⟩
    let table := memory 0 "orders"
    let limits : List Span := [.ofMillis 500, .ofMillis 100]
    let office : Office := { Office.orders with handle := table.under limits }
    limits ≠ [] ∧ (table.under limits).Stacks table hour 7 (.establish true) Office.slow limits ∧
    office.way.Stacks table hour 7 (.establish true) Office.slow (limits ++ [.ofSeconds 1]) ∧
    hour.clock.TellsSleep (table.latency Office.slow) ∧ (∀ limit ∈ limits, hour.clock.TellsLimit limit) ∧
    ((table.under limits).perform hour 7 (.establish true) Office.slow).value =
      .error (.timeout "initialize" (.ofMillis 100)) := by
  intro hour table limits office
  obtain ⟨hunder, -, hoffice⟩ := deadlines_act_as_first hour 7 (.establish true) Office.slow 0 "orders" limits
  refine ⟨List.cons_ne_nil _ _, hunder (List.cons_ne_nil _ _), hoffice office rfl, ?_⟩
  decide +kernel

-- The clock counts whole milliseconds, and a deadline that falls into the same one as the answer is met, although
-- it is the shorter of the two.
theorem answer_in_same_tick_is_in_time :
    let table := memory 0 "dep"
    let limits : List Span := [.ofNanos 200000, .ofMillis 5]
    let rig : Rig := { Rig.empty with stores := [{ Store.empty with latency := .ofNanos 300000 }] }
    let clock := Clock.steady (.ofSeconds (2 ^ 62))
    let course := (table.under limits).perform ⟨clock, .epoch⟩ 7 (.establish true) rig
    (∀ limit ∈ limits, Span.ofNanos 200000 ≤ limit) ∧ Span.ofNanos 200000 < table.latency rig ∧
    course.value = .ok true ∧ course.value ≠ .error (.timeout "initialize" (.ofNanos 200000)) ∧
    clock.spanOf course.elapsed = .ofMillis 1 := by
  decide +kernel

end Handle
end Muster
