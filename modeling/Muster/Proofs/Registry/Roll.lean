import Muster.Proofs.Table.Keyed
import Muster.Registry.Registry

-- The roll of a deployment: which silos have signed on, and what has become of them. Its table keeps the
-- roll, and besides only tokens and alive times.
namespace Muster

inductive Phase where
  | created
  | active
  | dead
deriving DecidableEq

namespace Phase

def status : Phase → Status
  | created => .created
  | active => .active
  | dead => .dead

-- A silo that is dead does not come back.
def activated (silo : Silo) : Phase → Except UpdateError Phase
  | dead => .error (.invalidTransition silo .dead .active)
  | _ => .ok active

def ended (_ : Silo) (_ : Phase) : Except UpdateError Phase := .ok dead

-- Both go by the order of the statuses.
def toward (target : Phase) (silo : Silo) (phase : Phase) : Except UpdateError Phase :=
  if phase = target then .ok phase
  else if phase.status.precedes target.status then .ok target
  else .error (.invalidTransition silo phase.status target.status)

theorem activated_eq : activated = toward active := by
  funext silo phase
  cases phase <;> rfl

theorem ended_eq : ended = toward dead := by
  funext silo phase
  cases phase <;> rfl

theorem status_injective {a b : Phase} (h : a.status = b.status) : a = b := by
  cases a <;> cases b <;> first | rfl | cases h

end Phase

-- An entry as it was registered, and the phase that its silo is in.
structure Member where
  entry : Entry
  phase : Phase

-- The entry as the table has it, but for the alive time.
def Member.standing (member : Member) : Entry := (member.entry.withStatus member.phase.status).withAliveTime .epoch

structure Roll where
  changes : Nat
  members : Silo → Option Member

namespace Roll

def start : Roll := ⟨0, fun _ => none⟩

def put (roll : Roll) (silo : Silo) (member : Member) : Roll :=
  ⟨roll.changes + 1, fun other => if other = silo then some member else roll.members other⟩

-- Puts a new silo on the roll, if the deployment has one.
def enter (deployment : String) (entry : Entry) : Option Roll → Except UpdateError Unit × Option Roll
  | none => (.error (.table (.notInitialized deployment)), none)
  | some roll =>
    match roll.members entry.silo with
    | some _ => (.error (.alreadyExists entry.silo), some roll)
    | none => (.ok (), some (roll.put entry.silo ⟨entry, .created⟩))

-- Takes a silo that is on the roll to another phase, or leaves it in the one it is in.
def shift (deployment : String) (silo : Silo) (next : Silo → Phase → Except UpdateError Phase) :
    Option Roll → Except UpdateError Unit × Option Roll
  | none => (.error (.table (.notInitialized deployment)), none)
  | some roll =>
    match roll.members silo with
    | none => (.error (.notFound silo), some roll)
    | some member =>
      match next silo member.phase with
      | .error error => (.error error, some roll)
      | .ok phase =>
        (.ok (), some (if phase = member.phase then roll else roll.put silo { member with phase }))

end Roll

namespace Deployment

-- The table keeps the roll. Its version counts the changes, as far as it can count.
structure Lists (table : Deployment) (roll : Roll) : Prop where
  version : ∃ stamp, table.version = some stamp ∧ stamp.counter.toInt = min (roll.changes : Int) Int64.maxValue.toInt
  keyed : table.rows.Keyed
  rows : ∀ silo, (table.rows.ofSilo silo).map (fun row => row.still.entry) =
    ((roll.members silo).map Member.standing).toList
  bare : ∀ silo member, roll.members silo = some member → silo.Bare ∧ member.entry.silo = silo

-- A table without a roll has neither version nor rows.
def Keeps (table : Deployment) : Option Roll → Prop
  | none => table.version = none ∧ table.rows = .empty
  | some roll => table.Lists roll

namespace Lists

variable {table : Deployment} {roll : Roll} {silo : Silo} {row : Row}

theorem silo_of_get? (h : table.Lists roll) (hsilo : silo.Bare) (hrow : table.rows.get? silo.rowKey = some row) :
    row.entry.silo = silo := by
  have hkey := h.keyed.rowKey_of_get? hrow
  have hrows := h.rows row.entry.silo
  rw [h.keyed.ofSilo_eq_get?, hkey, hrow] at hrows
  cases hmember : roll.members row.entry.silo with
  | none => simp [hmember] at hrows
  | some member => exact Silo.eq_of_rowKey (h.bare _ _ hmember).1 hsilo hkey

theorem get? (h : table.Lists roll) (hsilo : silo.Bare) :
    (table.rows.get? silo.rowKey).map (fun row => row.still.entry) = (roll.members silo).map Member.standing := by
  have hrows := h.rows silo
  rw [h.keyed.ofSilo_eq_get?] at hrows
  cases hrow : table.rows.get? silo.rowKey with
  | none =>
    cases hmember : roll.members silo with
    | none => rfl
    | some member => simp [hrow, hmember] at hrows
  | some row =>
    cases hmember : roll.members silo with
    | none => simp [hrow, hmember, h.silo_of_get? hsilo hrow] at hrows
    | some member => simpa [hrow, hmember, h.silo_of_get? hsilo hrow] using hrows

theorem member_of_get? (h : table.Lists roll) (hsilo : silo.Bare)
    (hrow : table.rows.get? silo.rowKey = some row) :
    ∃ member, roll.members silo = some member ∧ row.still.entry = member.standing := by
  have hget := h.get? hsilo
  rw [hrow, Option.map_some] at hget
  obtain ⟨member, hmember, hstanding⟩ := Option.map_eq_some_iff.mp hget.symm
  exact ⟨member, hmember, hstanding.symm⟩

theorem members_eq_none (h : table.Lists roll) (hsilo : silo.Bare)
    (hfree : table.rows.get? silo.rowKey = none) : roll.members silo = none := by
  have hget := h.get? hsilo
  rw [hfree, Option.map_none] at hget
  exact Option.map_eq_none_iff.mp hget.symm

theorem member_of_row (h : table.Lists roll) (hrow : row ∈ table.rows.values) :
    ∃ member, roll.members row.entry.silo = some member ∧ row.still.entry = member.standing := by
  have hmem : row.still.entry ∈ (table.rows.ofSilo row.entry.silo).map fun row => row.still.entry :=
    List.mem_map_of_mem (List.mem_filter.mpr ⟨hrow, beq_self_eq_true _⟩)
  rw [h.rows] at hmem
  obtain ⟨member, hmember, hstanding⟩ := Option.map_eq_some_iff.mp (Option.mem_toList.mp hmem)
  exact ⟨member, hmember, hstanding.symm⟩

theorem row_of_member (h : table.Lists roll) {member : Member} (hmember : roll.members silo = some member) :
    ∃ row ∈ table.rows.values, row.entry.silo = silo ∧ row.still.entry = member.standing := by
  have hmem : member.standing ∈ (table.rows.ofSilo silo).map fun row => row.still.entry := by
    rw [h.rows, hmember]
    exact List.mem_singleton_self _
  obtain ⟨row, hrow, hstanding⟩ := List.mem_map.mp hmem
  obtain ⟨hvalue, hsilo⟩ := List.mem_filter.mp hrow
  exact ⟨row, hvalue, eq_of_beq hsilo, hstanding⟩

theorem readRow (h : table.Lists roll) (hsilo : silo.Bare) : ∃ snapshot, table.readRow silo = .ok snapshot ∧
    table.version = some snapshot.version ∧ snapshot.rowFor? silo = table.rows.get? silo.rowKey := by
  obtain ⟨stamp, hversion, -⟩ := h.version
  refine ⟨.of (table.rows.get? silo.rowKey).toList stamp, ?_, hversion, ?_⟩
  · rw [Deployment.readRow, stamp_eq_ok hversion]
    rfl
  · rw [Snapshot.rowFor?, Snapshot.rows_of_toList]
    cases hrow : table.rows.get? silo.rowKey with
    | none => rfl
    | some row => simp [h.silo_of_get? hsilo hrow]

end Lists

theorem counter_next {stamp : Version} {changes : Nat}
    (h : stamp.counter.toInt = min (changes : Int) Int64.maxValue.toInt) (token : String) :
    (stamp.next token).counter.toInt = min ((changes + 1 : Nat) : Int) Int64.maxValue.toInt := by
  have hmax : Int64.maxValue.toInt = 9223372036854775807 := by decide
  have hone : (1 : Int64).toInt = 1 := by decide
  rw [hmax] at h ⊢
  unfold Version.next
  dsimp only
  split
  · next hfull =>
    rw [hfull, hmax] at h ⊢
    omega
  · next hfull =>
    have hlt : stamp.counter.toInt ≠ 9223372036854775807 :=
      fun heq => hfull (Int64.toInt_inj.mp (heq.trans hmax.symm))
    rw [Int64.toInt_add, hone, Int.bmod_eq_of_le (by omega) (by omega)]
    omega

-- The row of a silo is written, and the roll has the silo as the row has it.
theorem Lists.commit {table : Deployment} {roll : Roll} {entry : Entry} {stamp : Version} (h : table.Lists roll)
    (member : Member) (hversion : table.version = some stamp) (hbare : entry.silo.Bare)
    (hsilo : member.entry.silo = entry.silo) (hentry : entry.withAliveTime .epoch = member.standing) :
    (table.commit entry stamp).Lists (roll.put entry.silo member) where
  version := by
    obtain ⟨stamp', hstamp, hcounter⟩ := h.version
    obtain rfl : stamp' = stamp := Option.some.inj (hstamp.symm.trans hversion)
    exact ⟨_, rfl, counter_next hcounter _⟩
  keyed := h.keyed.insert rfl
  rows silo := by
    have hkeyed : (table.commit entry stamp).rows.Keyed := h.keyed.insert rfl
    have hrows := h.rows silo
    rw [h.keyed.ofSilo_eq_get?] at hrows
    rw [hkeyed.ofSilo_eq_get?, get?_commit, Roll.put]
    by_cases hself : silo = entry.silo
    · simp [hself, Row.still, hentry]
    · dsimp only
      rw [if_neg hself]
      by_cases hkey : silo.rowKey = entry.silo.rowKey
      · have hnone : roll.members silo = none := by
          cases hmember : roll.members silo with
          | none => rfl
          | some other => exact absurd (Silo.eq_of_rowKey (h.bare _ _ hmember).1 hbare hkey) hself
        simp [hkey, hnone, Ne.symm hself]
      · rw [if_neg hkey, hrows]
  bare silo other hother := by
    by_cases hself : silo = entry.silo
    · subst hself
      simp only [Roll.put, if_true, Option.some.injEq] at hother
      exact ⟨hbare, hother ▸ hsilo⟩
    · simp only [Roll.put, if_neg hself] at hother
      exact h.bare silo other hother

theorem lists_establish {table : Deployment} (h : table.Keeps none) (drawn : UInt64) :
    (table.establish drawn).2.Lists Roll.start := by
  obtain ⟨hversion, hrows⟩ := h
  simp only [establish, hversion]
  refine ⟨⟨_, rfl, ?_⟩, ?_, fun silo => ?_, fun _ _ hmember => by cases hmember⟩
  · show (0 : Int64).toInt = min ((0 : Nat) : Int) Int64.maxValue.toInt
    decide
  · rw [hrows]
    exact Rows.keyed_empty
  · rw [hrows]
    rfl

end Deployment

end Muster
