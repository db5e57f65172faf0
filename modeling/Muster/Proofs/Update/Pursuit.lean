import Muster.Proofs.Retry.Delays
import Muster.Proofs.Table.Effect
import Muster.Proofs.Update.Encounter
import Muster.Update.Updater

-- How long a change of the roll is pursued, and what it asks of the table meanwhile. Nothing is assumed about
-- the table: it may give any answers.
namespace Muster

namespace Happening

-- What happens between two rounds.
def isBackOff : Happening → Bool
  | waited _ => true
  | drew _ => true
  | _ => false

-- A conditional write gets a no.
def losesWrite : Happening → Bool
  | called call answer => call.loses answer
  | _ => false

def wait? : Happening → Option Span
  | waited delay => some delay
  | _ => none

end Happening

namespace Updater

-- How a round of adding a row can go. The write goes by the stamp that has been read.
inductive InsertGoes (entry : Entry) : List Happening → Round Unit → Prop where
  | unread (fault : Fault) :
      InsertGoes entry [.called (.readRow entry.silo) (.error fault)] (.settled (.error (.table fault)))
  | taken (snapshot : Snapshot) (row : Row) (found : snapshot.rowFor? entry.silo = some row) :
      InsertGoes entry [.called (.readRow entry.silo) (.ok snapshot)] (.settled (.error (.alreadyExists entry.silo)))
  | unwritten (snapshot : Snapshot) (fault : Fault) (free : snapshot.rowFor? entry.silo = none) :
      InsertGoes entry
        [.called (.readRow entry.silo) (.ok snapshot), .called (.insertRow entry snapshot.version) (.error fault)]
        (.settled (.error (.table fault)))
  | won (snapshot : Snapshot) (free : snapshot.rowFor? entry.silo = none) :
      InsertGoes entry
        [.called (.readRow entry.silo) (.ok snapshot), .called (.insertRow entry snapshot.version) (.ok true),
          .told (.siloRegistered entry.silo)]
        (.settled (.ok ()))
  | lost (snapshot : Snapshot) (free : snapshot.rowFor? entry.silo = none) :
      InsertGoes entry
        [.called (.readRow entry.silo) (.ok snapshot), .called (.insertRow entry snapshot.version) (.ok false)] .lost

-- How a round of revising a row can go, after rounds in which the entries seen have been read. The write goes by
-- the token and the stamp that have been read.
inductive ReviseGoes (silo : Silo) (decide : Decide) (seen : List Entry) :
    List Happening → List Entry × Round Entry → Prop where
  | unread (fault : Fault) :
      ReviseGoes silo decide seen [.called (.readRow silo) (.error fault)] (seen, .settled (.error (.table fault)))
  | missing (snapshot : Snapshot) (gone : snapshot.rowFor? silo = none) :
      ReviseGoes silo decide seen [.called (.readRow silo) (.ok snapshot)] (seen, .settled (.error (.notFound silo)))
  | refused (snapshot : Snapshot) (row : Row) (now : Instant) (error : UpdateError)
      (found : snapshot.rowFor? silo = some row) (decided : decide seen now row.entry = .error error) :
      ReviseGoes silo decide seen [.called (.readRow silo) (.ok snapshot), .looked now]
        (seen ++ [row.entry], .settled (.error error))
  | kept (snapshot : Snapshot) (row : Row) (now : Instant) (found : snapshot.rowFor? silo = some row)
      (decided : decide seen now row.entry = .ok none) :
      ReviseGoes silo decide seen [.called (.readRow silo) (.ok snapshot), .looked now]
        (seen ++ [row.entry], .settled (.ok row.entry))
  | unwritten (snapshot : Snapshot) (row : Row) (now : Instant) (entry : Entry) (fault : Fault)
      (found : snapshot.rowFor? silo = some row) (decided : decide seen now row.entry = .ok (some entry)) :
      ReviseGoes silo decide seen
        [.called (.readRow silo) (.ok snapshot), .looked now,
          .called (.updateRow entry row.etag snapshot.version) (.error fault)]
        (seen ++ [row.entry], .settled (.error (.table fault)))
  | won (snapshot : Snapshot) (row : Row) (now : Instant) (entry : Entry)
      (found : snapshot.rowFor? silo = some row) (decided : decide seen now row.entry = .ok (some entry)) :
      ReviseGoes silo decide seen
        [.called (.readRow silo) (.ok snapshot), .looked now,
          .called (.updateRow entry row.etag snapshot.version) (.ok true)]
        (seen ++ [row.entry], .settled (.ok entry))
  | lost (snapshot : Snapshot) (row : Row) (now : Instant) (entry : Entry)
      (found : snapshot.rowFor? silo = some row) (decided : decide seen now row.entry = .ok (some entry)) :
      ReviseGoes silo decide seen
        [.called (.readRow silo) (.ok snapshot), .looked now,
          .called (.updateRow entry row.etag snapshot.version) (.ok false)]
        (seen ++ [row.entry], .lost)

theorem insertGoes_of_goes {entry : Entry} {log : List Happening} {round : Round Unit}
    (h : (insertRound entry).Goes log round) : InsertGoes entry log round := by
  obtain ⟨answer, log, rfl, h⟩ := h
  cases answer with
  | error fault =>
    obtain ⟨rfl, rfl⟩ := h
    exact .unread fault
  | ok snapshot =>
    cases hrow : snapshot.rowFor? entry.silo with
    | some row =>
      simp only [Plan.bind, hrow] at h
      obtain ⟨rfl, rfl⟩ := h
      exact .taken snapshot row hrow
    | none =>
      simp only [Plan.bind, hrow] at h
      obtain ⟨answer, log, rfl, h⟩ := h
      obtain fault | _ | _ := answer
      · obtain ⟨rfl, rfl⟩ := h
        exact .unwritten snapshot fault hrow
      · obtain ⟨rfl, rfl⟩ := h
        exact .lost snapshot hrow
      · obtain ⟨log, rfl, rfl, rfl⟩ := h
        exact .won snapshot hrow

theorem reviseGoes_of_goes {silo : Silo} {decide : Decide} {seen : List Entry} {log : List Happening}
    {out : List Entry × Round Entry} (h : (reviseRound silo decide seen).Goes log out) :
    ReviseGoes silo decide seen log out := by
  obtain ⟨answer, log, rfl, h⟩ := h
  cases answer with
  | error fault =>
    obtain ⟨rfl, rfl⟩ := h
    exact .unread fault
  | ok snapshot =>
    cases hrow : snapshot.rowFor? silo with
    | none =>
      simp only [Plan.bind, hrow] at h
      obtain ⟨rfl, rfl⟩ := h
      exact .missing snapshot hrow
    | some row =>
      simp only [Plan.bind, hrow] at h
      obtain ⟨now, log, rfl, h⟩ := h
      simp only [Plan.bind] at h
      cases hdecide : decide seen now row.entry with
      | error error =>
        simp only [hdecide] at h
        obtain ⟨rfl, rfl⟩ := h
        exact .refused snapshot row now error hrow hdecide
      | ok next =>
        cases next with
        | none =>
          simp only [hdecide] at h
          obtain ⟨rfl, rfl⟩ := h
          exact .kept snapshot row now hrow hdecide
        | some entry =>
          simp only [hdecide] at h
          obtain ⟨answer, log, rfl, h⟩ := h
          obtain fault | _ | _ := answer
          · obtain ⟨rfl, rfl⟩ := h
            exact .unwritten snapshot row now entry fault hrow hdecide
          · obtain ⟨rfl, rfl⟩ := h
            exact .lost snapshot row now entry hrow hdecide
          · obtain ⟨rfl, rfl⟩ := h
            exact .won snapshot row now entry hrow hdecide

-- The change is lost to another writer in this round.
def Round.isLost {α : Type} : Round α → Bool
  | lost => true
  | settled _ => false

-- What the change comes to if this is its last round.
def Round.result {α : Type} (exhausted : UpdateError) : Round α → Except UpdateError α
  | settled result => result
  | lost => .error exhausted

section
variable {σ α : Type} {step : σ → List Happening → σ × Round α → Prop}

-- Rounds, each of which but the last one is lost.
inductive Tries (step : σ → List Happening → σ × Round α → Prop) : σ → List (List Happening) → σ × Round α → Prop where
  | last {state : σ} {log : List Happening} {out : σ × Round α} (goes : step state log out) :
      Tries step state [log] out
  | again {state next : σ} {log : List Happening} {logs : List (List Happening)} {out : σ × Round α}
      (goes : step state log (next, .lost)) (rest : Tries step next logs out) : Tries step state (log :: logs) out

-- Rounds do not wait, and a round is lost exactly with a no to its one conditional write. A fault is the last
-- thing that happens, and it settles the change.
structure Brisk (step : σ → List Happening → σ × Round α → Prop) : Prop where
  works : ∀ state log out, step state log out → ∀ happening ∈ log, happening.isBackOff = false
  loses : ∀ state log out, step state log out → log.countP Happening.losesWrite = if out.2.isLost then 1 else 0
  faults : ∀ state log out, step state log out → ∀ call fault, .called call (.error fault) ∈ log →
    log.getLast? = some (.called call (.error fault)) ∧ out.2 = .settled (.error (.table fault))

theorem brisk_insertGoes (entry : Entry) : Brisk fun (_ : Unit) log out => InsertGoes entry log out.2 where
  works state log out h := by
    obtain ⟨_, round⟩ := out
    cases h <;> simp [Happening.isBackOff]
  loses state log out h := by
    obtain ⟨_, round⟩ := out
    cases h <;> simp [Happening.losesWrite, Call.loses, Round.isLost]
  faults state log out h call fault hfault := by
    obtain ⟨_, round⟩ := out
    cases h <;> simp only [List.mem_cons, List.not_mem_nil, or_false] at hfault <;> grind

theorem brisk_reviseGoes (silo : Silo) (decide : Decide) : Brisk (ReviseGoes silo decide) where
  works state log out h := by cases h <;> simp [Happening.isBackOff]
  loses state log out h := by cases h <;> simp [Happening.losesWrite, Call.loses, Round.isLost]
  faults state log out h call fault hfault := by
    cases h <;> simp only [List.mem_cons, List.not_mem_nil, or_false] at hfault <;> grind

-- How a change goes on after so many retries: by further rounds, with a back-off between one and the next.
structure Pursuit (step : σ → List Happening → σ × Round α → Prop) (policy : Policy) (spent : Nat) (state : σ)
    (log : List Happening) (logs : List (List Happening)) (out : σ × Round α) : Prop where
  tries : Tries step state logs out
  happened : (log.filter fun happening => !happening.isBackOff) = logs.flatten
  few : spent + logs.length ≤ policy.maxAttempts.toNat + 1
  exhausts : out.2.isLost = true → spent + logs.length = policy.maxAttempts.toNat + 1
  loses : log.countP Happening.losesWrite + 1 = logs.length + if out.2.isLost then 1 else 0
  faults : ∀ call fault, .called call (.error fault) ∈ log →
    log.getLast? = some (.called call (.error fault)) ∧ out.2 = .settled (.error (.table fault))
  waits : policy.jitter = .none →
    log.filterMap Happening.wait? = (List.range' spent (logs.length - 1)).map policy.delay

theorem Tries.length_pos {state : σ} {logs : List (List Happening)} {out : σ × Round α}
    (h : Tries step state logs out) : 0 < logs.length := by
  cases h <;> exact Nat.succ_pos _

theorem Brisk.filter_eq (h : Brisk step) {state : σ} {log : List Happening} {out : σ × Round α}
    (hgoes : step state log out) : (log.filter fun happening => !happening.isBackOff) = log :=
  List.filter_eq_self.mpr fun happening hmem => by rw [h.works _ _ _ hgoes happening hmem, Bool.not_false]

theorem Brisk.waits_eq (h : Brisk step) {state : σ} {log : List Happening} {out : σ × Round α}
    (hgoes : step state log out) : log.filterMap Happening.wait? = [] := by
  refine List.filterMap_eq_nil_iff.mpr fun happening hmem => ?_
  have hworks := h.works _ _ _ hgoes happening hmem
  cases happening with
  | waited delay => cases hworks
  | _ => rfl

variable {policy : Policy} {spent : Nat} {state next : σ} {log rest : List Happening} {logs : List (List Happening)}
  {out : σ × Round α}

theorem Pursuit.single (hbrisk : Brisk step) (h : step state log out) (hspent : spent ≤ policy.maxAttempts.toNat)
    (hlost : out.2.isLost = true → spent = policy.maxAttempts.toNat) :
    Pursuit step policy spent state log [log] out where
  tries := .last h
  happened := by rw [hbrisk.filter_eq h, List.flatten_singleton]
  few := Nat.succ_le_succ hspent
  exhausts hout := congrArg Nat.succ (hlost hout)
  loses := by rw [hbrisk.loses _ _ _ h, List.length_singleton, Nat.add_comm]
  faults := hbrisk.faults _ _ _ h
  waits _ := hbrisk.waits_eq h

-- A lost round and a back-off come before what is left.
theorem Pursuit.again (hbrisk : Brisk step) (h : step state log (next, .lost)) (share : Chance)
    (hrest : Pursuit step policy (spent + 1) next rest logs out) :
    Pursuit step policy spent state
      (log ++ .drew share :: .waited (policy.jitter.apply share (policy.delay spent)) :: rest) (log :: logs) out where
  tries := .again h hrest.tries
  happened := by
    rw [List.filter_append, hbrisk.filter_eq h, List.flatten_cons, ← hrest.happened]
    rfl
  few := by
    have := hrest.few
    rw [List.length_cons]
    omega
  exhausts hout := by
    have := hrest.exhausts hout
    rw [List.length_cons]
    omega
  loses := by
    have hfirst : log.countP Happening.losesWrite = 1 := hbrisk.loses _ _ _ h
    have hlater := hrest.loses
    simp only [List.countP_append, List.countP_cons, hfirst, Happening.losesWrite, List.length_cons,
      Bool.false_eq_true, if_false]
    omega
  faults call fault hmem := by
    rw [List.mem_append, List.mem_cons, List.mem_cons] at hmem
    obtain hfirst | hdrew | hwaited | hrest' := hmem
    · cases (hbrisk.faults _ _ _ h call fault hfirst).2
    · cases hdrew
    · cases hwaited
    · obtain ⟨hlast, hout⟩ := hrest.faults call fault hrest'
      refine ⟨?_, hout⟩
      rw [List.getLast?_append, List.getLast?_cons, List.getLast?_cons, hlast]
      rfl
  waits hjitter := by
    obtain ⟨more, hmore⟩ := Nat.exists_eq_add_of_lt hrest.tries.length_pos
    have hlater := hrest.waits hjitter
    rw [Nat.zero_add] at hmore
    rw [hmore, Nat.add_sub_cancel] at hlater
    rw [List.filterMap_append, hbrisk.waits_eq h, List.length_cons, Nat.add_sub_cancel, hmore, List.range'_succ,
      List.map_cons, ← hlater, hjitter]
    rfl

-- A change is pursued until a round settles it or no retry is left.
theorem exists_pursuit {operation : String} {silo : Silo} {round : σ → Plan (σ × Round α)} (hbrisk : Brisk step)
    (hround : ∀ state log out, (round state).Goes log out → step state log out) {left : Nat}
    (hleft : spent + left = policy.maxAttempts.toNat) {final : σ × Except UpdateError α}
    (h : (rounds operation silo policy round left (policy.delay spent) state).Goes log final) :
    ∃ logs out, Pursuit step policy spent state log logs out ∧
      final = (out.1, out.2.result (.retryExhausted operation silo policy.maxAttempts.toNat)) := by
  induction left generalizing spent state log with
  | zero =>
    unfold rounds at h
    obtain ⟨log, after, ⟨next, result | _⟩, rfl, hfirst, rfl, rfl⟩ := h.of_bind
    · rw [List.append_nil]
      exact ⟨_, _, .single hbrisk (hround _ _ _ hfirst) (by omega) nofun, rfl⟩
    · rw [List.append_nil]
      exact ⟨_, _, .single hbrisk (hround _ _ _ hfirst) (by omega) fun _ => by omega, rfl⟩
  | succ left ih =>
    unfold rounds at h
    obtain ⟨log, after, ⟨next, result | _⟩, rfl, hfirst, hend⟩ := h.of_bind
    · obtain ⟨rfl, rfl⟩ := hend
      rw [List.append_nil]
      exact ⟨_, _, .single hbrisk (hround _ _ _ hfirst) (by omega) nofun, rfl⟩
    · obtain ⟨share, _, rfl, rest, rfl, hrest⟩ := hend
      have hrest : (rounds operation silo policy round left (policy.delay (spent + 1)) next).Goes rest final := hrest
      obtain ⟨logs, out, hpursuit, hresult⟩ := ih (by omega) hrest
      exact ⟨_, out, hpursuit.again hbrisk (hround _ _ _ hfirst) share, hresult⟩

theorem Tries.exists_last {logs : List (List Happening)} (h : Tries step state logs out) :
    ∃ state, ∃ log ∈ logs, step state log out := by
  induction h with
  | last goes => exact ⟨_, _, List.mem_singleton_self _, goes⟩
  | again _ _ ih =>
    obtain ⟨state, log, hlog, hgoes⟩ := ih
    exact ⟨state, log, List.mem_cons_of_mem _ hlog, hgoes⟩

-- A change that ends after one more round than the policy has retries, if not before. Between the rounds nothing
-- is asked, and the waits are those of the policy. It is given up exactly when the last round is lost, too.
def Bounded (step : σ → List Happening → σ × Round α → Prop) (policy : Policy) (exhausted : UpdateError) (start : σ)
    (log : List Happening) (result : Except UpdateError α) : Prop :=
  ∃ logs out, Tries step start logs out ∧ logs.length ≤ policy.maxAttempts.toNat + 1 ∧
    (log.filter fun happening => !happening.isBackOff) = logs.flatten ∧ result = out.2.result exhausted ∧
    (∀ call fault, .called call (.error fault) ∈ log →
      log.getLast? = some (.called call (.error fault)) ∧ result = .error (.table fault)) ∧
    (out.2.isLost = true ↔ log.countP Happening.losesWrite = policy.maxAttempts.toNat + 1) ∧
    (policy.jitter = .none → log.filterMap Happening.wait? =
      (List.range (min (log.countP Happening.losesWrite) policy.maxAttempts.toNat)).map policy.delay)

theorem Pursuit.bounded (h : Pursuit step policy 0 state log logs out) (exhausted : UpdateError) :
    Bounded step policy exhausted state log (out.2.result exhausted) := by
  have hfew := h.few
  have hloses := h.loses
  obtain ⟨hlost, hwaits⟩ :
      (out.2.isLost = true ↔ log.countP Happening.losesWrite = policy.maxAttempts.toNat + 1) ∧
      logs.length - 1 = min (log.countP Happening.losesWrite) policy.maxAttempts.toNat := by
    cases hout : out.2.isLost with
    | false =>
      rw [hout, if_neg Bool.false_ne_true] at hloses
      exact ⟨iff_of_false Bool.false_ne_true (by omega), by omega⟩
    | true =>
      have hexhausts := h.exhausts hout
      rw [hout, if_pos rfl] at hloses
      exact ⟨iff_of_true rfl (by omega), by omega⟩
  refine ⟨logs, out, h.tries, by omega, h.happened, rfl, fun call fault hmem => ?_, hlost, fun hjitter => ?_⟩
  · obtain ⟨hlast, hout⟩ := h.faults call fault hmem
    exact ⟨hlast, congrArg (Round.result exhausted) hout⟩
  · rw [h.waits hjitter, hwaits, List.range_eq_range']

-- A change that is given up has lost its last round, unless it was settled like that.
theorem Pursuit.loses_of_exhausted {error : UpdateError} (h : Pursuit step policy 0 state log logs out)
    {operation : String} {silo : Silo} {attempts : Nat}
    (hresult : out.2.result error = .error (.retryExhausted operation silo attempts)) :
    log.countP Happening.losesWrite = policy.maxAttempts.toNat + 1 ∨
    ∃ state log next, step state log (next, .settled (.error (.retryExhausted operation silo attempts))) := by
  obtain ⟨next, result | _⟩ := out
  · obtain ⟨state, log, -, hgoes⟩ := h.tries.exists_last
    have hresult : result = .error (.retryExhausted operation silo attempts) := hresult
    rw [hresult] at hgoes
    exact Or.inr ⟨state, log, next, hgoes⟩
  · have hloses := h.loses
    have hexhausts := h.exhausts rfl
    simp only [Round.isLost, if_true] at hloses
    exact Or.inl (by omega)

end

theorem exists_pursuit_insert {policy : Policy} {entry : Entry} {log : List Happening}
    {result : Except UpdateError Unit} (h : (insert policy entry).Goes log result) :
    ∃ logs out, Pursuit (fun (_ : Unit) log out => InsertGoes entry log out.2) policy 0 () log logs out ∧
      result = out.2.result (.retryExhausted "insert_entry" entry.silo policy.maxAttempts.toNat) := by
  have hround : ∀ (state : Unit) (log : List Happening) (out : Unit × Round Unit),
      Plan.Goes (do pure ((), ← insertRound entry)) log out → InsertGoes entry log out.2 := by
    intro state log out hgoes
    obtain ⟨first, last, round, rfl, hfirst, rfl, rfl⟩ := hgoes.of_bind
    rw [List.append_nil]
    exact insertGoes_of_goes hfirst
  obtain ⟨first, last, final, rfl, hretry, rfl, rfl⟩ := h.of_bind
  obtain ⟨logs, out, hpursuit, hresult⟩ := exists_pursuit (brisk_insertGoes entry) hround (Nat.zero_add _) hretry
  rw [List.append_nil]
  exact ⟨logs, out, hpursuit, congrArg Prod.snd hresult⟩

theorem exists_pursuit_revise {policy : Policy} {silo : Silo} {decide : Decide} {log : List Happening}
    {final : List Entry × Except UpdateError Entry} (h : (revise policy silo decide).Goes log final) :
    ∃ logs out, Pursuit (ReviseGoes silo decide) policy 0 [] log logs out ∧
      final = (out.1, out.2.result (.retryExhausted "update_entry" silo policy.maxAttempts.toNat)) :=
  exists_pursuit (brisk_reviseGoes silo decide) (fun _ _ _ => reviseGoes_of_goes) (Nat.zero_add _) h

-- To add a row and to revise one takes a limited number of rounds, whatever the table answers, and each round
-- makes one reading and one write that goes by it at most. The first fault, and the first reading or decision that
-- stands against the change, ends it, and it is given up if and only if every round up to the last one has been
-- lost. Between the rounds go by the delays that the runner of the policy hands out.
theorem changes_are_bounded (policy : Policy) (fortune : Fortune) :
    (∀ entry : Entry,
      let met := (insert policy entry).meet fortune []
      Bounded (fun (_ : Unit) log out => InsertGoes entry log out.2) policy
        (.retryExhausted "insert_entry" entry.silo policy.maxAttempts.toNat) () met.1 met.2 ∧
      ∀ operation silo attempts, met.2 = .error (.retryExhausted operation silo attempts) →
        met.1.countP Happening.losesWrite = policy.maxAttempts.toNat + 1) ∧
    (∀ silo decide,
      let met := (revise policy silo decide).meet fortune []
      Bounded (ReviseGoes silo decide) policy (.retryExhausted "update_entry" silo policy.maxAttempts.toNat) []
        met.1 met.2.2 ∧
      ∀ operation other attempts, met.2.2 = .error (.retryExhausted operation other attempts) →
        met.1.countP Happening.losesWrite = policy.maxAttempts.toNat + 1 ∨
          ∃ seen now current, decide seen now current = .error (.retryExhausted operation other attempts)) ∧
    Runner.start policy = .past policy 0 ∧
    ∀ k < policy.maxAttempts.toNat, ∀ chance, (Runner.past policy k).next chance =
      (.retryAfter (policy.jitter.apply chance (policy.delay k)), .past policy (k + 1)) := by
  refine ⟨fun entry => ?_, fun silo decide => ?_, Runner.start_eq_past policy,
    fun k hk chance => Runner.next_past hk chance⟩
  · obtain ⟨logs, out, hpursuit, hresult⟩ := exists_pursuit_insert ((insert policy entry).goes_meet fortune [])
    refine ⟨?_, fun operation silo attempts hexhausted => ?_⟩
    · rw [hresult]
      exact hpursuit.bounded _
    · rw [hresult] at hexhausted
      refine (hpursuit.loses_of_exhausted hexhausted).resolve_right ?_
      rintro ⟨_, log, _, hgoes⟩
      cases hgoes
  · obtain ⟨logs, out, hpursuit, hresult⟩ := exists_pursuit_revise ((revise policy silo decide).goes_meet fortune [])
    refine ⟨?_, fun operation other attempts hexhausted => ?_⟩
    · rw [hresult]
      exact hpursuit.bounded _
    · rw [hresult] at hexhausted
      refine (hpursuit.loses_of_exhausted hexhausted).imp_right ?_
      rintro ⟨seen, log, _, hgoes⟩
      cases hgoes with
      | refused snapshot row now error _ hdecided => exact ⟨seen, now, row.entry, hdecided⟩

-- A table that has no rows and says no to every write.
def refusing : Fortune where
  answer _ call :=
    match call with
    | .establish _ => .ok true
    | .delete _ => .ok ()
    | .readRow _ => .ok ⟨[], ⟨0, "v"⟩⟩
    | .readAll => .ok ⟨[], ⟨0, "v"⟩⟩
    | .insertRow _ _ => .ok false
    | .updateRow _ _ _ => .ok false
    | .mergeAlive _ => .ok ()
  share _ := .never
  now _ := .epoch

example :
    let entry := Entry.fresh (.onLoopback 11111 1) "a" .epoch
    let met := (insert (.immediate 3 (by decide)) entry).meet refusing []
    met.2 = .error (.retryExhausted "insert_entry" entry.silo 3) ∧ met.1.countP Happening.losesWrite = 4 := by
  decide +kernel

end Updater
end Muster
