import Muster.Proofs.Placement.Routing
import Muster.Proofs.Rig.Handle

-- Silos that place grains by one directory. A decision may be old when its holder registers by it.
namespace Muster

namespace Routing

-- Placing a grain changes nothing but queues.
theorem directories_select {service : PlacementService} (h : service.directors = .standard) (clock : Clock)
    (way : DirectoryHandle) (queue : Option Nat) (grain : Grain) (draw : Nat) (rig : Rig) :
    (select clock service way queue grain draw rig).state.directories = rig.directories := by
  cases hanswer : way.answer clock service.config.lookupTimeout grain rig with
  | error error => rw [(select_of_error h hanswer).2]
  | ok existing =>
    obtain ⟨queues, hqueues⟩ := Handle.tell_eq queue
      ((service.decision grain existing draw).event grain (service.types.strategyFor grain)) rig
    rw [(select_of_ok h queue draw hanswer).2, hqueues]

-- A silo that asks the directory of the given number where grains go. Its service knows the directors that
-- come with it, and may count any silos as active.
structure Host (n : Nat) where
  service : PlacementService
  way : DirectoryHandle
  queue : Option Nat
  standard : service.directors = .standard
  number : way.number = n

-- A decision to place a grain on a silo, in the hands of whoever asked.
structure Ticket where
  grain : Grain
  silo : Silo
deriving DecidableEq

-- The directory that all silos ask, and the tickets that they hold.
structure Cluster (n : Nat) where
  rig : Rig
  held : List Ticket
  there : n < rig.directories.length

-- What happens next: a silo has a grain placed, a ticket is used to register, activations end, or the
-- directory goes out or comes back. Nothing is recorded past the check of a registration.
inductive Move (n : Nat) where
  | select (host : Host n) (grain : Grain) (draw : Nat)
  | register (ticket : Nat)
  | unregister (activation : Activation)
  | removeSilo (silo : Silo)
  | weather (outage : Option String)

-- The move ends the activation if there is one.
def Move.removes (activation : Activation) : Move n → Bool
  | unregister other => activation == other
  | removeSilo silo => activation.silo == silo
  | _ => false

namespace Cluster

-- A cluster begins with a new directory.
def start (rig : Rig) : Cluster rig.directories.length where
  rig := (rig.addDirectory .empty).2
  held := []
  there := by simp [Rig.addDirectory]

def directory (cluster : Cluster n) : Directory := cluster.rig.directory n

def put (cluster : Cluster n) (directory : Directory) : Cluster n where
  rig := { cluster.rig with directories := cluster.rig.directories.set n directory }
  held := cluster.held
  there := Nat.lt_of_lt_of_eq cluster.there List.length_set.symm

def register (cluster : Cluster n) (ticket : Ticket) : Except RegistrationError Activation × Cluster n :=
  match cluster.directory.register ticket.grain ticket.silo with
  | .error error => (.error error, cluster)
  | .ok (activation, directory) => (.ok activation, cluster.put directory)

-- A lookup takes effect at one moment, whatever time it takes. The ticket that it leads to may be used at
-- any later one, and more than once.
def play (clock : Clock) (cluster : Cluster n) : Move n → Cluster n
  | .select host grain draw =>
    let course := Routing.select clock host.service host.way host.queue grain draw cluster.rig
    have hthere : n < course.state.directories.length := by
      rw [directories_select host.standard]
      exact cluster.there
    match course.value with
    | .ok (.place placement) => ⟨course.state, cluster.held ++ [⟨grain, placement.silo⟩], hthere⟩
    | _ => ⟨course.state, cluster.held, hthere⟩
  | .register ticket =>
    match cluster.held[ticket]? with
    | some ticket => (cluster.register ticket).2
    | none => cluster
  | .unregister activation => cluster.put (cluster.directory.unregister activation).2
  | .removeSilo silo => cluster.put (cluster.directory.removeSilo silo).2
  | .weather outage => cluster.put { cluster.directory with outage }

def after (clock : Clock) (cluster : Cluster n) : List (Move n) → Cluster n
  | [] => cluster
  | move :: rest => after clock (cluster.play clock move) rest

-- The move registers the grain, or tries to, outside an outage.
def Tries (cluster : Cluster n) (grain : Grain) (move : Move n) : Prop :=
  ∃ index ticket, move = .register index ∧ cluster.held[index]? = some ticket ∧ ticket.grain = grain ∧
    cluster.directory.outage = none

-- What holds of each move and of the cluster as the move finds it.
def Throughout (clock : Clock) (holds : Cluster n → Move n → Prop) (cluster : Cluster n) : List (Move n) → Prop
  | [] => True
  | move :: rest => holds cluster move ∧ Throughout clock holds (cluster.play clock move) rest

variable {n : Nat} {clock : Clock} {cluster : Cluster n} {grain : Grain} {activation : Activation}

theorem directory_put (cluster : Cluster n) (directory : Directory) :
    (cluster.put directory).directory = directory := by
  rw [Cluster.directory, put, Rig.directory, List.getElem?_set_self cluster.there, Option.getD_some]

theorem directories_play_select (cluster : Cluster n) (host : Host n) (grain : Grain) (draw : Nat) :
    (cluster.play clock (.select host grain draw)).rig.directories = cluster.rig.directories := by
  have hselect := directories_select host.standard clock host.way host.queue grain draw cluster.rig
  simp only [play]
  split <;> exact hselect

-- What a move can do to the activations of a grain.
inductive Turn (cluster : Cluster n) (move : Move n) (grain : Grain) (left : Cluster n) : Prop where
  | keeps (left_eq : left.directory.activationsOf grain =
      (cluster.directory.activationsOf grain).filter fun activation => !move.removes activation)
  | registers (tries : cluster.Tries grain move) (activation : Activation)
      (free : cluster.directory.activationsOf grain = [])
      (left_eq : left.directory.activationsOf grain = [activation])

theorem Turn.of_eq {move : Move n} {left : Cluster n} (hremoves : ∀ activation, move.removes activation = false)
    (h : left.directory.activationsOf grain = cluster.directory.activationsOf grain) :
    cluster.Turn move grain left := by
  refine .keeps (h.trans (Eq.symm ?_))
  exact List.filter_eq_self.mpr fun activation _ => by rw [hremoves, Bool.not_false]

theorem play_turn (cluster : Cluster n) (move : Move n) (grain : Grain) :
    cluster.Turn move grain (cluster.play clock move) := by
  cases move with
  | select host other draw =>
    refine .of_eq (fun _ => rfl) ?_
    rw [directory, directory, Rig.directory, Rig.directory, directories_play_select]
  | register index =>
    cases hheld : cluster.held[index]? with
    | none => exact .of_eq (fun _ => rfl) (by simp only [play, hheld])
    | some ticket =>
      simp only [play, hheld, register]
      split
      · exact .of_eq (fun _ => rfl) rfl
      · next activation left hregister =>
        obtain ⟨hup, hfree, hleft⟩ := Directory.of_register_ok hregister
        by_cases hgrain : ticket.grain = grain
        · subst hgrain
          refine .registers ⟨index, ticket, rfl, hheld, rfl, hup⟩ activation hfree ?_
          rw [directory_put, hleft, hfree, if_pos rfl, List.nil_append]
        · refine .of_eq (fun _ => rfl) ?_
          rw [directory_put, hleft, if_neg hgrain, List.append_nil]
  | unregister activation =>
    refine .keeps ?_
    rw [play, directory_put, Directory.activationsOf_unregister]
    rfl
  | removeSilo silo =>
    refine .keeps ?_
    rw [play, directory_put, Directory.activationsOf_removeSilo]
    rfl
  | weather outage =>
    refine .of_eq (fun _ => rfl) ?_
    rw [play, directory_put]
    rfl

-- No grain is there twice.
def Single (cluster : Cluster n) : Prop := ∀ grain, (cluster.directory.activationsOf grain).length ≤ 1

theorem single_start (rig : Rig) : (start rig).Single := by
  have hdirectory : (start rig).directory = .empty := by
    simp [directory, start, Rig.directory, Rig.addDirectory]
  intro grain
  rw [hdirectory]
  exact Nat.zero_le 1

theorem Single.play (h : cluster.Single) (move : Move n) : (cluster.play clock move).Single := by
  intro grain
  obtain ⟨hkeeps⟩ | ⟨-, activation, -, htakes⟩ := cluster.play_turn move grain
  · rw [hkeeps]
    exact Nat.le_trans (List.length_filter_le ..) (h grain)
  · rw [htakes]
    exact Nat.le_refl 1

theorem Single.after (h : cluster.Single) (moves : List (Move n)) : (cluster.after clock moves).Single := by
  induction moves generalizing cluster with
  | nil => exact h
  | cons move rest ih => exact ih (h.play move)

theorem Throughout.keeps {holds : Cluster n → Move n → Prop} (kept : Cluster n → Prop)
    (hstep : ∀ cluster move, kept cluster → holds cluster move → kept (cluster.play clock move))
    {moves : List (Move n)} (h : kept cluster) (hmoves : cluster.Throughout clock holds moves) :
    kept (cluster.after clock moves) := by
  induction moves generalizing cluster with
  | nil => exact h
  | cons move rest ih => exact ih (hstep cluster move h hmoves.1) hmoves.2

theorem free_after {moves : List (Move n)} (h : cluster.directory.activationsOf grain = [])
    (hmoves : cluster.Throughout clock (fun cluster move => ¬cluster.Tries grain move) moves) :
    (cluster.after clock moves).directory.activationsOf grain = [] := by
  refine hmoves.keeps (·.directory.activationsOf grain = []) (fun cluster move hfree htries => ?_) h
  obtain ⟨hkeeps⟩ | ⟨htried, -⟩ := cluster.play_turn move grain
  · rw [hkeeps, hfree, List.filter_nil]
  · exact absurd htried htries

theorem taken_after {moves : List (Move n)} (h : cluster.directory.activationsOf grain = [activation])
    (hmoves : cluster.Throughout clock (fun _ move => move.removes activation = false) moves) :
    (cluster.after clock moves).directory.activationsOf grain = [activation] := by
  refine hmoves.keeps (·.directory.activationsOf grain = [activation]) (fun cluster move htaken hremoves => ?_) h
  obtain ⟨hkeeps⟩ | ⟨-, -, hfree, -⟩ := cluster.play_turn move grain
  · rw [hkeeps, htaken]
    simp [hremoves]
  · rw [htaken] at hfree
    exact absurd hfree (List.cons_ne_nil _ _)

theorem register_of_free {ticket : Ticket} (hup : cluster.directory.outage = none)
    (hfree : cluster.directory.activationsOf ticket.grain = []) :
    ∃ activation : Activation, activation.grain = ticket.grain ∧ activation.silo = ticket.silo ∧
      (cluster.register ticket).1 = .ok activation ∧
      (cluster.register ticket).2.directory.activationsOf ticket.grain = [activation] := by
  have hregister := Directory.register_of_free hup hfree ticket.silo
  refine ⟨(cluster.directory.record ticket.grain ticket.silo).1, rfl, rfl, ?_, ?_⟩
  · rw [register, hregister]
  · rw [register, hregister, directory_put, Directory.activationsOf_record, hfree, if_pos rfl, List.nil_append]

theorem register_of_taken {ticket : Ticket} (hup : cluster.directory.outage = none)
    (htaken : cluster.directory.activationsOf ticket.grain = [activation]) :
    (cluster.register ticket).1 = .error (.alreadyRegistered activation) := by
  rw [register, Directory.register_of_taken hup htaken]

-- A pinned grain goes where it is, and to no other silo.
theorem Single.select_pinned (h : cluster.Single) (host : Host n)
    (hpinned : host.service.types.strategyFor grain = .pinned) {existing : List Activation}
    (hanswer : host.way.answer clock host.service.config.lookupTimeout grain cluster.rig = .ok existing)
    (hknown : activation ∈ existing) (draw : Nat) :
    (Routing.select clock host.service host.way host.queue grain draw cluster.rig).value =
      .ok (if activation.silo = host.service.home then
        .place ⟨host.service.home, .pinned, host.service.types.nameFor grain⟩ else .refuse [activation]) := by
  have honly : existing = [activation] := by
    have hsingle := h grain
    have hexisting := DirectoryHandle.eq_of_answer hanswer
    rw [host.number] at hexisting
    rw [directory, ← hexisting] at hsingle
    obtain ⟨only, rfl⟩ := List.length_eq_one_iff.mp (Nat.le_antisymm hsingle (List.length_pos_of_mem hknown))
    rw [List.mem_singleton.mp hknown]
  subst honly
  rw [(select_of_ok host.standard host.queue draw hanswer).1]
  simp only [PlacementService.decision, hpinned, Director.ofStrategy, Director.select, Director.add,
    PlacementService.view]

end Cluster

-- Whichever silos ask, whatever they count as active and however their moves are mixed: a grain has one
-- activation at most. Of those who hold a ticket for a grain that has none, the first to register outside
-- an outage does, and the others hear of that activation until it ends. A pinned grain stays where it is.
theorem activations_stay_single (clock : Clock) (rig : Rig) (moves : List (Move rig.directories.length)) :
    let cluster := (Cluster.start rig).after clock moves
    (∀ grain, (cluster.directory.activationsOf grain).length ≤ 1) ∧
    (∀ grain waiting, cluster.directory.activationsOf grain = [] →
      cluster.Throughout clock (fun cluster move => ¬cluster.Tries grain move) waiting →
      let ready := cluster.after clock waiting
      ∀ ticket ∈ ready.held, ticket.grain = grain → ready.directory.outage = none →
      ∃ activation : Activation, activation.grain = grain ∧ activation.silo = ticket.silo ∧
        (ready.register ticket).1 = .ok activation ∧
        ∀ later, (ready.register ticket).2.Throughout clock (fun _ move => move.removes activation = false) later →
          let taken := (ready.register ticket).2.after clock later
          ∀ other ∈ taken.held, other.grain = grain → taken.directory.outage = none →
            (taken.register other).1 = .error (.alreadyRegistered activation)) ∧
    ∀ (host : Host rig.directories.length) grain existing activation draw,
      host.service.types.strategyFor grain = .pinned →
      host.way.answer clock host.service.config.lookupTimeout grain cluster.rig = .ok existing →
      activation ∈ existing →
      (select clock host.service host.way host.queue grain draw cluster.rig).value =
        .ok (if activation.silo = host.service.home then
          .place ⟨host.service.home, .pinned, host.service.types.nameFor grain⟩ else .refuse [activation]) := by
  intro cluster
  have hsingle : cluster.Single := (Cluster.single_start rig).after moves
  refine ⟨hsingle, ?_, ?_⟩
  · rintro grain waiting hfree hwaiting ready ticket - rfl hup
    have hready : ready.directory.activationsOf ticket.grain = [] := Cluster.free_after hfree hwaiting
    obtain ⟨activation, hgrain, hsilo, hregister, htaken⟩ := Cluster.register_of_free hup hready
    refine ⟨activation, hgrain, hsilo, hregister, ?_⟩
    rintro later hlater taken other - hother hback
    have hstill := Cluster.taken_after htaken hlater
    rw [← hother] at hstill
    exact Cluster.register_of_taken hback hstill
  · intro host grain existing activation draw hpinned hanswer hknown
    exact hsingle.select_pinned host hpinned hanswer hknown draw

-- A silo on which ledgers are pinned, and which counts itself as active.
def bank (port : UInt16) : Host 0 where
  service := .new (.onLoopback port 1) (.add .standard "ledger" "Bank.LedgerGrain" .pinned) .standard
  way := .plain 0
  queue := none
  standard := rfl
  number := rfl

-- Two silos hold tickets for one ledger. The first one to register comes in an outage, the other one is
-- quicker afterwards.
theorem activations_stay_single_race :
    let ledger : Grain := ⟨"ledger", "acct-9"⟩
    let first : Ticket := ⟨ledger, .onLoopback 11111 1⟩
    let second : Ticket := ⟨ledger, .onLoopback 11112 1⟩
    let asked := (Cluster.start .empty).after .millis [.select (bank 11111) ledger 0, .select (bank 11112) ledger 0]
    let ready := asked.after .millis [.weather (some "partition"), .register 0, .weather none]
    let taken := (Cluster.start .empty).after .millis [.select (bank 11111) ledger 0,
      .select (bank 11112) ledger 0, .weather (some "partition"), .register 0, .weather none, .register 1]
    ready.held = [first, second] ∧
    (∃ activation : Activation, (ready.register second).1 = .ok activation ∧ activation.silo = second.silo ∧
      (((ready.register second).2.after .millis [.removeSilo first.silo]).register first).1 =
        .error (.alreadyRegistered activation)) ∧
    (select .millis (bank 11111).service (bank 11111).way none ledger 0 taken.rig).value =
      .ok (.refuse [⟨ledger, second.silo, 1⟩]) ∧
    (select .millis (bank 11112).service (bank 11112).way none ledger 0 taken.rig).value =
      .ok (.place ⟨second.silo, .pinned, "Bank.LedgerGrain"⟩) := by
  intro ledger first second asked ready taken
  have hheld : ready.held = [first, second] := by decide +kernel
  have hdown : (asked.play .millis (.weather (some "partition"))).directory.outage = some "partition" := by
    decide +kernel
  have hwaiting : asked.Throughout .millis (fun cluster move => ¬cluster.Tries ledger move)
      [.weather (some "partition"), .register 0, .weather none] := by
    refine ⟨?_, ?_, ?_, trivial⟩
    · rintro ⟨index, ticket, ⟨⟩, -⟩
    · rintro ⟨index, ticket, -, -, -, hup⟩
      rw [hdown] at hup
      cases hup
    · rintro ⟨index, ticket, ⟨⟩, -⟩
  have hfound : taken.directory.activationsOf ledger = [⟨ledger, second.silo, 1⟩] := by decide +kernel
  have hanswer (limit : Span) : (DirectoryHandle.plain 0).answer .millis limit ledger taken.rig =
      .ok [⟨ledger, second.silo, 1⟩] := by
    rw [← hfound]
    exact DirectoryHandle.answer_of_up (Nat.zero_le _) (by decide +kernel) ledger
  obtain ⟨-, hrace, -⟩ := activations_stay_single .millis .empty
    [.select (bank 11111) ledger 0, .select (bank 11112) ledger 0]
  obtain ⟨-, -, hpinned⟩ := activations_stay_single .millis .empty [.select (bank 11111) ledger 0,
    .select (bank 11112) ledger 0, .weather (some "partition"), .register 0, .weather none, .register 1]
  refine ⟨hheld, ?_, ?_, ?_⟩
  · obtain ⟨activation, -, hsilo, hregister, hlater⟩ := hrace ledger _ (by decide +kernel) hwaiting second
      (by rw [hheld]; simp) rfl (by decide +kernel)
    have hstays : (Move.removeSilo first.silo : Move 0).removes activation = false := by
      rw [Move.removes, hsilo]
      decide
    exact ⟨activation, hregister, hsilo,
      hlater [.removeSilo first.silo] ⟨hstays, trivial⟩ first (by decide +kernel) rfl (by decide +kernel)⟩
  · exact hpinned (bank 11111) ledger _ ⟨ledger, second.silo, 1⟩ 0 rfl (hanswer _) (List.mem_singleton_self _)
  · exact hpinned (bank 11112) ledger _ ⟨ledger, second.silo, 1⟩ 0 rfl (hanswer _) (List.mem_singleton_self _)

end Routing
end Muster
