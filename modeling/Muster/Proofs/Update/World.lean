import Muster.Proofs.Table.Answer
import Muster.Proofs.Table.Stamp
import Muster.Proofs.Update.Conduct

-- Parties that change one roll side by side. Each call on the table is one step, and the parties take
-- their steps in any order.
namespace Muster.Updater

-- A party at work: what it set out to do, and what is left of it.
structure Party where
  task : Task
  rest : Plan (Except UpdateError (Option Entry))

-- A call that a party made, and the table that the call met.
structure Exchange where
  party : Nat
  task : Task
  drawn : UInt64
  call : Call
  before : Deployment
deriving DecidableEq

namespace Exchange

def answer (exchange : Exchange) : exchange.call.Answer :=
  (exchange.before.answer exchange.drawn exchange.call).1

def after (exchange : Exchange) : Deployment := (exchange.before.answer exchange.drawn exchange.call).2

def operation (exchange : Exchange) : Deployment.Operation :=
  exchange.call.operation exchange.drawn exchange.before.id

def turn (exchange : Exchange) : Deployment.Turn := ⟨exchange.before, exchange.operation⟩

def won (exchange : Exchange) : Bool := exchange.call.wins exchange.answer

theorem after_turn (exchange : Exchange) : exchange.turn.after = exchange.after :=
  (Call.answer_eq_perform _ _ _).symm

theorem won_eq_isSome (exchange : Exchange) : exchange.won = exchange.turn.won?.isSome :=
  Call.wins_eq_isSome _ _ _

-- The entry that the call puts in the place of another one, if it wins.
def revision? (exchange : Exchange) : Option Entry :=
  match exchange.call with
  | .updateRow entry _ _ => some entry
  | _ => none

theorem next_of_won {exchange : Exchange} (h : exchange.won) {stage : Stage}
    (hstage : ∀ entry, stage ≠ .written entry) :
    stage.next exchange.call exchange.answer = .written exchange.revision? := by
  obtain ⟨party, task, drawn, call, before⟩ := exchange
  simp only [won, answer, revision?] at h ⊢
  generalize (before.answer drawn call).1 = answer at h ⊢
  unfold Call.wins at h
  split at h
  · cases stage with
    | written entry => exact absurd rfl (hstage entry)
    | _ => rfl
  · cases stage with
    | written entry => exact absurd rfl (hstage entry)
    | _ => rfl
  · cases h

end Exchange

-- A table, the events told, the parties in the order in which they came, and all calls so far.
structure World where
  table : Deployment
  told : List Event
  parties : List Party
  log : List Exchange

-- Another party comes, or a party takes its next step at some time, with some chance.
inductive Move where
  | enter (task : Task) (policy : Policy)
  | step (party : Nat) (now : Instant) (chance : Chance) (drawn : UInt64)

namespace World

def start (table : Deployment) : World := ⟨table, [], [], []⟩

def goOn (world : World) (index : Nat) (party : Party) (rest : Plan (Except UpdateError (Option Entry))) :
    World :=
  { world with parties := world.parties.set index { party with rest } }

def take (world : World) (exchange : Exchange) : World :=
  { world with table := exchange.after, log := world.log ++ [exchange] }

def move (world : World) : Move → World
  | .enter task policy => { world with parties := world.parties ++ [⟨task, task.plan policy⟩] }
  | .step index now chance drawn =>
    match world.parties[index]? with
    | none => world
    | some party =>
      match party.rest with
      | .done _ => world
      | .ask call next =>
        let exchange : Exchange := ⟨index, party.task, drawn, call, world.table⟩
        (world.take exchange).goOn index party (next exchange.answer)
      | .wait _ next => world.goOn index party next
      | .chance next => world.goOn index party (next chance)
      | .clock next => world.goOn index party (next now)
      | .publish event next => { world.goOn index party next with told := world.told ++ [event] }

def after (world : World) : List Move → World
  | [] => world
  | move :: rest => after (world.move move) rest

section
variable (world : World) (index : Nat) (party : Party) (rest : Plan (Except UpdateError (Option Entry)))

@[simp] theorem table_goOn : (world.goOn index party rest).table = world.table := rfl

@[simp] theorem log_goOn : (world.goOn index party rest).log = world.log := rfl

end

section
variable (world : World) (exchange : Exchange)

@[simp] theorem table_take : (world.take exchange).table = exchange.after := rfl

@[simp] theorem log_take : (world.take exchange).log = world.log ++ [exchange] := rfl

@[simp] theorem parties_take : (world.take exchange).parties = world.parties := rfl

end

theorem log_move (world : World) (move : Move) : ∃ calls, (world.move move).log = world.log ++ calls := by
  cases move with
  | enter task policy => exact ⟨[], (List.append_nil _).symm⟩
  | step index now chance drawn =>
      simp only [World.move]
      split
      · exact ⟨[], (List.append_nil _).symm⟩
      · split
        · exact ⟨[], (List.append_nil _).symm⟩
        · exact ⟨[_], rfl⟩
        all_goals exact ⟨[], (List.append_nil _).symm⟩

-- What has been logged stays logged.
theorem log_after (world : World) (moves : List Move) :
    ∃ calls, (world.after moves).log = world.log ++ calls := by
  induction moves generalizing world with
  | nil => exact ⟨[], (List.append_nil _).symm⟩
  | cons move moves ih =>
      obtain ⟨calls, hmove⟩ := world.log_move move
      obtain ⟨more, hafter⟩ := ih (world.move move)
      exact ⟨calls ++ more, by rw [after, hafter, hmove, List.append_assoc]⟩

theorem after_append (world : World) (past later : List Move) :
    world.after (past ++ later) = (world.after past).after later := by
  induction past generalizing world with
  | nil => rfl
  | cons move past ih => simp only [List.cons_append, after, ih]

end World

-- How far a party has come after some calls of all parties.
def stageOf (party : Nat) (log : List Exchange) : Stage :=
  (log.filter fun exchange => exchange.party = party).foldl
    (fun stage exchange => stage.next exchange.call exchange.answer) .idle

theorem stageOf_concat_self (log : List Exchange) (exchange : Exchange) :
    stageOf exchange.party (log ++ [exchange]) =
      (stageOf exchange.party log).next exchange.call exchange.answer := by
  simp [stageOf]

theorem stageOf_append_of_ne {party : Nat} (log : List Exchange) {more : List Exchange}
    (h : ∀ exchange ∈ more, exchange.party ≠ party) : stageOf party (log ++ more) = stageOf party log := by
  have hmore : more.filter (fun exchange => exchange.party = party) = [] := by simpa using h
  rw [stageOf, List.filter_append, hmore, List.append_nil, stageOf]

theorem stageOf_append_of_written {party : Nat} {log : List Exchange} {entry : Option Entry}
    (h : stageOf party log = .written entry) (more : List Exchange) :
    stageOf party (log ++ more) = .written entry := by
  induction more generalizing log with
  | nil => rw [List.append_nil, h]
  | cons exchange more ih =>
      rw [List.append_cons]
      apply ih
      by_cases hparty : exchange.party = party
      · subst hparty
        rw [stageOf_concat_self, h, Stage.next]
      · rw [stageOf_append_of_ne log (by simpa using hparty), h]

end Muster.Updater
