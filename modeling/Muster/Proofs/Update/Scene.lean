import Muster.Proofs.Table.Effect
import Muster.Proofs.Update.Footing
import Muster.Proofs.Update.Legible
import Muster.Rig.Handle

-- Parties that change one roll side by side, each by its own way to the table, and other people who call
-- on the table too. Each call is one step, and the steps come in any order.
namespace Muster.Updater

theorem Task.May.silo_of_write? {task : Task} {stage : Stage} {call : Call} (h : task.May stage call) {entry : Entry}
    {stamp : Version} (hwrite : call.write? = some (entry, stamp)) : entry.silo = task.silo := by
  cases h with
  | insert _ _ htask =>
    obtain ⟨rfl, -⟩ := Prod.mk.inj (Option.some.inj hwrite)
    rw [htask, Task.silo]
  | revise row _ _ hfound hrevises =>
    obtain ⟨rfl, -⟩ := Prod.mk.inj (Option.some.inj hwrite)
    have hrow : row.entry.silo = task.silo := by simpa using List.find?_some hfound
    rw [hrevises.silo_eq, hrow]
  | look => cases hwrite
  | beat => cases hwrite

-- A party at work: its way to the table and to those who hear of its events, what it set out to do, how it
-- stands, and what is left for it to do.
structure Actor where
  handle : Handle
  queue : Option Nat
  task : Task
  footing : Footing
  rest : Plan (Except UpdateError (Option Entry))
  follows : rest.Follows task Footing.Ends footing

-- What a party does next. A call takes it to where the answer leads.
inductive Actor.Step where
  | stays
  | goesOn (next : Actor)
  | asks (call : Call) (hear : call.Answer → Actor)
  | tells (event : Event) (next : Actor)

namespace Actor

def start (handle : Handle) (queue : Option Nat) (policy : Policy) (task : Task) : Actor :=
  ⟨handle, queue, task, .idle, task.plan policy, task.follows_plan policy⟩

def step (now : Instant) (chance : Chance) : Actor → Step
  | ⟨_, _, _, _, .done _, _⟩ => .stays
  | ⟨handle, queue, task, footing, .ask call next, follows⟩ =>
    .asks call fun answer => ⟨handle, queue, task, footing.hear task call answer, next answer, follows.2 answer⟩
  | ⟨handle, queue, task, footing, .wait _ next, follows⟩ => .goesOn ⟨handle, queue, task, footing, next, follows.2⟩
  | ⟨handle, queue, task, footing, .chance next, follows⟩ =>
    .goesOn ⟨handle, queue, task, footing, next chance, follows.2 chance⟩
  | ⟨handle, queue, task, footing, .clock next, follows⟩ =>
    .goesOn ⟨handle, queue, task, footing, next now, follows now⟩
  | ⟨handle, queue, task, _, .publish event next, follows⟩ =>
    .tells event ⟨handle, queue, task, .settled, next, follows.2⟩

-- The party is about to wait before its next round.
def isBackingOff (actor : Actor) : Bool :=
  match actor.rest with
  | .wait _ _ => true
  | .chance _ => true
  | _ => false

def result? (actor : Actor) : Option (Except UpdateError (Option Entry)) :=
  match actor.rest with
  | .done result => some result
  | _ => none

-- The same party, further on.
structure Alike (next actor : Actor) : Prop where
  handle : next.handle = actor.handle
  queue : next.queue = actor.queue
  task : next.task = actor.task

variable {actor next : Actor} {now : Instant} {chance : Chance}

theorem of_goesOn (h : actor.step now chance = .goesOn next) : next.Alike actor ∧ next.footing = actor.footing := by
  obtain ⟨handle, queue, task, footing, rest, follows⟩ := actor
  cases rest <;> simp only [step, Step.goesOn.injEq, reduceCtorEq] at h <;> subst h <;> exact ⟨⟨rfl, rfl, rfl⟩, rfl⟩

theorem of_asks {call : Call} {hear : call.Answer → Actor} (h : actor.step now chance = .asks call hear) :
    actor.task.May actor.footing.stage call ∧ ∀ answer, (hear answer).Alike actor ∧
      (hear answer).footing = actor.footing.hear actor.task call answer := by
  obtain ⟨handle, queue, task, footing, rest, follows⟩ := actor
  cases rest <;> simp only [step, Step.asks.injEq, reduceCtorEq] at h
  obtain ⟨rfl, heq⟩ := h
  obtain rfl := eq_of_heq heq
  exact ⟨follows.1, fun answer => ⟨⟨rfl, rfl, rfl⟩, rfl⟩⟩

theorem of_tells {event : Event} (h : actor.step now chance = .tells event next) :
    actor.footing = .owes event ∧ next.Alike actor ∧ next.footing = .settled := by
  obtain ⟨handle, queue, task, footing, rest, follows⟩ := actor
  cases rest <;> simp only [step, Step.tells.injEq, reduceCtorEq] at h
  obtain ⟨rfl, rfl⟩ := h
  exact ⟨follows.1, ⟨rfl, rfl, rfl⟩, rfl⟩

theorem legible_of_goesOn (h : actor.step now chance = .goesOn next) (hnow : now.Legible)
    (hrest : actor.rest.Legible) : next.rest.Legible := by
  obtain ⟨handle, queue, task, footing, rest, follows⟩ := actor
  cases rest <;> simp only [step, Step.goesOn.injEq, reduceCtorEq] at h <;> subst h
  · exact hrest
  · exact hrest chance
  · exact hrest now hnow

theorem legible_of_asks {call : Call} {hear : call.Answer → Actor} (h : actor.step now chance = .asks call hear)
    (hrest : actor.rest.Legible) :
    call.Legible ∧ ∀ answer, call.Shows answer → (hear answer).rest.Legible := by
  obtain ⟨handle, queue, task, footing, rest, follows⟩ := actor
  cases rest <;> simp only [step, Step.asks.injEq, reduceCtorEq] at h
  obtain ⟨rfl, heq⟩ := h
  obtain rfl := eq_of_heq heq
  exact hrest

theorem legible_of_tells {event : Event} (h : actor.step now chance = .tells event next)
    (hrest : actor.rest.Legible) : next.rest.Legible := by
  obtain ⟨handle, queue, task, footing, rest, follows⟩ := actor
  cases rest <;> simp only [step, Step.tells.injEq, reduceCtorEq] at h
  obtain ⟨rfl, rfl⟩ := h
  exact hrest

theorem footing_of_isBackingOff (h : actor.isBackingOff) : actor.footing = .lost := by
  obtain ⟨handle, queue, task, footing, rest, follows⟩ := actor
  cases rest with
  | wait delay next => exact follows.1
  | chance next => exact follows.1
  | _ => cases h

theorem ends_of_result? {result : Except UpdateError (Option Entry)} (h : actor.result? = some result) :
    actor.footing.Ends result := by
  obtain ⟨handle, queue, task, footing, rest, follows⟩ := actor
  cases rest with
  | done value =>
      obtain rfl := Option.some.inj h
      exact follows
  | _ => cases h

end Actor

-- Who makes a call: a party in the course of its task, or somebody else.
inductive Caller where
  | party (index : Nat) (task : Task)
  | other
deriving DecidableEq

-- A call that has been made, and the rig before and after it.
structure Deal where
  caller : Caller
  call : Call
  answer : call.Answer
  before : Rig
  after : Rig

namespace Deal

def isBy (index : Nat) (deal : Deal) : Bool :=
  match deal.caller with
  | .party other _ => other == index
  | .other => false

def won (deal : Deal) : Bool := deal.call.wins deal.answer

def lost (deal : Deal) : Bool := deal.call.loses deal.answer

end Deal

-- A rig, the parties in the order in which they came, all calls so far, and the events that an observer has
-- taken out of the queues.
structure Scene where
  rig : Rig
  actors : List Actor
  log : List Deal
  heard : List Event

-- What happens next: a party comes or takes a step, somebody else makes a call, an observer empties a
-- queue, or the weather of a store changes.
inductive Cue where
  | enter (handle : Handle) (queue : Option Nat) (policy : Policy) (task : Task)
  | step (index : Nat) (now : Instant) (chance : Chance) (drawn : UInt64)
  | call (handle : Handle) (now : Instant) (drawn : UInt64) (call : Call)
  | drain (queue : Nat)
  | weather (store : Nat) (outage : Option String) (latency : Span)

namespace Scene

def start (rig : Rig) : Scene := ⟨rig, [], [], []⟩

-- The deal that a call comes to. What comes in while the call takes its time comes before it.
def deal (clock : Clock) (scene : Scene) (caller : Caller) (handle : Handle) (now : Instant) (drawn : UInt64)
    (call : Call) : Deal :=
  let course := handle.perform ⟨clock, now⟩ drawn call scene.rig
  ⟨caller, call, course.value, scene.rig, course.state⟩

def take (scene : Scene) (deal : Deal) : Scene := { scene with rig := deal.after, log := scene.log ++ [deal] }

def put (scene : Scene) (index : Nat) (actor : Actor) : Scene :=
  { scene with actors := scene.actors.set index actor }

def play (clock : Clock) (scene : Scene) : Cue → Scene
  | .enter handle queue policy task => { scene with actors := scene.actors ++ [.start handle queue policy task] }
  | .step index now chance drawn =>
    match scene.actors[index]? with
    | none => scene
    | some actor =>
      match actor.step now chance with
      | .stays => scene
      | .goesOn next => scene.put index next
      | .asks call hear =>
        let deal := scene.deal clock (.party index actor.task) actor.handle now drawn call
        (scene.take deal).put index (hear deal.answer)
      | .tells event next => { scene.put index next with rig := (Rig.tell actor.queue event scene.rig).state }
  | .call handle now drawn call => scene.take (scene.deal clock .other handle now drawn call)
  | .drain queue =>
    { scene with
      rig := { scene.rig with queues := scene.rig.queues.set queue (scene.rig.queue queue).drain.2 }
      heard := scene.heard ++ (scene.rig.queue queue).drain.1 }
  | .weather store outage latency =>
    { scene with
      rig := { scene.rig with stores := scene.rig.stores.set store { scene.rig.store store with outage, latency } } }

def after (clock : Clock) (scene : Scene) : List Cue → Scene
  | [] => scene
  | cue :: rest => after clock (scene.play clock cue) rest

variable {scene : Scene} {actor next : Actor} {index i : Nat}

theorem mem_actors_put (h : (scene.put index next).actors[i]? = some actor) :
    (i = index ∧ actor = next) ∨ (i ≠ index ∧ scene.actors[i]? = some actor) := by
  simp only [put] at h
  by_cases hi : i = index
  · subst hi
    rw [List.getElem?_set_self'] at h
    obtain ⟨other, -, hother⟩ := Option.map_eq_some_iff.mp h
    exact Or.inl ⟨rfl, hother.symm⟩
  · rw [List.getElem?_set_ne (Ne.symm hi)] at h
    exact Or.inr ⟨hi, h⟩

theorem mem_actors_enter (h : (scene.actors ++ [next])[i]? = some actor) :
    scene.actors[i]? = some actor ∨ actor = next := by
  rw [List.getElem?_append] at h
  split at h
  · exact Or.inl h
  · exact Or.inr (List.mem_singleton.mp (List.mem_of_getElem? h))

-- The ways in which a step of a party can go.
inductive StepCourse (clock : Clock) (scene : Scene) (index : Nat) (now : Instant) (drawn : UInt64)
    (left : Scene) : Prop where
  | stays (left_eq : left = scene)
  | goesOn (actor next : Actor) (found : scene.actors[index]? = some actor) (alike : next.Alike actor)
      (footing : next.footing = actor.footing) (legible : now.Legible → actor.rest.Legible → next.rest.Legible)
      (left_eq : left = scene.put index next)
  | asks (actor next : Actor) (call : Call) (deal : Deal) (found : scene.actors[index]? = some actor)
      (deal_eq : deal = scene.deal clock (.party index actor.task) actor.handle now drawn call)
      (may : actor.task.May actor.footing.stage deal.call) (alike : next.Alike actor)
      (footing : next.footing = actor.footing.hear actor.task deal.call deal.answer)
      (legible : actor.rest.Legible → deal.call.Legible ∧ (deal.call.Shows deal.answer → next.rest.Legible))
      (left_eq : left = (scene.take deal).put index next)
  | tells (actor next : Actor) (event : Event) (found : scene.actors[index]? = some actor)
      (alike : next.Alike actor) (owes : actor.footing = .owes event) (footing : next.footing = .settled)
      (legible : actor.rest.Legible → next.rest.Legible)
      (left_eq : left = { scene.put index next with rig := (Rig.tell actor.queue event scene.rig).state })

theorem play_step (clock : Clock) (scene : Scene) (index : Nat) (now : Instant) (chance : Chance) (drawn : UInt64) :
    scene.StepCourse clock index now drawn (scene.play clock (.step index now chance drawn)) := by
  simp only [play]
  split
  · exact .stays rfl
  · next actor hfound =>
    cases hstep : actor.step now chance with
    | stays => exact .stays rfl
    | goesOn next =>
      obtain ⟨halike, hfooting⟩ := Actor.of_goesOn hstep
      exact .goesOn actor next hfound halike hfooting (Actor.legible_of_goesOn hstep) rfl
    | asks call hear =>
      obtain ⟨hmay, hhear⟩ := Actor.of_asks hstep
      obtain ⟨halike, hfooting⟩ := hhear (scene.deal clock (.party index actor.task) actor.handle now drawn call).answer
      exact .asks actor _ call _ hfound rfl hmay halike hfooting
        (fun hrest => (Actor.legible_of_asks hstep hrest).imp_right fun hhear => hhear _) rfl
    | tells event next =>
      obtain ⟨howes, halike, hfooting⟩ := Actor.of_tells hstep
      exact .tells actor next event hfound halike howes hfooting (Actor.legible_of_tells hstep) rfl

end Scene

end Muster.Updater
