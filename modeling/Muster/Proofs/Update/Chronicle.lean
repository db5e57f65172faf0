import Mathlib.Data.List.Perm.Basic
import Muster.Proofs.Rig.Handle
import Muster.Proofs.Update.Scene

-- Parties that work on one table in memory and tell one queue of it: the events are those of the writes
-- that won, one for each.
namespace Muster

namespace Rig

-- The table of a deployment in one of the stores.
def table (rig : Rig) (n : Nat) (deployment : String) : Deployment := (rig.store n).table deployment

def status? (rig : Rig) (n : Nat) (deployment : String) (silo : Silo) : Option Status :=
  ((rig.table n deployment).rows.get? silo.rowKey).map fun row => row.entry.status

-- The weather is no part of a table.
theorem table_weather (rig : Rig) (n store : Nat) (deployment : String) (outage : Option String) (latency : Span) :
    ({ rig with stores := rig.stores.set store { rig.store store with outage, latency } } : Rig).table n deployment =
      rig.table n deployment := by
  simp only [Rig.table, Rig.store, List.getElem?_set]
  split
  · next heq =>
    subst heq
    split
    · rfl
    · next hnone => rw [List.getElem?_eq_none (Nat.le_of_not_lt hnone)]
  · rfl

theorem queue_set {rig : Rig} {q : Nat} (h : q < rig.queues.length) (queue : EventQueue) :
    ({ rig with queues := rig.queues.set q queue } : Rig).queue q = queue := by
  rw [Rig.queue, List.getElem?_set_self h, Option.getD_some]

end Rig

-- A queue that has not dropped anything yet takes an event behind the others.
theorem EventQueue.enqueue_of_dropped {queue : EventQueue} {event : Event} (h : (queue.enqueue event).dropped = 0) :
    queue.dropped = 0 ∧ (queue.enqueue event).pending = queue.pending ++ [event] := by
  unfold enqueue at h ⊢
  split at h
  · next hroom =>
    rw [if_pos hroom]
    exact ⟨h, pending_push queue event⟩
  · dsimp only at h
    split at h
    · next hfull =>
      rw [hfull] at h
      exact absurd h (by decide)
    · next hfull =>
      have hnumber : queue.dropped.toNat ≠ UInt64.size - 1 := fun heq => hfull (UInt64.toNat_inj.mp heq)
      have hzero := congrArg UInt64.toNat h
      have hlt := queue.dropped.toNat_lt
      rw [UInt64.toNat_add, UInt64.toNat_one, UInt64.toNat_zero] at hzero
      simp only [UInt64.size] at hnumber
      omega

namespace Updater

variable {n q : Nat} {deployment : String} {task : Task} {footing : Footing} {deal : Deal} {index : Nat}

-- The event that others have to hear of when a party has won a write. A change of status is told as the
-- table has it, before the write and after.
def Deal.news? (n : Nat) (deployment : String) (deal : Deal) : Option Event :=
  match deal.caller, deal.call, deal.won with
  | .party _ _, .insertRow entry _, true => some (.siloRegistered entry.silo)
  | .party _ (.suspect silo suspicion), .updateRow _ _ _, true => some (.suspicionRecorded silo suspicion.voter)
  | .party _ (.moveTo silo _), .updateRow _ _ _, true =>
    match deal.before.status? n deployment silo, deal.after.status? n deployment silo with
    | some source, some target => some (.statusChanged silo source target)
    | _, _ => none
  | _, _, _ => none

-- There is nothing to tell of a call that wins no write.
theorem Deal.won_of_news? (h : (deal.news? n deployment).isSome) : deal.won = true := by
  cases hwon : deal.won with
  | true => rfl
  | false => simp [Deal.news?, hwon] at h

theorem event?_owing (event : Option Event) : (Footing.owing event).event? = event := by
  cases event <;> rfl

-- A revision that wins replaces the row that it was decided on, alive times apart.
theorem statuses_of_won {before after : Rig} {snapshot : Snapshot} {row : Row} {entry : Entry} {silo : Silo}
    (hrecalls : (before.table n deployment).Recalls silo snapshot) (hfound : snapshot.rowFor? silo = some row)
    (hentry : entry.silo = silo)
    (heffect : (Call.updateRow entry row.etag snapshot.version).Effect true (before.table n deployment)
      (after.table n deployment)) :
    before.status? n deployment silo = some row.entry.status ∧
    after.status? n deployment silo = some entry.status := by
  cases heffect with
  | write _ written stamp hwrite hversion hafter =>
    obtain ⟨rfl, rfl⟩ := Prod.mk.inj (Option.some.inj hwrite)
    obtain ⟨stored, hstored, hstill⟩ := hrecalls.row hversion row hfound
    constructor
    · rw [Rig.status?, hstored, Option.map_some, Row.status_eq_of_still hstill]
    · rw [Rig.status?, hafter, Deployment.get?_commit, if_pos (by rw [hentry]), Option.map_some]
  | still hwon => cases hwon
  | stamp hwon => cases hwon
  | delete hwon => cases hwon

theorem owing_ne_read (event : Option Event) (snapshot : Snapshot) : Footing.owing event ≠ .read snapshot := by
  cases event <;> exact nofun

theorem event?_of_may {call : Call} (h : task.May footing.stage call) : footing.event? = none := by
  cases footing with
  | owes event => exact absurd rfl (h.ne_written none)
  | _ => rfl

-- What a party owes after a deal of its own is what the deal gives to tell, and a write that has won gives
-- something.
theorem event?_hear (hcaller : deal.caller = .party index task) (hmay : task.May footing.stage deal.call)
    (hrecalls : ∀ snapshot, footing = .read snapshot →
      (deal.before.table n deployment).Recalls task.silo snapshot)
    (heffect : deal.call.Effect deal.won (deal.before.table n deployment) (deal.after.table n deployment)) :
    (footing.hear task deal.call deal.answer).event? = deal.news? n deployment ∧
    (deal.won = true → (deal.news? n deployment).isSome) := by
  obtain ⟨caller, call, answer, before, after⟩ := deal
  dsimp only at hcaller hmay hrecalls heffect ⊢
  subst hcaller
  generalize hstage : footing.stage = stage at hmay
  cases hmay with
  | look => cases answer <;> cases footing <;> exact ⟨rfl, fun hwon => by cases hwon⟩
  | insert entry snapshot htask hfree =>
    obtain rfl := Footing.read_of_stage hstage
    subst htask
    obtain fault | _ | _ := answer
    · exact ⟨rfl, fun hwon => by cases hwon⟩
    · exact ⟨rfl, fun hwon => by cases hwon⟩
    · exact ⟨rfl, fun _ => rfl⟩
  | revise row entry snapshot hfound hrevises =>
    obtain rfl := Footing.read_of_stage hstage
    obtain fault | _ | _ := answer
    · exact ⟨by cases task <;> rfl, fun hwon => by cases hwon⟩
    · exact ⟨by cases task <;> rfl, fun hwon => by cases hwon⟩
    · have hsilo : entry.silo = task.silo := (Task.May.revise row entry snapshot hfound hrevises).silo_of_write? rfl
      obtain ⟨hbefore, hafter⟩ := statuses_of_won (hrecalls snapshot rfl) hfound hsilo heffect
      cases task with
      | moveTo silo status =>
        obtain ⟨-, now, rfl⟩ := hrevises
        simp only [Task.silo] at hbefore hafter hfound
        simp only [Deal.news?, Deal.won, Call.wins, hbefore, hafter, Footing.hear, event?_owing, Task.news?, hfound]
        exact ⟨rfl, fun _ => rfl⟩
      | suspect silo suspicion => exact ⟨rfl, fun _ => rfl⟩
      | insert entry => cases hrevises
      | heartbeat entry aliveTime => cases hrevises
  | beat entry aliveTime htask => cases answer <;> cases footing <;> exact ⟨rfl, fun hwon => by cases hwon⟩

-- The parties have their table in memory, publish to one queue, and have the table to themselves. Observers
-- may empty the queue, and the weather may do what it likes.
def Cue.Local (n q : Nat) (deployment : String) : Cue → Prop
  | enter handle queue _ _ => handle.base = .memory n deployment ∧ queue = some q
  | step _ _ _ _ => True
  | call _ _ _ _ => False
  | drain queue => queue = q
  | weather _ _ _ => True

theorem count_filterMap_set {α : Type} {f : α → Option Event} {items : List α} {a : α} (h : items[index]? = some a)
    (b : α) (event : Event) :
    ((items.set index b).filterMap f).count event + (f a).toList.count event =
      (items.filterMap f).count event + (f b).toList.count event := by
  induction items generalizing index with
  | nil => cases h
  | cons head rest ih =>
    cases index with
    | zero =>
      obtain rfl := Option.some.inj h
      rw [List.set_cons_zero]
      cases hhead : f head <;> cases hb : f b <;> simp only [List.filterMap_cons, hhead, hb, Option.toList_none,
        Option.toList_some, List.count_cons, List.count_nil] <;> omega
    | succ index =>
      have hrest := ih h
      rw [List.set_cons_succ]
      cases hhead : f head <;> simp only [List.filterMap_cons, hhead, List.count_cons] <;> omega

theorem count_filterMap_concat {α : Type} (f : α → Option Event) (items : List α) (last : α) (event : Event) :
    ((items ++ [last]).filterMap f).count event = (items.filterMap f).count event + (f last).toList.count event := by
  rw [List.filterMap_append, List.count_append]
  cases hlast : f last <;> simp [hlast]

namespace Scene

variable {clock : Clock} {scene : Scene} {actor next : Actor} {caller : Caller} {handle : Handle} {now : Instant}
  {drawn : UInt64} {call : Call} {cue : Cue}

-- What the parties still have to tell.
def owed (scene : Scene) : List Event := scene.actors.filterMap fun actor => actor.footing.event?

theorem count_owed_put (hfound : scene.actors[index]? = some actor) (next : Actor) (event : Event) :
    (scene.put index next).owed.count event + actor.footing.event?.toList.count event =
      scene.owed.count event + next.footing.event?.toList.count event :=
  count_filterMap_set hfound next event

theorem log_play (clock : Clock) (scene : Scene) (cue : Cue) : scene.log <+: (scene.play clock cue).log := by
  cases cue with
  | step index now chance drawn =>
    cases play_step clock scene index now chance drawn with
    | stays heq => exact ⟨[], by rw [heq, List.append_nil]⟩
    | goesOn _ _ _ _ _ _ heq => exact ⟨[], by rw [heq, put, List.append_nil]⟩
    | tells _ _ _ _ _ _ _ _ heq => exact ⟨[], by rw [heq, put, List.append_nil]⟩
    | asks _ _ _ deal _ _ _ _ _ _ heq => exact ⟨[deal], by rw [heq, put, take]⟩
  | call handle now drawn call => exact List.prefix_append _ _
  | _ => exact List.prefix_rfl

-- What has been logged stays logged.
theorem log_after (clock : Clock) (scene : Scene) (cues : List Cue) : scene.log <+: (scene.after clock cues).log := by
  induction cues generalizing scene with
  | nil => exact List.prefix_rfl
  | cons cue rest ih => exact (log_play clock scene cue).trans (ih _)

-- A deal on the table in memory: it has its effect or fails, and leaves the queues alone.
structure Strikes (n : Nat) (deployment : String) (drawn : UInt64) (rig : Rig) (deal : Deal) : Prop where
  answer : (∃ fault, deal.answer = .error fault) ∨
    deal.answer = ((rig.table n deployment).answer drawn deal.call).1
  effect : deal.call.Effect deal.won (rig.table n deployment) (deal.after.table n deployment)
  queues : deal.after.queues = rig.queues
  stores : deal.after.stores.length = rig.stores.length

-- A party's deal is no more than a heartbeat to the table, or a write that has won.
theorem Strikes.effect_cases {rig : Rig} {stage : Stage} (h : Strikes n deployment drawn rig deal)
    (hmay : task.May stage deal.call) :
    (deal.won = false ∧ (deal.after.table n deployment).still = (rig.table n deployment).still) ∨
    (deal.won = true ∧ ∃ entry stamp, deal.after.table n deployment = (rig.table n deployment).commit entry stamp) := by
  cases h.effect with
  | still hwon hstill => exact Or.inl ⟨hwon, hstill⟩
  | write hwon entry stamp _ _ hafter => exact Or.inr ⟨hwon, entry, stamp, hafter⟩
  | stamp _ hcall =>
    rw [hcall] at hmay
    cases hmay
  | delete _ hcall =>
    rw [hcall] at hmay
    cases hmay

-- Two stamps go with each write that wins, and what has been read is recalled as long as they do not run out.
theorem Strikes.table_kept {rig : Rig} {stage : Stage} {log : List Deal} (h : Strikes n deployment drawn rig deal)
    (hmay : task.May stage deal.call) (hstamped : (rig.table n deployment).Stamped)
    (hsequence : (rig.table n deployment).sequence.toNat = 1 + 2 * log.countP Deal.won)
    (hfew : (log ++ [deal]).countP Deal.won < 2 ^ 63) :
    (deal.after.table n deployment).Stamped ∧
    (deal.after.table n deployment).sequence.toNat = 1 + 2 * (log ++ [deal]).countP Deal.won ∧
    ∀ silo snapshot, (rig.table n deployment).Recalls silo snapshot →
      (deal.after.table n deployment).Recalls silo snapshot := by
  have hcount : (log ++ [deal]).countP Deal.won = log.countP Deal.won + if deal.won then 1 else 0 := by
    rw [List.countP_append, List.countP_singleton]
  obtain ⟨hwon, hstill⟩ | ⟨hwon, entry, stamp, hafter⟩ := h.effect_cases hmay
  · rw [hwon] at hcount
    refine ⟨hstamped.of_still hstill, ?_, fun _ _ hrecalls => hrecalls.of_still hstill⟩
    rw [Deployment.sequence_eq_of_still hstill, hcount, hsequence]
    rfl
  · rw [hwon, if_pos rfl] at hcount
    have hroom : (rig.table n deployment).sequence.toNat + 2 < 2 ^ 64 := by omega
    rw [hafter]
    refine ⟨Deployment.stamped_commit _ entry stamp, ?_, fun _ _ hrecalls => hrecalls.commit entry stamp hroom⟩
    rw [Deployment.sequence_commit entry stamp hroom, hcount]
    omega

theorem Strikes.recalls {rig : Rig} {snapshot : Snapshot} (h : Strikes n deployment drawn rig deal)
    (hstamped : (rig.table n deployment).Stamped) (hmay : task.May footing.stage deal.call)
    (hread : footing.hear task deal.call deal.answer = .read snapshot) :
    (rig.table n deployment).Recalls task.silo snapshot := by
  obtain ⟨hanswer, -⟩ := h
  obtain ⟨caller, call, answer, before, after⟩ := deal
  dsimp only at hanswer hmay hread
  unfold Footing.hear at hread
  split at hread
  · next silo shown =>
    obtain rfl := Footing.read.inj hread
    obtain rfl := hmay.of_readRow
    obtain ⟨fault, hfault⟩ | hanswer := hanswer
    · cases hfault
    · exact Deployment.recalls_of_readRow hstamped hanswer.symm
  · exact absurd hread (owing_ne_read _ _)
  · exact absurd hread (owing_ne_read _ _)
  all_goals cases hread

theorem deal_strikes (hbase : handle.base = .memory n deployment) (hn : n < scene.rig.stores.length) :
    Strikes n deployment drawn scene.rig (scene.deal clock caller handle now drawn call) := by
  obtain ⟨store, hcomes, hstate⟩ := (handle.perform_memory hbase ⟨clock, now⟩ drawn call scene.rig).ends_of
  have hafter : (scene.deal clock caller handle now drawn call).after = scene.rig.putStore n store := hstate
  have htable : (scene.deal clock caller handle now drawn call).after.table n deployment = store.table deployment := by
    rw [hafter, Rig.table, Rig.store_putStore _ _ hn]
  refine ⟨?_, ?_, ?_, ?_⟩
  · obtain ⟨hfault, -⟩ | ⟨hvalue, -⟩ := hcomes
    · exact Or.inl hfault
    · exact Or.inr (hvalue.trans (Store.answer_effect ..).1)
  · rw [htable]
    obtain ⟨⟨fault, hfault⟩, rfl⟩ | ⟨hvalue, rfl⟩ := hcomes
    · refine .still ?_ rfl
      rw [Deal.won, Scene.deal, hfault]
      cases call <;> rfl
    · rw [Deal.won, Scene.deal, hvalue]
      exact (Store.answer_effect ..).2
  · rw [hafter, Rig.queues_putStore]
  · rw [hafter, Rig.length_stores_putStore]

structure Kept (n q : Nat) (deployment : String) (scene : Scene) : Prop where
  stores : n < scene.rig.stores.length
  queues : q < scene.rig.queues.length
  stamped : (scene.rig.table n deployment).Stamped
  sequence : (scene.rig.table n deployment).sequence.toNat = 1 + 2 * scene.log.countP Deal.won
  access : ∀ (index : Nat) (actor : Actor), scene.actors[index]? = some actor →
    actor.handle.base = .memory n deployment ∧ actor.queue = some q
  recalls : ∀ (index : Nat) (actor : Actor) snapshot, scene.actors[index]? = some actor →
    actor.footing = .read snapshot → (scene.rig.table n deployment).Recalls actor.task.silo snapshot
  told : (scene.rig.queue q).dropped = 0 →
    (scene.heard ++ (scene.rig.queue q).pending ++ scene.owed).Perm (scene.log.filterMap (Deal.news? n deployment))
  named : ∀ deal ∈ scene.log, deal.won = true → (deal.news? n deployment).isSome

variable {event : Event}

theorem access_put (haccess : ∀ (index : Nat) (actor : Actor), scene.actors[index]? = some actor →
      actor.handle.base = .memory n deployment ∧ actor.queue = some q)
    (hfound : scene.actors[index]? = some actor) (halike : next.Alike actor) (i : Nat) (other : Actor)
    (hother : (scene.put index next).actors[i]? = some other) :
    other.handle.base = .memory n deployment ∧ other.queue = some q := by
  obtain ⟨rfl, rfl⟩ | ⟨-, hother⟩ := mem_actors_put hother
  · rw [halike.handle, halike.queue]
    exact haccess i actor hfound
  · exact haccess i other hother

theorem Kept.goesOn (h : scene.Kept n q deployment) (hfound : scene.actors[index]? = some actor)
    (halike : next.Alike actor) (hfooting : next.footing = actor.footing) :
    (scene.put index next).Kept n q deployment where
  stores := h.stores
  queues := h.queues
  stamped := h.stamped
  sequence := h.sequence
  named := h.named
  access := access_put h.access hfound halike
  recalls i other snapshot hother hread := by
    obtain ⟨rfl, rfl⟩ | ⟨-, hother⟩ := mem_actors_put hother
    · rw [halike.task]
      exact h.recalls i actor snapshot hfound (hfooting ▸ hread)
    · exact h.recalls i other snapshot hother hread
  told hdropped := by
    have htold := List.perm_iff_count.mp (h.told hdropped)
    rw [List.perm_iff_count]
    intro event
    have howed := count_owed_put hfound next event
    have hevent := htold event
    rw [hfooting] at howed
    simp only [List.count_append] at hevent ⊢
    simp only [put] at howed ⊢
    omega

-- What a party has told it no longer owes.
theorem Kept.tells (h : scene.Kept n q deployment) (hfound : scene.actors[index]? = some actor)
    (halike : next.Alike actor) (howes : actor.footing = .owes event) (hfooting : next.footing = .settled) :
    ({ scene.put index next with rig := (Rig.tell (some q) event scene.rig).state } : Scene).Kept n q deployment where
  stores := h.stores
  queues := Nat.lt_of_lt_of_eq h.queues List.length_set.symm
  stamped := h.stamped
  sequence := h.sequence
  named := h.named
  access := access_put h.access hfound halike
  recalls i other snapshot hother hread := by
    obtain ⟨rfl, rfl⟩ | ⟨-, hother⟩ := mem_actors_put hother
    · rw [hfooting] at hread
      cases hread
    · exact h.recalls i other snapshot hother hread
  told hdropped := by
    have hqueue : (Rig.tell (some q) event scene.rig).state.queue q = (scene.rig.queue q).enqueue event :=
      Rig.queue_set h.queues _
    simp only [hqueue] at hdropped ⊢
    obtain ⟨hbefore, hpending⟩ := EventQueue.enqueue_of_dropped hdropped
    have htold := List.perm_iff_count.mp (h.told hbefore)
    rw [List.perm_iff_count, hpending]
    intro other
    have howed := count_owed_put hfound next other
    have hother := htold other
    simp only [howes, hfooting, Footing.event?, Option.toList_some, Option.toList_none, List.count_nil] at howed
    simp only [List.count_append] at hother ⊢
    simp only [put, owed] at howed hother ⊢
    omega

-- A deal leaves a party owing what the deal gives to tell.
theorem Kept.asks (h : scene.Kept n q deployment) (hfound : scene.actors[index]? = some actor)
    (halike : next.Alike actor) (hdeal : deal.caller = .party index actor.task) (hbefore : deal.before = scene.rig)
    (hmay : actor.task.May actor.footing.stage deal.call)
    (hfooting : next.footing = actor.footing.hear actor.task deal.call deal.answer)
    (hstrikes : Strikes n deployment drawn scene.rig deal)
    (hfew : (scene.log ++ [deal]).countP Deal.won < 2 ^ 63) :
    ((scene.take deal).put index next).Kept n q deployment := by
  obtain ⟨hstamped, hnumber, hrecalls⟩ := hstrikes.table_kept hmay h.stamped h.sequence hfew
  obtain ⟨hevent, hnamed⟩ := event?_hear hdeal hmay
    (fun snapshot hread => hbefore ▸ h.recalls index actor snapshot hfound hread) (hbefore ▸ hstrikes.effect)
  refine ⟨?_, ?_, hstamped, hnumber, access_put h.access hfound halike, ?_, ?_, ?_⟩
  · exact hstrikes.stores ▸ h.stores
  · exact hstrikes.queues ▸ h.queues
  · intro i other snapshot hother hread
    apply hrecalls
    obtain ⟨rfl, rfl⟩ | ⟨-, hother⟩ := mem_actors_put hother
    · rw [halike.task]
      exact hstrikes.recalls h.stamped hmay (hfooting ▸ hread)
    · exact h.recalls i other snapshot hother hread
  · intro hdropped
    have hqueue : deal.after.queue q = scene.rig.queue q := by rw [Rig.queue, hstrikes.queues, Rig.queue]
    have htold := List.perm_iff_count.mp (h.told (hqueue ▸ hdropped))
    rw [List.perm_iff_count]
    intro event
    have howed := count_owed_put hfound next event
    have hbefore := htold event
    have hlog := count_filterMap_concat (Deal.news? n deployment) scene.log deal event
    rw [event?_of_may hmay, hfooting, hevent, Option.toList_none, List.count_nil] at howed
    simp only [List.count_append] at hbefore ⊢
    simp only [put, take, owed, hqueue, hlog] at howed hbefore ⊢
    omega
  · intro other hother
    rcases List.mem_append.mp hother with hother | hother
    · exact h.named other hother
    · exact List.mem_singleton.mp hother ▸ hnamed

theorem Kept.drain (h : scene.Kept n q deployment) : (scene.play clock (.drain q)).Kept n q deployment where
  stores := h.stores
  queues := Nat.lt_of_lt_of_eq h.queues List.length_set.symm
  stamped := h.stamped
  sequence := h.sequence
  access := h.access
  recalls := h.recalls
  named := h.named
  told hdropped := by
    have hqueue : (scene.play clock (.drain q)).rig.queue q = (scene.rig.queue q).drain.2 := Rig.queue_set h.queues _
    rw [hqueue] at hdropped ⊢
    have htold := h.told hdropped
    simp only [play, EventQueue.drain, EventQueue.pending, List.reverse_nil, List.append_nil] at htold ⊢
    exact htold

theorem Kept.play (h : scene.Kept n q deployment) (hcue : cue.Local n q deployment)
    (hfew : (scene.play clock cue).log.countP Deal.won < 2 ^ 63) : (scene.play clock cue).Kept n q deployment := by
  cases cue with
  | enter handle queue policy task =>
    refine ⟨h.stores, h.queues, h.stamped, h.sequence, ?_, ?_, ?_, h.named⟩
    · intro index actor hactor
      rcases mem_actors_enter hactor with hactor | rfl
      · exact h.access index actor hactor
      · exact hcue
    · intro index actor snapshot hactor hread
      rcases mem_actors_enter hactor with hactor | rfl
      · exact h.recalls index actor snapshot hactor hread
      · cases hread
    · intro hdropped
      have howed : (scene.play clock (.enter handle queue policy task)).owed = scene.owed := by
        rw [owed, Scene.play, List.filterMap_append]
        exact List.append_nil _
      rw [howed]
      exact h.told hdropped
  | step index now chance drawn =>
    cases play_step clock scene index now chance drawn with
    | stays heq =>
      rw [heq]
      exact h
    | goesOn actor next hfound halike hfooting _ heq =>
      rw [heq]
      exact h.goesOn hfound halike hfooting
    | tells actor next event hfound halike howes hfooting _ heq =>
      rw [heq, (h.access index actor hfound).2]
      exact h.tells hfound halike howes hfooting
    | asks actor next call deal hfound hdeal hmay halike hfooting _ heq =>
      subst hdeal
      rw [heq] at hfew ⊢
      exact h.asks hfound halike rfl rfl hmay hfooting (deal_strikes (h.access index actor hfound).1 h.stores) hfew
  | call handle now drawn call => exact hcue.elim
  | drain queue =>
    obtain rfl : queue = q := hcue
    exact h.drain
  | weather store outage latency =>
    have htable := Rig.table_weather scene.rig n store deployment outage latency
    refine ⟨Nat.lt_of_lt_of_eq h.stores List.length_set.symm, h.queues, ?_, ?_, h.access, ?_, h.told, h.named⟩
    · exact htable.symm ▸ h.stamped
    · exact htable.symm ▸ h.sequence
    · exact htable.symm ▸ h.recalls

theorem Kept.after (h : scene.Kept n q deployment) {cues : List Cue} (hcues : ∀ cue ∈ cues, cue.Local n q deployment)
    (hfew : (scene.after clock cues).log.countP Deal.won < 2 ^ 63) :
    (scene.after clock cues).Kept n q deployment := by
  induction cues generalizing scene with
  | nil => exact h
  | cons cue rest ih =>
    obtain ⟨hcue, hrest⟩ := List.forall_mem_cons.mp hcues
    have hle := (log_after clock (scene.play clock cue) rest).sublist.countP_le (p := Deal.won)
    exact ih (h.play hcue (Nat.lt_of_le_of_lt hle hfew)) hrest hfew

theorem kept_start {rig : Rig} {store : Store} {capacity : Nat} (hstore : rig.stores[n]? = some store)
    (hfresh : store.table deployment = ((Deployment.new deployment).establish drawn).2)
    (hqueue : rig.queues[q]? = some (.ofCapacity capacity)) : (start rig).Kept n q deployment := by
  have htable : rig.table n deployment = ((Deployment.new deployment).establish drawn).2 := by
    rw [Rig.table, Rig.store, hstore, Option.getD_some, hfresh]
  refine ⟨(List.getElem?_eq_some_iff.mp hstore).1, (List.getElem?_eq_some_iff.mp hqueue).1, ?_, ?_, ?_, ?_, ?_, ?_⟩
  · intro stamp hstamp
    simp only [start, htable] at hstamp ⊢
    rw [← Option.some.inj hstamp]
    rfl
  · simp only [start, htable]
    rfl
  · intro _ _ hactor
    cases hactor
  · intro _ _ _ hactor
    cases hactor
  · intro _
    simp only [start, Rig.queue, hqueue, Option.getD_some]
    exact List.Perm.refl []
  · intro _ hdeal
    cases hdeal

end Scene

-- The events are the writes that have won: once all parties are done and the queue has dropped nothing, what
-- has been heard and what still waits is, event for event, what the won writes give to tell, one for each.
theorem events_tell_won_writes (clock : Clock) (n q : Nat) (deployment : String) (drawn : UInt64) (capacity : Nat)
    (rig : Rig) (store : Store) (hstore : rig.stores[n]? = some store)
    (hfresh : store.table deployment = ((Deployment.new deployment).establish drawn).2)
    (hqueue : rig.queues[q]? = some (.ofCapacity capacity)) (cues : List Cue)
    (hcues : ∀ cue ∈ cues, cue.Local n q deployment) :
    let scene := (Scene.start rig).after clock cues
    (∀ actor ∈ scene.actors, actor.result?.isSome) → scene.log.countP Deal.won < 2 ^ 63 →
    (scene.rig.queue q).dropped = 0 →
    (scene.heard ++ (scene.rig.queue q).pending).Perm (scene.log.filterMap (Deal.news? n deployment)) ∧
    ∀ deal ∈ scene.log, (deal.news? n deployment).isSome = deal.won := by
  intro scene hdone hfew hdropped
  have hkept : scene.Kept n q deployment := (Scene.kept_start hstore hfresh hqueue).after hcues hfew
  have hnone : scene.owed = [] := by
    rw [Scene.owed, List.filterMap_eq_nil_iff]
    intro actor hactor
    obtain ⟨result, hresult⟩ := Option.isSome_iff_exists.mp (hdone actor hactor)
    exact (Actor.ends_of_result? hresult).told
  have htold := hkept.told hdropped
  rw [hnone, List.append_nil] at htold
  refine ⟨htold, fun deal hdeal => ?_⟩
  exact Bool.eq_iff_iff.mpr ⟨Deal.won_of_news?, hkept.named deal hdeal⟩

-- A silo signs on, and two others move it on at once: one write wins, the other party finds the work done.
-- A suspicion is raised during an outage and comes to nothing.
def bustle : List Cue :=
  let a := Entry.fresh (.onLoopback 11111 1) "a" .epoch
  let b : Silo := .onLoopback 11112 1
  let handle : Handle := .memory 0 "d"
  let step (index : Nat) : Cue := .step index .epoch .never 8
  [.enter handle (some 0) .standard (.insert a), step 0, step 0, step 0,
    .enter (.deadline handle (.ofSeconds 1)) (some 0) .standard (.moveTo a.silo .active),
    .enter handle (some 0) .standard (.moveTo a.silo .active), step 1, step 1, step 2, step 2, step 1, step 1,
    .drain 0, step 2, step 2, step 2, step 2, step 2, .weather 0 (some "maintenance") (.ofSeconds 2),
    .enter handle (some 0) .standard (.suspect a.silo ⟨b, .epoch⟩), step 3,
    .weather 0 none .zero, .enter handle (some 0) .standard (.suspect a.silo ⟨b, .epoch⟩), step 4, step 4, step 4,
    step 4]

theorem events_tell_won_writes_bustle :
    let store : Store := { Store.empty with tables := [((Deployment.new "d").establish 7).2] }
    let rig : Rig := { Rig.empty with stores := [store], queues := [.ofCapacity 8] }
    let scene := (Scene.start rig).after .millis bustle
    let a : Silo := .onLoopback 11111 1
    store.table "d" = ((Deployment.new "d").establish 7).2 ∧ (∀ cue ∈ bustle, cue.Local 0 0 "d") ∧
    (∀ actor ∈ scene.actors, actor.result?.isSome) ∧ scene.log.countP Deal.won < 2 ^ 63 ∧
    (scene.rig.queue 0).dropped = 0 ∧
    scene.log.filterMap (Deal.news? 0 "d") = [.siloRegistered a, .statusChanged a .created .active,
      .suspicionRecorded a (.onLoopback 11112 1)] ∧
    (scene.heard ++ (scene.rig.queue 0).pending).Perm (scene.log.filterMap (Deal.news? 0 "d")) := by
  intro store rig scene a
  have hfresh : store.table "d" = ((Deployment.new "d").establish 7).2 := by decide +kernel
  have hcues : ∀ cue ∈ bustle, cue.Local 0 0 "d" := by
    simp [bustle, Cue.Local, Handle.base]
  have hdone : ∀ actor ∈ scene.actors, actor.result?.isSome := by decide +kernel
  have hfew : scene.log.countP Deal.won < 2 ^ 63 := by decide +kernel
  have hdropped : (scene.rig.queue 0).dropped = 0 := by decide +kernel
  have hnews : scene.log.filterMap (Deal.news? 0 "d") = [.siloRegistered a, .statusChanged a .created .active,
      .suspicionRecorded a (.onLoopback 11112 1)] := by decide +kernel
  exact ⟨hfresh, hcues, hdone, hfew, hdropped, hnews,
    (events_tell_won_writes .millis 0 0 "d" 7 8 rig store rfl hfresh rfl bustle hcues hdone hfew hdropped).1⟩

end Updater
end Muster
