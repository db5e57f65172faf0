import Mathlib.Data.List.Forall2
import Muster.Proofs.Update.AliveTime
import Muster.Proofs.Update.Contention
import Muster.Proofs.Update.History

-- Parties that reach a table by handles, with their deadlines, their queues and their files, do what parties do that
-- stand at the table itself: a scene in which nobody else calls is a world. What is known of worlds holds behind
-- handles too.
namespace Muster.Updater

-- The party at the table, without its way there.
def Actor.party (actor : Actor) : Party := ⟨actor.task, actor.rest⟩

-- What a cue is at the table.
def Cue.moves : Cue → List Move
  | enter _ _ policy task => [.enter task policy]
  | step index now chance drawn => [.step index now chance drawn]
  | _ => []

-- Only the parties call, by deadlines that leave enough time, and files are given what they can give back.
def Cue.Closed (clock : Clock) (backend : Handle) (latency : Span) : Cue → Prop
  | enter handle _ _ task => Access clock backend latency handle ∧ (backend.Filed → task.Legible)
  | step _ now _ _ => backend.Filed → now.Legible
  | call _ _ _ _ => False
  | drain _ => True
  | weather _ _ _ => False

-- A deal is a call at the table: the same party, call and answer, between rigs that show the tables.
structure Deal.Is (clock : Clock) (backend : Handle) (latency : Span) (deal : Deal) (exchange : Exchange) : Prop where
  caller : deal.caller = .party exchange.party exchange.task
  call : Sigma.mk deal.call deal.answer = ⟨exchange.call, exchange.answer⟩
  before : backend.Shows clock latency deal.before exchange.before
  after : backend.Shows clock latency deal.after exchange.after

section
variable {clock : Clock} {backend : Handle} {latency : Span} {deal : Deal} {exchange : Exchange}

theorem Deal.Is.won_eq (h : deal.Is clock backend latency exchange) : deal.won = exchange.won :=
  congrArg (fun pair : (call : Call) × call.Answer => pair.1.wins pair.2) h.call

theorem Deal.Is.call_eq (h : deal.Is clock backend latency exchange) : deal.call = exchange.call :=
  congrArg Sigma.fst h.call

theorem Deal.Is.isBy_iff (h : deal.Is clock backend latency exchange) (index : Nat) :
    deal.isBy index = true ↔ exchange.party = index := by
  rw [Deal.isBy, h.caller]
  exact beq_iff_eq

-- A step at the table is the step of the party behind its handle.
theorem World.move_step (world : World) {index : Nat} {actor : Actor}
    (h : world.parties[index]? = some actor.party) (now : Instant) (chance : Chance) (drawn : UInt64) :
    world.move (.step index now chance drawn) =
      match actor.step now chance with
      | .stays => world
      | .goesOn next => world.goOn index actor.party next.rest
      | .asks call hear =>
        let exchange : Exchange := ⟨index, actor.task, drawn, call, world.table⟩
        (world.take exchange).goOn index actor.party (hear exchange.answer).rest
      | .tells event next => { world.goOn index actor.party next.rest with told := world.told ++ [event] } := by
  obtain ⟨handle, queue, task, footing, rest, follows⟩ := actor
  cases rest <;> simp only [World.move, h, Actor.party, Actor.step]

theorem Task.May.ne_delete {task : Task} {stage : Stage} {call : Call} (h : task.May stage call) (other : String) :
    call ≠ .delete other := by
  cases h <;> nofun

end

-- Two lists of the same make: what stands anywhere in one of them stands across from something in the other.
theorem exists_across {α β : Type} {r : α → β → Prop} {as : List α} {past later : List β} {b : β}
    (h : List.Forall₂ r as (past ++ b :: later)) :
    ∃ before a after, as = before ++ a :: after ∧ r a b ∧ List.Forall₂ r before past ∧ List.Forall₂ r after later := by
  induction past generalizing as with
  | nil =>
    obtain ⟨a, after, ha, hafter, rfl⟩ := List.forall₂_cons_right_iff.mp h
    exact ⟨[], a, after, rfl, ha, .nil, hafter⟩
  | cons first past ih =>
    obtain ⟨a, rest, ha, hrest, rfl⟩ := List.forall₂_cons_right_iff.mp h
    obtain ⟨before, last, after, rfl, hlast, hpast, hafter⟩ := ih hrest
    exact ⟨a :: before, last, after, rfl, hlast, hpast.cons ha, hafter⟩

namespace Scene

variable {clock : Clock} {backend : Handle} {latency : Span} {scene : Scene} {world : World} {actor next : Actor}
  {index : Nat} {cue : Cue} {rig : Rig} {table : Deployment} {cues : List Cue}

-- The scene is the world behind the handles.
structure Acts (clock : Clock) (backend : Handle) (latency : Span) (scene : Scene) (world : World) : Prop where
  shows : backend.Shows clock latency scene.rig world.table
  parties : world.parties = scene.actors.map Actor.party
  log : List.Forall₂ (Deal.Is clock backend latency) scene.log world.log
  access : ∀ actor ∈ scene.actors, Access clock backend latency actor.handle ∧ (backend.Filed → actor.rest.Legible)

theorem Acts.party (h : scene.Acts clock backend latency world) (hfound : scene.actors[index]? = some actor) :
    world.parties[index]? = some actor.party := by
  rw [h.parties, List.getElem?_map, hfound, Option.map_some]

theorem Acts.put (h : scene.Acts clock backend latency world) (hfound : scene.actors[index]? = some actor)
    (halike : next.Alike actor) (hlegible : backend.Filed → next.rest.Legible) :
    (scene.put index next).Acts clock backend latency (world.goOn index actor.party next.rest) where
  shows := h.shows
  log := h.log
  parties := by
    have hparty : next.party = { actor.party with rest := next.rest } := by
      simp only [Actor.party, halike.task]
    rw [World.goOn, Scene.put, h.parties, List.map_set, hparty]
  access other hother := by
    rcases List.mem_or_eq_of_mem_set hother with hother | rfl
    · exact h.access other hother
    · rw [halike.handle]
      exact ⟨(h.access actor (List.mem_of_getElem? hfound)).1, hlegible⟩

theorem Acts.with_queues (h : scene.Acts clock backend latency world) (queues : List EventQueue)
    (heard told : List Event) :
    ({ scene with rig := { scene.rig with queues }, heard } : Scene).Acts clock backend latency { world with told } :=
  ⟨h.shows.queues queues, h.parties, h.log, h.access⟩

-- A call through the handle is the call at the table.
theorem Acts.take (h : scene.Acts clock backend latency world) (hfound : scene.actors[index]? = some actor)
    {call : Call} (now : Instant) (drawn : UInt64) (hdelete : ∀ other, call ≠ .delete other)
    (hlegible : backend.Filed → call.Legible) :
    let deal := scene.deal clock (.party index actor.task) actor.handle now drawn call
    let exchange : Exchange := ⟨index, actor.task, drawn, call, world.table⟩
    deal.answer = exchange.answer ∧ (scene.take deal).Acts clock backend latency (world.take exchange) := by
  obtain ⟨⟨rfl, htime⟩, -⟩ := h.access actor (List.mem_of_getElem? hfound)
  have hhandle := (actor.handle.shows_iff clock latency scene.rig world.table).mpr ⟨h.shows, htime⟩
  obtain ⟨hvalue, hafter⟩ := hhandle.answer ⟨clock, now⟩ drawn hdelete fun hfiled =>
    hlegible (actor.handle.filed_base.mpr hfiled)
  have hshows := ((actor.handle.shows_iff _ _ _ _).mp hafter).1
  refine ⟨hvalue, hshows, h.parties, ?_, h.access⟩
  refine List.rel_append h.log (.cons ⟨rfl, ?_, h.shows, hshows⟩ .nil)
  exact congrArg (Sigma.mk call) hvalue

theorem Acts.step (h : scene.Acts clock backend latency world) (index : Nat) {now : Instant}
    (hnow : backend.Filed → now.Legible) (chance : Chance) (drawn : UInt64) :
    (scene.play clock (.step index now chance drawn)).Acts clock backend latency
      (world.move (.step index now chance drawn)) := by
  simp only [Scene.play]
  cases hfound : scene.actors[index]? with
  | none =>
    have hnone : world.parties[index]? = none := by rw [h.parties, List.getElem?_map, hfound, Option.map_none]
    simp only [World.move, hnone]
    exact h
  | some actor =>
    have hrest := (h.access actor (List.mem_of_getElem? hfound)).2
    rw [world.move_step (h.party hfound) now chance drawn]
    cases hstep : actor.step now chance with
    | stays =>
      simp only [hstep]
      exact h
    | goesOn next =>
      simp only [hstep]
      exact h.put hfound (Actor.of_goesOn hstep).1 fun hfiled =>
        Actor.legible_of_goesOn hstep (hnow hfiled) (hrest hfiled)
    | asks call hear =>
      obtain ⟨hmay, hhear⟩ := Actor.of_asks hstep
      have hlegible := fun hfiled => Actor.legible_of_asks hstep (hrest hfiled)
      obtain ⟨hanswer, htake⟩ := h.take hfound now drawn hmay.ne_delete fun hfiled => (hlegible hfiled).1
      simp only [hstep, hanswer]
      refine htake.put hfound (hhear _).1 fun hfiled => (hlegible hfiled).2 _ ?_
      exact ((h.shows.legible hfiled).answer drawn (hlegible hfiled).1).2
    | tells event next =>
      obtain ⟨queues, htell⟩ := Handle.tell_eq actor.queue event scene.rig
      have hput := h.put hfound (Actor.of_tells hstep).2.1 fun hfiled => Actor.legible_of_tells hstep (hrest hfiled)
      simp only [hstep, htell]
      exact hput.with_queues queues scene.heard _

theorem Acts.play (h : scene.Acts clock backend latency world) (hcue : cue.Closed clock backend latency) :
    (scene.play clock cue).Acts clock backend latency (world.after cue.moves) := by
  cases cue with
  | enter handle queue policy task =>
    refine ⟨h.shows, ?_, h.log, fun actor hactor => ?_⟩
    · simp only [Cue.moves, World.after, World.move, Scene.play, List.map_append, h.parties]
      rfl
    · rcases List.mem_append.mp hactor with hactor | hactor
      · exact h.access actor hactor
      · obtain rfl := List.mem_singleton.mp hactor
        exact ⟨hcue.1, fun hfiled => Task.legible_plan (hcue.2 hfiled) policy⟩
  | step index now chance drawn => exact h.step index hcue chance drawn
  | drain queue => exact h.with_queues _ _ world.told
  | call handle now drawn call => exact hcue.elim
  | weather store outage latency => exact hcue.elim

-- A run of the scene is a run of the world.
theorem Acts.after (h : scene.Acts clock backend latency world)
    (hcues : ∀ cue ∈ cues, cue.Closed clock backend latency) :
    (scene.after clock cues).Acts clock backend latency (world.after (cues.flatMap Cue.moves)) := by
  induction cues generalizing scene world with
  | nil => exact h
  | cons cue rest ih =>
    obtain ⟨hcue, hrest⟩ := List.forall_mem_cons.mp hcues
    rw [List.flatMap_cons, World.after_append]
    exact ih (h.play hcue) hrest

theorem acts_start (h : backend.Shows clock latency rig table) :
    (start rig).Acts clock backend latency (World.start table) where
  shows := h
  parties := rfl
  log := .nil
  access _ hactor := by cases hactor

-- A silo is declared dead through a deadline, over a store that takes its time.
example :
    let rig : Rig := { Rig.empty with stores := [⟨[(Deployment.new "d").anew 7], none, .ofMillis 5⟩] }
    let handle : Handle := .deadline (.memory 0 "d") (.ofSeconds 1)
    let task : Task := .moveTo (.onLoopback 11111 1) .dead
    ((start rig).after .millis [.enter handle none .standard task, .step 0 .epoch .never 8]).Acts .millis
      (.memory 0 "d") (.ofMillis 5) ((World.start ((Deployment.new "d").anew 7)).after
        [.enter task .standard, .step 0 .epoch .never 8]) := by
  intro rig handle task
  have hshows : (Handle.memory 0 "d").Shows .millis (.ofMillis 5) rig ((Deployment.new "d").anew 7) :=
    ⟨rfl, _, ⟨rfl, rfl⟩, rfl⟩
  have htime : Clock.millis.sleepTicks (.ofMillis 5) ≤ Clock.millis.ticks (.ofSeconds 1) := by decide
  have henter : (Cue.enter handle none .standard task).Closed .millis (.memory 0 "d") (.ofMillis 5) :=
    ⟨⟨rfl, trivial, htime⟩, nofun⟩
  exact (acts_start hshows).after (List.forall_mem_cons.mpr ⟨henter, List.forall_mem_singleton.mpr nofun⟩)

theorem countP_won_eq {deals : List Deal} {log : List Exchange}
    (h : List.Forall₂ (Deal.Is clock backend latency) deals log) :
    log.countP Exchange.won = deals.countP Deal.won := by
  induction h with
  | nil => rfl
  | cons hdeal _ ih => simp only [List.countP_cons, ih, hdeal.won_eq]

theorem exists_exchange {past later : List Deal} {deal : Deal} {log : List Exchange}
    (h : List.Forall₂ (Deal.Is clock backend latency) (past ++ deal :: later) log) :
    ∃ before exchange after, log = before ++ exchange :: after ∧ deal.Is clock backend latency exchange ∧
      List.Forall₂ (Deal.Is clock backend latency) past before := by
  have hflip : List.Forall₂ (flip (Deal.Is clock backend latency)) log (past ++ deal :: later) := .flip h
  obtain ⟨before, exchange, after, heq, hdeal, hpast, -⟩ := exists_across hflip
  exact ⟨before, exchange, after, heq, hdeal, hpast.flip⟩

theorem Acts.ends (h : scene.Acts clock backend latency world) (hfound : scene.actors[index]? = some actor)
    {result : Except UpdateError (Option Entry)} (hresult : actor.result? = some result) :
    ∃ party, world.parties[index]? = some party ∧ party.rest = .done result := by
  refine ⟨actor.party, h.party hfound, ?_⟩
  obtain ⟨handle, queue, task, footing, rest, follows⟩ := actor
  cases rest with
  | done value => exact congrArg Plan.done (Option.some.inj hresult)
  | _ => cases hresult

-- Behind handles, too, rows stay and go forward, and each of them was inserted by a party.
theorem rows_go_forward_behind_handles {drawn : UInt64}
    (hshows : backend.Shows clock latency rig (table.anew drawn))
    (hcues : ∀ cue ∈ cues, cue.Closed clock backend latency)
    (hfew : ((start rig).after clock cues).log.countP Deal.won < 2 ^ 63) {past : List Cue} (hpast : past <+: cues) :
    ∃ earlier later, backend.Shows clock latency ((start rig).after clock past).rig earlier ∧
      backend.Shows clock latency ((start rig).after clock cues).rig later ∧ earlier.Grows later ∧
      ∀ key row, later.rows.get? key = some row → ∃ deal ∈ ((start rig).after clock cues).log, ∃ index entry,
        deal.won ∧ deal.caller = .party index (.insert entry) ∧ entry.silo = row.entry.silo ∧
        entry.suspicions <+: row.entry.suspicions := by
  obtain ⟨rest, rfl⟩ := hpast
  have hearlier := (acts_start hshows).after fun cue hmem => hcues cue (List.mem_append_left _ hmem)
  have hlater := (acts_start hshows).after hcues
  rw [← countP_won_eq hlater.log, List.flatMap_append] at hfew
  rw [List.flatMap_append] at hlater
  refine ⟨_, _, hearlier.shows, hlater.shows, World.grows_run hfew, fun key row hrow => ?_⟩
  have hrooted := (World.accounted_run table drawn _).rooted hfew
  obtain ⟨write, hmem, entry, hwon, htask, hsilo, hsuspicions⟩ := hrooted.inserted key row hrow
  obtain ⟨before, after, hlog⟩ := List.append_of_mem hmem
  have hdeals := hlater.log
  rw [← World.run, hlog] at hdeals
  obtain ⟨past, deal, later, heq, hdeal, -⟩ := exists_across hdeals
  refine ⟨deal, by simp [heq], write.party, entry, hdeal.won_eq.trans hwon, htask ▸ hdeal.caller, hsilo, ?_⟩
  exact hsuspicions ▸ List.prefix_append _ _

-- What a party has put in the place of another entry stands there, and is what the party is done with.
theorem won_revisions_stand_behind_handles {drawn : UInt64}
    (hshows : backend.Shows clock latency rig (table.anew drawn))
    (hcues : ∀ cue ∈ cues, cue.Closed clock backend latency)
    (hfew : ((start rig).after clock cues).log.countP Deal.won < 2 ^ 63) {deal : Deal}
    (hmem : deal ∈ ((start rig).after clock cues).log) (hwon : deal.won) {entry : Entry} {etag : Etag} {stamp : Version}
    (hcall : deal.call = .updateRow entry etag stamp) :
    ∃ index task after, deal.caller = .party index task ∧ backend.Shows clock latency deal.after after ∧
      (after.rows.get? task.silo.rowKey).map Row.entry = some entry ∧
      ∀ actor result, ((start rig).after clock cues).actors[index]? = some actor → actor.result? = some result →
        result = .ok (some entry) := by
  have hacts := (acts_start hshows).after hcues
  have haccounted := World.accounted_run table drawn (cues.flatMap Cue.moves)
  rw [← countP_won_eq hacts.log] at hfew
  obtain ⟨past, later, hlog⟩ := List.append_of_mem hmem
  obtain ⟨before, write, after, heq, hdeal, -⟩ := exists_exchange (hlog ▸ hacts.log)
  have hwon' : write.won = true := hdeal.won_eq.symm.trans hwon
  have hrevision : write.revision? = some entry := by
    rw [Exchange.revision?, ← hdeal.call_eq, hcall]
  refine ⟨write.party, write.task, write.after, hdeal.caller, hdeal.after, ?_, fun actor result hactor hresult => ?_⟩
  · rw [heq, List.countP_append] at hfew
    exact (haccounted.effect (table.stamped_anew drawn) heq (by omega)).stores hwon' hrevision
  · obtain ⟨party, hparty, hrest⟩ := hacts.ends hactor hresult
    have hwrite : write ∈ (World.run table drawn (cues.flatMap Cue.moves)).log := heq ▸ by simp
    rw [haccounted.result_of_won hwrite hwon' hparty hrest, hrevision]

-- A party that is done with an error has left the table as it was.
theorem failed_changes_leave_table_behind_handles (hshows : backend.Shows clock latency rig table)
    (hcues : ∀ cue ∈ cues, cue.Closed clock backend latency)
    (hfound : ((start rig).after clock cues).actors[index]? = some actor) {error : UpdateError}
    (herror : actor.result? = some (.error error)) {deal : Deal} (hmem : deal ∈ ((start rig).after clock cues).log)
    (hown : deal.isBy index) :
    ∃ left, backend.Shows clock latency deal.before left ∧ backend.Shows clock latency deal.after left := by
  have hacts := (acts_start hshows).after hcues
  have haccounted := (World.accounted_start table).after (cues.flatMap Cue.moves)
  obtain ⟨party, hparty, hrest⟩ := hacts.ends hfound herror
  obtain ⟨past, later, hlog⟩ := List.append_of_mem hmem
  obtain ⟨before, exchange, after, heq, hdeal, -⟩ := exists_exchange (hlog ▸ hacts.log)
  have hexchange : exchange ∈ ((World.start table).after (cues.flatMap Cue.moves)).log := heq ▸ by simp
  refine ⟨exchange.before, hdeal.before, ?_⟩
  rw [← haccounted.after_eq_of_error hparty hrest hexchange ((hdeal.isBy_iff index).mp hown)]
  exact hdeal.after

theorem isBy_eq_false {deals : List Deal} {log : List Exchange}
    (h : List.Forall₂ (Deal.Is clock backend latency) deals log)
    (hothers : ∀ exchange ∈ log, exchange.party ≠ index) : ∀ deal ∈ deals, deal.isBy index = false := by
  induction h with
  | nil => simp
  | cons hdeal _ ih =>
    obtain ⟨hother, hrest⟩ := List.forall_mem_cons.mp hothers
    refine List.forall_mem_cons.mpr ⟨?_, ih hrest⟩
    rw [Bool.eq_false_iff, Ne, hdeal.isBy_iff]
    exact hother

-- A suspicion writes back the alive time that its party read last.
theorem suspicions_write_back_behind_handles (hshows : backend.Shows clock latency rig table)
    (hcues : ∀ cue ∈ cues, cue.Closed clock backend latency) {past later : List Deal} {write : Deal}
    (hlog : ((start rig).after clock cues).log = past ++ write :: later) (hwon : write.won) {silo : Silo}
    {suspicion : Suspicion} (hcaller : write.caller = .party index (.suspect silo suspicion)) :
    ∃ before read between seen left, past = before ++ read :: between ∧ read.isBy index ∧
      read.call = .readRow silo ∧ (∀ deal ∈ between, deal.isBy index = false) ∧
      backend.Shows clock latency read.before seen ∧ backend.Shows clock latency write.after left ∧
      left.aliveTime? silo = seen.aliveTime? silo := by
  have hacts := (acts_start hshows).after hcues
  have haccounted := (World.accounted_start table).after (cues.flatMap Cue.moves)
  obtain ⟨front, exchange, back, heq, hwrite, hfront⟩ := exists_exchange (hlog ▸ hacts.log)
  obtain ⟨hparty, htask⟩ := Caller.party.inj (hwrite.caller.symm.trans hcaller)
  obtain ⟨before, read, between, stamp, rfl, hreader, hcall, hothers, -, -, htime⟩ :=
    haccounted.aliveTime?_of_suspect heq (hwrite.won_eq.symm.trans hwon) htask
  obtain ⟨first, deal, rest, rfl, hread, -, hrest⟩ := exists_across hfront
  exact ⟨first, deal, rest, read.before, exchange.after, rfl, (hread.isBy_iff index).mpr (hreader.trans hparty),
    hread.call_eq.trans hcall, isBy_eq_false hrest fun other hmem => hparty ▸ hothers other hmem, hread.before,
    hwrite.after, htime⟩

end Scene
end Muster.Updater
