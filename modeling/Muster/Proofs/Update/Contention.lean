import Muster.Proofs.Rig.Handle
import Muster.Proofs.Update.Scene

-- Parties that work on one table over a backend without faults: whoever loses a write has been overtaken
-- since it read.
namespace Muster.Updater

variable {index : Nat} {deployment : String} {task : Task} {snapshot : Snapshot} {between deals log : List Deal}
  {deal : Deal} {table next : Deployment}

-- A deletion of the deployment, and after it a new beginning.
def Recreated (deployment : String) (deals : List Deal) : Prop :=
  ∃ deletion creation, [deletion, creation].Sublist deals ∧ deletion.call = .delete deployment ∧
    creation.call = .establish true

-- Something that can cost a party its write: somebody else wins one, or everything begins anew.
def Disturbed (index : Nat) (deployment : String) (deals : List Deal) : Prop :=
  (∃ deal ∈ deals, deal.isBy index = false ∧ deal.won = true) ∨ Recreated deployment deals

theorem Disturbed.mono {more : List Deal} (h : Disturbed index deployment deals) (hmore : deals.Sublist more) :
    Disturbed index deployment more := by
  obtain ⟨deal, hmem, hother, hwon⟩ | ⟨deletion, creation, hpair, hcalls⟩ := h
  · exact Or.inl ⟨deal, hmore.subset hmem, hother, hwon⟩
  · exact Or.inr ⟨deletion, creation, hpair.trans hmore, hcalls⟩

-- In a log: the last deal of a party is a reading of the row that its task is about. What came after it is
-- by others.
def Saw (index : Nat) (task : Task) (snapshot : Snapshot) (between log : List Deal) : Prop :=
  (∃ past before after,
    log = past ++ ⟨.party index task, .readRow task.silo, .ok snapshot, before, after⟩ :: between) ∧
  ∀ deal ∈ between, deal.isBy index = false

theorem Saw.concat (h : Saw index task snapshot between log) (hother : deal.isBy index = false) :
    Saw index task snapshot (between ++ [deal]) (log ++ [deal]) := by
  obtain ⟨⟨past, before, after, rfl⟩, hothers⟩ := h
  refine ⟨⟨past, before, after, by simp⟩, fun other hmem => ?_⟩
  rcases List.mem_append.mp hmem with hmem | hmem
  · exact hothers other hmem
  · exact List.mem_singleton.mp hmem ▸ hother

-- What can have become of a reading by the time of the write.
inductive Watched (index : Nat) (deployment : String) (silo : Silo) (snapshot : Snapshot) (between : List Deal)
    (table : Deployment) : Prop where
  | disturbed (disturbed : Disturbed index deployment between)
  | gone (deletion : Deal) (mem : deletion ∈ between) (call : deletion.call = .delete deployment)
      (version : table.version = none)
  | fits (fits : snapshot.Fits silo table)

-- What somebody else does disturbs the party, or takes the table away, or leaves the snapshot fitting.
theorem Watched.concat {silo : Silo} (h : Watched index deployment silo snapshot between table)
    (hid : table.id = deployment) (hother : deal.isBy index = false)
    (heffect : deal.call.Effect deal.won table next) :
    Watched index deployment silo snapshot (between ++ [deal]) next := by
  cases h with
  | disturbed hdisturbed => exact .disturbed (hdisturbed.mono (List.sublist_append_left _ _))
  | gone deletion hmem hdelete hnone =>
    cases heffect with
    | still _ hstill =>
      exact .gone deletion (List.mem_append_left _ hmem) hdelete ((Deployment.version_eq_of_still hstill).trans hnone)
    | write _ entry stamp _ hversion => simp [hnone] at hversion
    | stamp _ hcall =>
      have hpair : [deletion, deal].Sublist (between ++ [deal]) :=
        (List.singleton_sublist.mpr hmem).append (List.Sublist.refl [deal])
      exact .disturbed (Or.inr ⟨deletion, deal, hpair, hdelete, hcall⟩)
    | delete _ _ hversion => exact .gone deletion (List.mem_append_left _ hmem) hdelete hversion
  | fits hfits =>
    have hlast : deal ∈ between ++ [deal] := List.mem_append_right _ (List.mem_singleton_self deal)
    cases heffect with
    | still _ hstill => exact .fits (hfits.of_still hstill)
    | write hwon => exact .disturbed (Or.inl ⟨deal, hlast, hother, hwon⟩)
    | stamp _ _ hversion => simp [hfits.version] at hversion
    | delete _ hcall hversion => exact .gone deal hlast (hid ▸ hcall) hversion

-- A party that loses its write has been disturbed: a write that fits would have won, and without a table
-- there is no answer.
theorem Watched.of_loses {call : Call} {drawn : UInt64}
    (h : Watched index deployment task.silo snapshot between table) (hmay : task.May (.read snapshot) call)
    (hloses : call.loses (table.answer drawn call).1 = true) : Disturbed index deployment between := by
  cases h with
  | disturbed hdisturbed => exact hdisturbed
  | gone _ _ _ hnone => simp [Call.loses_of_version_eq_none hnone] at hloses
  | fits hfits =>
    cases hmay with
    | insert entry snapshot htask hfree =>
      have hsilo : entry.silo = task.silo := by rw [htask, Task.silo]
      simp [Deployment.answer, hfits.insertRow hsilo (hsilo ▸ hfree), Deployment.settle, Call.loses] at hloses
    | revise row entry snapshot hfound hrevises =>
      have hrow : row.entry.silo = task.silo := by simpa using List.find?_some hfound
      simp [Deployment.answer, hfits.updateRow (hrevises.silo_eq.trans hrow) hfound, Deployment.settle,
        Call.loses] at hloses

-- How a party stands with the table and with what has been dealt so far.
def Footing.Stands (index : Nat) (deployment : String) (task : Task) (log : List Deal) (table : Deployment) :
    Footing → Prop
  | read snapshot => ∃ between, Saw index task snapshot between log ∧
      Watched index deployment task.silo snapshot between table
  | lost => ∃ deal ∈ log, deal.caller = .party index task ∧ deal.lost = true
  | _ => True

variable {footing : Footing}

theorem Footing.Stands.concat (h : footing.Stands index deployment task log table) (hid : table.id = deployment)
    (hother : deal.isBy index = false) (heffect : deal.call.Effect deal.won table next) :
    footing.Stands index deployment task (log ++ [deal]) next := by
  cases footing with
  | read snapshot =>
    obtain ⟨between, hsaw, hwatched⟩ := h
    exact ⟨between ++ [deal], hsaw.concat hother, hwatched.concat hid hother heffect⟩
  | lost =>
    obtain ⟨lost, hmem, hlost⟩ := h
    exact ⟨lost, List.mem_append_left _ hmem, hlost⟩
  | _ => trivial

theorem Deal.isBy_of_caller (h : deal.caller = .party index task) : deal.isBy index = true := by
  rw [Deal.isBy, h]
  exact beq_self_eq_true index

theorem Deal.not_isBy_of_caller {other : Nat} (h : deal.caller = .party other task) (hne : index ≠ other) :
    deal.isBy index = false := by
  rw [Deal.isBy, h]
  exact beq_eq_false_iff_ne.mpr (Ne.symm hne)

theorem Footing.stands_owing (event : Option Event) : (owing event).Stands index deployment task log table := by
  cases event <;> trivial

-- After a deal of its own a party stands by what it has just heard.
theorem Footing.stands_hear {drawn : UInt64} (footing : Footing) (hcaller : deal.caller = .party index task)
    (hmay : task.May footing.stage deal.call) (hanswer : deal.answer = (table.answer drawn deal.call).1)
    (hplain : table.Plain) (hbare : task.silo.Bare) (heffect : deal.call.Effect deal.won table next) :
    (footing.hear task deal.call deal.answer).Stands index deployment task (log ++ [deal]) next := by
  have hlast : deal ∈ log ++ [deal] := List.mem_append_right _ (List.mem_singleton_self deal)
  obtain ⟨caller, call, answer, before, after⟩ := deal
  dsimp only at hcaller hmay hanswer heffect ⊢
  subst hcaller
  unfold hear
  split
  · next silo snapshot =>
    obtain rfl := hmay.of_readRow
    have hfits : snapshot.Fits task.silo table := Snapshot.fits_of_readRow hplain hbare hanswer.symm
    refine ⟨[], ⟨⟨log, before, after, rfl⟩, fun _ => nofun⟩, ?_⟩
    cases heffect with
    | still _ hstill => exact .fits (hfits.of_still hstill)
    | write _ _ _ hentry => cases hentry
    | stamp _ hcall => cases hcall
    | delete _ hcall => cases hcall
  · exact stands_owing _
  · exact stands_owing _
  · exact ⟨_, hlast, rfl, rfl⟩
  · exact ⟨_, hlast, rfl, rfl⟩
  · trivial

-- A lost write went by a reading, and its party has been disturbed since.
def Overtaken (index : Nat) (deployment : String) (task : Task) (past : List Deal) (call : Call) : Prop :=
  ∃ snapshot between, Saw index task snapshot between past ∧ task.May (.read snapshot) call ∧
    Disturbed index deployment between

theorem Task.May.stage_of_loses {stage : Stage} {call : Call} {answer : call.Answer} (h : task.May stage call)
    (hloses : call.loses answer = true) : ∃ snapshot, stage = .read snapshot := by
  cases h with
  | insert _ snapshot => exact ⟨snapshot, rfl⟩
  | revise _ _ snapshot => exact ⟨snapshot, rfl⟩
  | look => cases hloses
  | beat => cases hloses

theorem Task.May.target_eq {stage : Stage} {call : Call} (h : task.May stage call) (deployment : String) :
    FileTable.target deployment call = deployment := by
  cases h <;> rfl

theorem Footing.Stands.overtaken {call : Call} {drawn : UInt64}
    (h : footing.Stands index deployment task log table) (hmay : task.May footing.stage call)
    (hloses : call.loses (table.answer drawn call).1 = true) : Overtaken index deployment task log call := by
  obtain ⟨snapshot, hstage⟩ := hmay.stage_of_loses hloses
  obtain rfl := read_of_stage hstage
  obtain ⟨between, hsaw, hwatched⟩ := h
  exact ⟨snapshot, between, hsaw, hmay, hwatched.of_loses hmay hloses⟩

-- A way to the table behind `backend` on which no call is cut off.
structure Access (clock : Clock) (backend : Handle) (latency : Span) (handle : Handle) : Prop where
  base : handle.base = backend
  inTime : handle.InTime clock latency

-- The table is used as it should be: by deadlines that leave enough time, for silos that name no link and no flow,
-- and nobody deletes another deployment. Files are given what they can give back. Others may do what they like to
-- this deployment.
def Cue.Fair (clock : Clock) (backend : Handle) (latency : Span) : Cue → Prop
  | enter handle _ _ task => Access clock backend latency handle ∧ task.silo.Bare ∧ (backend.Filed → task.Legible)
  | step _ now _ _ => backend.Filed → now.Legible
  | call handle _ _ request => Access clock backend latency handle ∧
      FileTable.target backend.deployment request = backend.deployment ∧
      (∀ entry stamp, request.write? = some (entry, stamp) → entry.silo.Bare) ∧ (backend.Filed → request.Legible)
  | drain _ => True
  | weather _ _ _ => False

namespace Scene

variable {clock : Clock} {backend : Handle} {latency : Span} {scene : Scene} {actor : Actor} {caller : Caller}
  {handle : Handle} {now : Instant} {drawn : UInt64} {call : Call}

structure Fair (clock : Clock) (backend : Handle) (latency : Span) (table : Deployment) (scene : Scene) : Prop where
  shows : backend.Shows clock latency scene.rig table
  plain : table.Plain
  access : ∀ (index : Nat) (actor : Actor), scene.actors[index]? = some actor →
    Access clock backend latency actor.handle ∧ actor.task.silo.Bare ∧ (backend.Filed → actor.rest.Legible)
  stands : ∀ (index : Nat) (actor : Actor), scene.actors[index]? = some actor →
    actor.footing.Stands index backend.deployment actor.task scene.log table
  overtaken : ∀ past lost index task, past ++ [lost] <+: scene.log → lost.caller = .party index task →
    lost.lost = true → Overtaken index backend.deployment task past lost.call

theorem deal_answer (hshows : backend.Shows clock latency scene.rig table)
    (haccess : Access clock backend latency handle)
    (htarget : FileTable.target backend.deployment call = backend.deployment)
    (hlegible : backend.Filed → call.Legible) :
    (scene.deal clock caller handle now drawn call).answer = (table.answer drawn call).1 ∧
    ∃ next, backend.Shows clock latency (scene.deal clock caller handle now drawn call).after next ∧
      call.Effect (scene.deal clock caller handle now drawn call).won table next := by
  obtain ⟨rfl, htime⟩ := haccess
  rw [Handle.deployment_base] at htarget
  have hhandle := (handle.shows_iff clock latency scene.rig table).mpr ⟨hshows, htime⟩
  obtain ⟨hvalue, next, hnext, heffect⟩ :=
    Handle.Shows.perform ⟨clock, now⟩ hhandle drawn call htarget fun hfiled => hlegible (handle.filed_base.mpr hfiled)
  exact ⟨hvalue, next, ((handle.shows_iff _ _ _ _).mp hnext).1, heffect⟩

variable {cue : Cue}

theorem Fair.with_queues (h : scene.Fair clock backend latency table) (queues : List EventQueue) (heard : List Event) :
    ({ scene with rig := { scene.rig with queues }, heard } : Scene).Fair clock backend latency table :=
  ⟨h.shows.queues queues, h.plain, h.access, h.stands, h.overtaken⟩

theorem Fair.put {next : Actor} (h : scene.Fair clock backend latency table) (halike : next.Alike actor)
    (hfound : scene.actors[index]? = some actor) (hlegible : backend.Filed → next.rest.Legible)
    (hstands : next.footing.Stands index backend.deployment next.task scene.log table) :
    (scene.put index next).Fair clock backend latency table where
  shows := h.shows
  plain := h.plain
  overtaken := h.overtaken
  access i other hother := by
    obtain ⟨rfl, rfl⟩ | ⟨-, hother⟩ := mem_actors_put hother
    · obtain ⟨haccess, hbare, -⟩ := h.access i actor hfound
      rw [halike.handle, halike.task]
      exact ⟨haccess, hbare, hlegible⟩
    · exact h.access i other hother
  stands i other hother := by
    obtain ⟨rfl, rfl⟩ | ⟨-, hother⟩ := mem_actors_put hother
    · exact hstands
    · exact h.stands i other hother

-- A deal is struck. Whoever is at the table now either was there before and had no part in the deal, or
-- has just heard the answer.
theorem Fair.take (h : scene.Fair clock backend latency table)
    (hshows : backend.Shows clock latency deal.after next) (heffect : deal.call.Effect deal.won table next)
    (hbare : ∀ entry stamp, deal.call.write? = some (entry, stamp) → entry.silo.Bare)
    (hlost : ∀ index task, deal.caller = .party index task → deal.lost = true →
      Overtaken index backend.deployment task scene.log deal.call)
    (actors : List Actor)
    (hactors : ∀ (index : Nat) (actor : Actor), actors[index]? = some actor →
      (deal.isBy index = false ∧ scene.actors[index]? = some actor) ∨
      ((Access clock backend latency actor.handle ∧ actor.task.silo.Bare ∧ (backend.Filed → actor.rest.Legible)) ∧
        actor.footing.Stands index backend.deployment actor.task (scene.log ++ [deal]) next)) :
    ({ scene.take deal with actors } : Scene).Fair clock backend latency next where
  shows := hshows
  plain := heffect.plain h.plain hbare
  access index actor hactor := by
    obtain ⟨-, hbefore⟩ | ⟨haccess, -⟩ := hactors index actor hactor
    · exact h.access index actor hbefore
    · exact haccess
  stands index actor hactor := by
    obtain ⟨hother, hbefore⟩ | ⟨-, hstands⟩ := hactors index actor hactor
    · obtain ⟨-, store, -, hid⟩ := h.shows
      exact (h.stands index actor hbefore).concat (hid ▸ store.id_table _) hother heffect
    · exact hstands
  overtaken past lost index task hprefix hcaller hlosing := by
    rcases List.prefix_concat_iff.mp hprefix with hlast | hprefix
    · obtain ⟨rfl, heq⟩ := List.append_inj' hlast rfl
      obtain rfl := List.singleton_inj.mp heq
      exact hlost index task hcaller hlosing
    · exact h.overtaken past lost index task hprefix hcaller hlosing

theorem Fair.play (h : scene.Fair clock backend latency table) (hcue : cue.Fair clock backend latency) :
    ∃ next, (scene.play clock cue).Fair clock backend latency next := by
  cases cue with
  | enter handle queue policy task =>
    refine ⟨table, h.shows, h.plain, fun index actor hactor => ?_, fun index actor hactor => ?_, h.overtaken⟩
    · rcases mem_actors_enter hactor with hactor | rfl
      · exact h.access index actor hactor
      · obtain ⟨haccess, hbare, hlegible⟩ := hcue
        exact ⟨haccess, hbare, fun hfiled => Task.legible_plan (hlegible hfiled) policy⟩
    · rcases mem_actors_enter hactor with hactor | rfl
      · exact h.stands index actor hactor
      · trivial
  | step index now chance drawn =>
    cases play_step clock scene index now chance drawn with
    | stays heq =>
      rw [heq]
      exact ⟨table, h⟩
    | goesOn actor next hfound halike hfooting hrest heq =>
      obtain ⟨-, -, hlegible⟩ := h.access index actor hfound
      refine ⟨table, heq ▸ h.put halike hfound (fun hfiled => hrest (hcue hfiled) (hlegible hfiled)) ?_⟩
      rw [hfooting, halike.task]
      exact h.stands index actor hfound
    | tells actor next event hfound halike howes hfooting hrest heq =>
      obtain ⟨-, -, hlegible⟩ := h.access index actor hfound
      obtain ⟨queues, htell⟩ := Handle.tell_eq actor.queue event scene.rig
      have hput : (scene.put index next).Fair clock backend latency table :=
        h.put halike hfound (fun hfiled => hrest (hlegible hfiled)) (by rw [hfooting]; trivial)
      rw [heq, htell]
      exact ⟨table, hput.with_queues queues scene.heard⟩
    | asks actor next call deal hfound hdeal hmay halike hfooting hrest heq =>
      obtain ⟨haccess, hbare, hlegible⟩ := h.access index actor hfound
      subst hdeal
      have htarget : FileTable.target backend.deployment call = backend.deployment := hmay.target_eq _
      obtain ⟨hanswer, after, hshows, heffect⟩ :=
        deal_answer h.shows haccess htarget fun hfiled => (hrest (hlegible hfiled)).1
      rw [heq]
      refine ⟨after, h.take hshows heffect (fun _ _ hwrite => hmay.silo_of_write? hwrite ▸ hbare) ?_ _ ?_⟩
      · rintro _ _ ⟨⟩ hlost
        have hloses : call.loses (table.answer drawn call).1 = true := by
          rw [← hanswer]
          exact hlost
        exact (h.stands index actor hfound).overtaken hmay hloses
      · intro other actor' hactor'
        obtain ⟨rfl, rfl⟩ | ⟨hne, hbefore⟩ := mem_actors_put hactor'
        · refine Or.inr ⟨?_, ?_⟩
          · rw [halike.handle, halike.task]
            refine ⟨haccess, hbare, fun hfiled => ?_⟩
            -- Of a legible table an answer shows legible rows.
            obtain ⟨hcall, hhear⟩ := hrest (hlegible hfiled)
            exact hhear (hanswer ▸ ((h.shows.legible hfiled).answer drawn hcall).2)
          · rw [hfooting, halike.task]
            exact actor.footing.stands_hear rfl hmay hanswer h.plain hbare heffect
        · exact Or.inl ⟨Deal.not_isBy_of_caller rfl hne, hbefore⟩
  | call handle now drawn call =>
    obtain ⟨haccess, htarget, hbare, hlegible⟩ := hcue
    obtain ⟨-, next, hshows, heffect⟩ := deal_answer h.shows haccess htarget hlegible
    refine ⟨next, h.take hshows heffect hbare (fun _ _ hcaller => ?_) _ fun _ _ hactor => Or.inl ⟨rfl, hactor⟩⟩
    cases hcaller
  | drain queue => exact ⟨table, h.with_queues _ _⟩
  | weather store outage latency => exact hcue.elim

theorem Fair.after (h : scene.Fair clock backend latency table) {cues : List Cue}
    (hcues : ∀ cue ∈ cues, cue.Fair clock backend latency) :
    ∃ next, (scene.after clock cues).Fair clock backend latency next := by
  induction cues generalizing scene table with
  | nil => exact ⟨table, h⟩
  | cons cue rest ih =>
    obtain ⟨hcue, hrest⟩ := List.forall_mem_cons.mp hcues
    obtain ⟨next, hnext⟩ := h.play hcue
    exact ih hnext hrest

theorem fair_start {rig : Rig} (hshows : backend.Shows clock latency rig table) (hplain : table.Plain) :
    (start rig).Fair clock backend latency table where
  shows := hshows
  plain := hplain
  access _ _ hactor := by cases hactor
  stands _ _ hactor := by cases hactor
  overtaken past lost _ _ hprefix := by simpa [start] using List.prefix_nil.mp hprefix

end Scene

theorem sublist_dropWhile {α : Type} {p : α → Bool} {a : α} (ha : p a = false) (front rest : List α) :
    (a :: rest).Sublist ((front ++ a :: rest).dropWhile p) := by
  induction front with
  | nil =>
    have hdrop : (a :: rest).dropWhile p = a :: rest := List.dropWhile_cons_of_neg (by simp [ha])
    exact hdrop.symm ▸ List.Sublist.refl (a :: rest)
  | cons b front ih =>
    rw [List.cons_append]
    by_cases hb : p b = true
    · rw [List.dropWhile_cons_of_pos hb]
      exact ih
    · rw [List.dropWhile_cons_of_neg hb, ← List.cons_append]
      exact List.sublist_append_right _ _

-- What has overtaken a write came after the first call of its party.
theorem Overtaken.disturbed {past later : List Deal} {call : Call} (h : Overtaken index deployment task past call) :
    Disturbed index deployment ((past ++ later).dropWhile fun deal => !deal.isBy index) := by
  obtain ⟨snapshot, between, ⟨⟨front, before, after, rfl⟩, -⟩, -, hdisturbed⟩ := h
  apply hdisturbed.mono
  rw [List.append_assoc, List.cons_append]
  refine .trans ?_ (sublist_dropWhile ?_ front _)
  · exact (List.sublist_append_left between _).cons _
  · rw [Deal.isBy_of_caller rfl, Bool.not_true]

-- Who has lost a write has been disturbed since the first call.
theorem Footing.Stands.disturbed (h : Footing.lost.Stands index deployment task log table)
    (hovertaken : ∀ past lost index task, past ++ [lost] <+: log → lost.caller = .party index task →
      lost.lost = true → Overtaken index deployment task past lost.call) :
    Disturbed index deployment (log.dropWhile fun deal => !deal.isBy index) := by
  obtain ⟨lost, hmem, hcaller, hlost⟩ := h
  obtain ⟨past, later, rfl⟩ := List.append_of_mem hmem
  exact (hovertaken past lost index task ⟨later, List.append_assoc _ _ _⟩ hcaller hlost).disturbed

-- Contention is always somebody's progress: whatever the parties do side by side, whoever loses a write has
-- been overtaken between the reading of that attempt and the write. A party that nobody disturbs neither
-- waits nor gives up. All this is for silos that name no flow, as those that do share a row with others.
theorem lost_writes_were_overtaken (clock : Clock) (backend : Handle) (rig : Rig) (store : Store)
    (hbacks : backend.Backs clock rig store) (hplain : (store.table backend.deployment).Plain)
    (cues : List Cue) (hcues : ∀ cue ∈ cues, cue.Fair clock backend (backend.latency rig)) :
    let scene := (Scene.start rig).after clock cues
    (∀ past lost index task, past ++ [lost] <+: scene.log → lost.caller = .party index task →
      lost.lost = true → Overtaken index backend.deployment task past lost.call) ∧
    ∀ (index : Nat) (actor : Actor), scene.actors[index]? = some actor →
      ¬Disturbed index backend.deployment (scene.log.dropWhile fun deal => !deal.isBy index) →
      actor.isBackingOff = false ∧ ∀ result, actor.result? = some result → isExhausted result = false := by
  have hstart : (Scene.start rig).Fair clock backend (backend.latency rig) (store.table backend.deployment) :=
    Scene.fair_start ⟨rfl, store, hbacks, rfl⟩ hplain
  obtain ⟨table, hfair⟩ := hstart.after hcues
  refine ⟨hfair.overtaken, fun index actor hactor hcalm => ?_⟩
  have hstanding : actor.footing ≠ .lost := by
    intro hlost
    have hstands := hfair.stands index actor hactor
    rw [hlost] at hstands
    exact hcalm (hstands.disturbed hfair.overtaken)
  refine ⟨?_, fun result hresult => ?_⟩
  · rw [Bool.eq_false_iff]
    exact fun hoff => hstanding (Actor.footing_of_isBackingOff hoff)
  · rw [Bool.eq_false_iff]
    exact fun hexhausted => hstanding ((Actor.ends_of_result? hresult).exhausted hexhausted)

theorem exists_last {caller : Caller}
    (h : log.getLast?.map (fun deal => (deal.caller, deal.lost)) = some (caller, true)) :
    ∃ past lost, log = past ++ [lost] ∧ lost.caller = caller ∧ lost.lost = true := by
  obtain ⟨lost, hlast, hmatch⟩ := Option.map_eq_some_iff.mp h
  obtain ⟨hcaller, hlost⟩ := Prod.mk.inj hmatch
  obtain ⟨past, hlog⟩ := List.getLast?_eq_some_iff.mp hlast
  exact ⟨past, lost, hlog, hcaller, hlost⟩

-- Two silos are signed on side by side. Both read, a heartbeat comes in between, the first one writes, and
-- the second one is too late.
def rush : List Cue :=
  let a := Entry.fresh (.onLoopback 11111 1) "a" .epoch
  let b := Entry.fresh (.onLoopback 11112 1) "b" .epoch
  let handle : Handle := .memory 0 "d"
  let step (index : Nat) : Cue := .step index .epoch .never 8
  [.call handle .epoch 7 (.establish true), .enter (.deadline handle (.ofSeconds 1)) none .standard (.insert a),
    .enter handle none .standard (.insert b), step 0, step 1, .call handle .epoch 8 (.mergeAlive a), step 0, step 1]

theorem lost_writes_were_overtaken_rush :
    let store : Store := { Store.empty with latency := .ofMillis 5 }
    let rig : Rig := { Rig.empty with stores := [store] }
    let backend : Handle := .memory 0 "d"
    let scene := (Scene.start rig).after .millis rush
    backend.Backs .millis rig store ∧ (store.table backend.deployment).Plain ∧
    (∀ cue ∈ rush, cue.Fair .millis backend (backend.latency rig)) ∧
    ∃ past lost task, past ++ [lost] <+: scene.log ∧ lost.caller = .party 1 task ∧ lost.lost = true ∧
      Overtaken 1 "d" task past lost.call := by
  intro store rig backend scene
  have hbacks : backend.Backs .millis rig store := ⟨rfl, rfl⟩
  have hplain : (store.table backend.deployment).Plain := Deployment.plain_of_rows_empty rfl
  have htime : Clock.millis.sleepTicks (.ofMillis 5) ≤ Clock.millis.ticks (.ofSeconds 1) := by decide
  have haccess : Access .millis backend (.ofMillis 5) backend := ⟨rfl, trivial⟩
  have hlate : Access .millis backend (.ofMillis 5) (.deadline backend (.ofSeconds 1)) := ⟨rfl, trivial, htime⟩
  have hcues : ∀ cue ∈ rush, cue.Fair .millis backend (backend.latency rig) := by
    simp only [rush, List.forall_mem_cons]
    have hmemory : ∀ {p : Prop}, backend.Filed → p := fun hfiled => hfiled.elim
    refine ⟨⟨haccess, rfl, fun _ _ h => ?_, hmemory⟩, ⟨hlate, by decide, hmemory⟩, ⟨haccess, by decide, hmemory⟩,
      hmemory, hmemory, ⟨haccess, rfl, fun _ _ h => ?_, hmemory⟩, hmemory, hmemory, List.forall_mem_nil _⟩ <;> cases h
  have hend : scene.log.getLast?.map (fun deal => (deal.caller, deal.lost)) =
      some (.party 1 (.insert (Entry.fresh (.onLoopback 11112 1) "b" .epoch)), true) := by
    decide +kernel
  obtain ⟨past, lost, hlog, hcaller, hlost⟩ := exists_last hend
  have hprefix : past ++ [lost] <+: scene.log := hlog ▸ List.prefix_rfl
  exact ⟨hbacks, hplain, hcues, past, lost, _, hprefix, hcaller, hlost,
    (lost_writes_were_overtaken .millis backend rig store hbacks hplain rush hcues).1 _ _ 1 _ hprefix hcaller hlost⟩

-- Two silos that differ in nothing but the flow are signed on, one after the other. They share a row key, and the
-- second one finds no row of its own and has no room for one.
def crossing : List Cue :=
  let sign (flow : UInt32) : Cue := .enter (.memory 0 "d") none .standard
    (.insert (Entry.fresh (.linkLocal flow 0) "a" .epoch))
  [.call (.memory 0 "d") .epoch 7 (.establish true), sign 1, sign 2] ++
    List.replicate 3 (.step 0 .epoch .never 8) ++ List.replicate 22 (.step 1 .epoch .never 8)

theorem lost_write_without_rival :
    let scene := (Scene.start { Rig.empty with stores := [.empty] }).after .millis crossing
    (Silo.linkLocal 1 0).endpoint.scope = 0 ∧ (Silo.linkLocal 2 0).endpoint.scope = 0 ∧
    ¬Disturbed 1 "d" (scene.log.dropWhile fun deal => !deal.isBy 1) ∧
    (∃ past lost task, past ++ [lost] <+: scene.log ∧ lost.caller = .party 1 task ∧ lost.lost = true ∧
      ¬Overtaken 1 "d" task past lost.call) ∧
    ∃ actor result, scene.actors[1]? = some actor ∧ actor.result? = some result ∧ isExhausted result = true := by
  intro scene
  have hothers : (scene.log.dropWhile fun deal => !deal.isBy 1).all
      (fun deal => deal.isBy 1 && deal.call != .delete "d") = true := by
    decide +kernel
  have hcalm : ¬Disturbed 1 "d" (scene.log.dropWhile fun deal => !deal.isBy 1) := by
    rintro (⟨deal, hmem, hother, -⟩ | ⟨deletion, creation, hpair, hdelete, -⟩)
    · have hown := List.all_eq_true.mp hothers deal hmem
      simp [hother] at hown
    · have hnone := List.all_eq_true.mp hothers deletion (hpair.subset (by simp))
      simp [hdelete] at hnone
  have hend : scene.log.getLast?.map (fun deal => (deal.caller, deal.lost)) =
      some (.party 1 (.insert (Entry.fresh (.linkLocal 2 0) "a" .epoch)), true) := by
    decide +kernel
  obtain ⟨past, lost, hlog, hcaller, hlost⟩ := exists_last hend
  have hresult : (scene.actors[1]?.bind Actor.result?).any isExhausted = true := by
    decide +kernel
  refine ⟨rfl, rfl, hcalm, ⟨past, lost, _, hlog ▸ List.prefix_rfl, hcaller, hlost, fun h => hcalm ?_⟩, ?_⟩
  · rw [hlog]
    exact h.disturbed
  · obtain ⟨result, hbind, hexhausted⟩ := (Option.any_eq_true _ _).mp hresult
    obtain ⟨actor, hactor, hactor'⟩ := Option.bind_eq_some_iff.mp hbind
    exact ⟨actor, result, hactor, hactor', hexhausted⟩

end Muster.Updater
