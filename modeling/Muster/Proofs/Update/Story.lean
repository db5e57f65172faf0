import Mathlib.Data.List.Forall2
import Mathlib.Data.List.Perm.Basic
import Muster.Proofs.Update.Fate

-- Changes made one after the other, as they come to be when nobody else uses the table. Of two such stories, one for
-- each order of the changes, it is asked how far they are alike.
namespace Muster

-- Entries that differ at most in the time at which the silo was alive, and there no more than is allowed.
def Entry.Alike (same : Instant → Instant → Prop) (a b : Entry) : Prop :=
  same a.aliveTime b.aliveTime ∧ a.withAliveTime .epoch = b.withAliveTime .epoch

namespace Entry.Alike

variable {same : Instant → Instant → Prop} {a b : Entry}

theorem refl (hsame : ∀ time, same time time) (entry : Entry) : entry.Alike same entry := ⟨hsame _, rfl⟩

theorem silo_eq (h : a.Alike same b) : a.silo = b.silo := (congrArg Entry.silo h.2 :)

theorem status_eq (h : a.Alike same b) : a.status = b.status := (congrArg Entry.status h.2 :)

theorem withStatus (h : a.Alike same b) (status : Status) : (a.withStatus status).Alike same (b.withStatus status) :=
  ⟨h.1, congrArg (Entry.withStatus · status) h.2⟩

theorem withSuspicion (h : a.Alike same b) (suspicion : Suspicion) :
    (a.withSuspicion suspicion).Alike same (b.withSuspicion suspicion) :=
  ⟨h.1, congrArg (Entry.withSuspicion · suspicion) h.2⟩

theorem withAliveTime (h : a.Alike same b) {now now' : Instant} (hnow : same now now') :
    (a.withAliveTime now).Alike same (b.withAliveTime now') := ⟨hnow, h.2⟩

end Entry.Alike

namespace Updater

-- Either both have succeeded, and the entries that they give are alike, or they have failed for the same reason.
def Alike (same : Instant → Instant → Prop) : (a b : Except UpdateError (Option Entry)) → Prop
  | .ok a, .ok b => Option.Rel (Entry.Alike same) a b
  | .error a, .error b => a = b
  | _, _ => False

structure Upshot.Alike (same : Instant → Instant → Prop) (a b : Upshot) : Prop where
  result : Updater.Alike same a.result b.result
  entry : Option.Rel (Entry.Alike same) a.left? b.left?
  writes : a.writes = b.writes

variable {same : Instant → Instant → Prop} {now now' : Instant} {a? b? : Option Entry}

-- What is made of entries that are alike is alike, if the clock shows times that pass for the same.
theorem Task.on_alike (hsame : ∀ time, same time time) (hnow : same now now')
    (h : Option.Rel (Entry.Alike same) a? b?) (task : Task) :
    (task.on now a?).Alike same (task.on now' b?) := by
  cases h with
  | none =>
    cases task with
    | insert entry => exact ⟨.none, .some (.refl hsame entry), rfl⟩
    | moveTo silo status => exact ⟨rfl, .none, rfl⟩
    | suspect silo suspicion => exact ⟨rfl, .none, rfl⟩
    | heartbeat entry aliveTime => exact ⟨.none, .none, rfl⟩
  | @some a b hab =>
    cases task with
    | insert entry => exact ⟨rfl, .some hab, rfl⟩
    | moveTo silo status =>
      by_cases heq : b.status = status
      · simp only [Task.on, Upshot.revised, Updater.moveTo, hab.status_eq, if_pos heq]
        exact ⟨.some hab, .some hab, rfl⟩
      · by_cases hforward : b.status.precedes status
        · simp only [Task.on, Upshot.revised, Updater.moveTo, hab.status_eq, if_neg heq, if_pos hforward]
          have hmoved := (hab.withStatus status).withAliveTime hnow
          exact ⟨.some hmoved, .some hmoved, rfl⟩
        · simp only [Task.on, Upshot.revised, Updater.moveTo, hab.status_eq, if_neg heq, if_neg hforward]
          exact ⟨rfl, .some hab, rfl⟩
    | suspect silo suspicion =>
      exact ⟨.some (hab.withSuspicion suspicion), .some (hab.withSuspicion suspicion), rfl⟩
    | heartbeat entry aliveTime => exact ⟨.none, .some (hab.withAliveTime (hsame aliveTime)), rfl⟩

-- A change that somebody sets out to make, and what they have with them and find then.
structure Deed where
  task : Task
  policy : Policy
  queue : Option Nat
  now : Instant
  drawn : UInt64

-- The same is to be changed, perhaps at another time.
def Deed.Like (same : Instant → Instant → Prop) (a b : Deed) : Prop := a.task = b.task ∧ same a.now b.now

-- What concerns one silo, of all that has to do with the tasks of anybody.
def ofSilo {α : Type} (task : α → Task) (silo : Silo) (items : List α) : List α :=
  items.filter fun item => (task item).silo == silo

-- What is in the row of each silo.
abbrev View := Silo → Option Entry

def View.put (view : View) (silo : Silo) (left? : Option Entry) : View :=
  fun other => if other = silo then left? else view other

structure Step where
  deed : Deed
  upshot : Upshot

namespace Step

def task (step : Step) : Task := step.deed.task

def writes (steps : List Step) : Nat := steps.countP fun step => step.upshot.writes

def Alike (same : Instant → Instant → Prop) (a b : Step) : Prop :=
  a.task = b.task ∧ a.upshot.Alike same b.upshot

end Step

def Deed.upshot (deed : Deed) (view : View) : Upshot := deed.task.on deed.now (view deed.task.silo)

-- What comes of changes made one after the other, and what is in the rows in the end.
def story : List Deed → View → List Step × View
  | [], view => ([], view)
  | deed :: rest, view =>
    let upshot := deed.upshot view
    let (steps, left) := story rest (view.put deed.task.silo upshot.left?)
    (⟨deed, upshot⟩ :: steps, left)

variable {silo : Silo} {deeds first second : List Deed} {view view' : View}

theorem map_deed_story (deeds : List Deed) (view : View) : (story deeds view).1.map Step.deed = deeds := by
  induction deeds generalizing view with
  | nil => rfl
  | cons deed rest ih => rw [story, List.map_cons, ih]

-- Of the whole story a silo knows what concerns it, and that is a story of its own.
theorem story_ofSilo (h : view silo = view' silo) :
    ofSilo Step.task silo (story deeds view).1 = (story (ofSilo Deed.task silo deeds) view').1 ∧
      (story deeds view).2 silo = (story (ofSilo Deed.task silo deeds) view').2 silo := by
  induction deeds generalizing view view' with
  | nil => exact ⟨rfl, h⟩
  | cons deed rest ih =>
    by_cases hsilo : deed.task.silo = silo
    · subst hsilo
      have hupshot : deed.upshot view = deed.upshot view' := by rw [Deed.upshot, Deed.upshot, h]
      have hput : view.put deed.task.silo (deed.upshot view).left? deed.task.silo =
          view'.put deed.task.silo (deed.upshot view').left? deed.task.silo := by
        rw [View.put, View.put, if_pos rfl, if_pos rfl, hupshot]
      obtain ⟨hsteps, hleft⟩ := ih hput
      simp only [story, ofSilo, Step.task, List.filter_cons, beq_self_eq_true, if_true] at hsteps hleft ⊢
      exact ⟨by rw [hsteps, hupshot], hleft⟩
    · have hput : view.put deed.task.silo (deed.upshot view).left? silo = view' silo := by
        rw [View.put, if_neg (Ne.symm hsilo), h]
      have hbeq : (deed.task.silo == silo) = false := beq_eq_false_iff_ne.mpr hsilo
      obtain ⟨hsteps, hleft⟩ := ih hput
      simp only [story, ofSilo, Step.task, List.filter_cons, hbeq, Bool.false_eq_true, if_false] at hsteps hleft ⊢
      exact ⟨hsteps, hleft⟩

theorem story_alike (hsame : ∀ time, same time time) (hdeeds : List.Forall₂ (Deed.Like same) first second)
    (hview : ∀ silo, Option.Rel (Entry.Alike same) (view silo) (view' silo)) :
    List.Forall₂ (Step.Alike same) (story first view).1 (story second view').1 ∧
      ∀ silo, Option.Rel (Entry.Alike same) ((story first view).2 silo) ((story second view').2 silo) := by
  induction hdeeds generalizing view view' with
  | nil => exact ⟨.nil, hview⟩
  | @cons deed deed' rest rest' hlike _ ih =>
    obtain ⟨htask, hnow⟩ := hlike
    have hupshot : (deed.upshot view).Alike same (deed'.upshot view') := by
      rw [Deed.upshot, Deed.upshot, ← htask]
      exact Task.on_alike hsame hnow (hview _) _
    have hput : ∀ other, Option.Rel (Entry.Alike same) (view.put deed.task.silo (deed.upshot view).left? other)
        (view'.put deed'.task.silo (deed'.upshot view').left? other) := by
      intro other
      rw [View.put, View.put, ← htask]
      split
      · exact hupshot.entry
      · exact hview other
    obtain ⟨hsteps, hleft⟩ := ih hput
    exact ⟨.cons ⟨htask, hupshot⟩ hsteps, hleft⟩

-- The same is to be changed in every row, in the same order. Which row comes when is left open.
def Rearranged (same : Instant → Instant → Prop) (first second : List Deed) : Prop :=
  ∀ silo, List.Forall₂ (Deed.Like same) (ofSilo Deed.task silo first) (ofSilo Deed.task silo second)

theorem Step.count_map (silo : Silo) (writes : Bool) (steps : List Step) :
    (steps.map fun step => (step.task.silo, step.upshot.writes)).count (silo, writes) =
      ((ofSilo task silo steps).map fun step => step.upshot.writes).count writes := by
  rw [ofSilo, List.count, List.count, List.countP_map, List.countP_map, List.countP_filter]
  refine List.countP_congr fun step _ => ?_
  simp only [Function.comp_apply, beq_iff_eq, Prod.mk.injEq, Bool.and_eq_true]
  exact and_comm

-- Whatever the order of the silos is, each has its rows written as often.
theorem Step.writes_eq {first second : List Step}
    (h : ∀ silo, List.Forall₂ (Alike same) (ofSilo task silo first) (ofSilo task silo second)) :
    writes first = writes second := by
  have hperm : (first.map fun step => (step.task.silo, step.upshot.writes)).Perm
      (second.map fun step => (step.task.silo, step.upshot.writes)) := by
    refine List.perm_iff_count.mpr fun (silo, flag) => ?_
    have hsilo : List.Forall₂ (fun a b : Step => a.upshot.writes = b.upshot.writes) (ofSilo task silo first)
        (ofSilo task silo second) := (h silo).imp fun _ _ hstep => hstep.2.writes
    have hmap : (ofSilo task silo first).map (fun step => step.upshot.writes) =
        (ofSilo task silo second).map fun step => step.upshot.writes := by
      rw [← List.forall₂_eq_eq_eq, List.forall₂_map_left_iff, List.forall₂_map_right_iff]
      exact hsilo
    rw [count_map, count_map, hmap]
  have hcount := hperm.countP_eq Prod.snd
  rwa [List.countP_map, List.countP_map] at hcount

-- Changes of different silos may be made in any order.
theorem story_rearranged (hsame : ∀ time, same time time) (h : Rearranged same first second) (view : View) :
    (∀ silo, List.Forall₂ (Step.Alike same) (ofSilo Step.task silo (story first view).1)
      (ofSilo Step.task silo (story second view).1)) ∧
    (∀ silo, Option.Rel (Entry.Alike same) ((story first view).2 silo) ((story second view).2 silo)) ∧
    Step.writes (story first view).1 = Step.writes (story second view).1 := by
  have hview : ∀ silo, Option.Rel (Entry.Alike same) (view silo) (view silo) := by
    intro silo
    cases view silo with
    | none => exact .none
    | some entry => exact .some (.refl hsame entry)
  have halike := fun silo => story_alike hsame (h silo) hview
  have hsteps : ∀ silo, List.Forall₂ (Step.Alike same) (ofSilo Step.task silo (story first view).1)
      (ofSilo Step.task silo (story second view).1) := by
    intro silo
    rw [(story_ofSilo rfl).1, (story_ofSilo rfl).1]
    exact (halike silo).1
  refine ⟨hsteps, fun silo => ?_, Step.writes_eq hsteps⟩
  have hleft : ∀ deeds, (story deeds view).2 silo = (story (ofSilo Deed.task silo deeds) view).2 silo :=
    fun _ => (story_ofSilo rfl).2
  rw [hleft first, hleft second]
  exact (halike silo).2 silo

end Updater
end Muster
