import Muster.Proofs.Table.Answer
import Muster.Proofs.Table.FileTable
import Muster.Proofs.Table.Legible

-- The documents in a folder mirror the tables of a store, and every call keeps it so and gets one answer.
namespace Muster

namespace Deployment

theorem eq_of_lost_insertRow {table next : Deployment} {entry : Entry} {expected : Version}
    (h : table.insertRow entry expected = .ok (false, next)) : next = table := by
  obtain ⟨-, -, hwrite⟩ | hwrite | ⟨-, hwrite⟩ := table.insertRow_cases entry expected
  · cases hwrite.symm.trans h
  · exact (congrArg Prod.snd (Except.ok.inj (hwrite.symm.trans h))).symm
  · cases hwrite.symm.trans h

theorem eq_of_lost_updateRow {table next : Deployment} {entry : Entry} {etag : Etag} {expected : Version}
    (h : table.updateRow entry etag expected = .ok (false, next)) : next = table := by
  obtain ⟨-, -, hwrite⟩ | hwrite | ⟨-, hwrite⟩ := table.updateRow_cases entry etag expected
  · cases hwrite.symm.trans h
  · exact (congrArg Prod.snd (Except.ok.inj (hwrite.symm.trans h))).symm
  · cases hwrite.symm.trans h

end Deployment

namespace Store

variable {deployment other : String}

theorem find?_put_of_ne (store : Store) {table : Deployment} (h : other ≠ table.id) :
    (store.put table).find? other = store.find? other := by
  unfold put find?
  split
  · have hids : ((fun table : Deployment => table.id == other) ∘
        fun stored => if stored.id == table.id then table else stored) = fun table => table.id == other := by
      funext stored
      by_cases hid : stored.id = table.id <;> simp [hid]
    rw [List.find?_map, hids]
    cases hfind : store.tables.find? fun table => table.id == other with
    | none => rfl
    | some stored =>
      have hstored : stored.id = other := by simpa using List.find?_some hfind
      simp [hstored, h]
  · simp [List.find?_append, Ne.symm h]

theorem find?_remove (store : Store) (deployment other : String) :
    (store.remove deployment).find? other = if other = deployment then none else store.find? other := by
  rw [remove, find?, List.find?_filter]
  split
  · next h =>
    rw [List.find?_eq_none, h]
    simp
  · next h =>
    rw [find?]
    congr 1
    funext table
    by_cases hid : table.id = other <;> simp [hid, h]

theorem table_of_find? {store : Store} {table : Deployment} (h : store.find? deployment = some table) :
    store.table deployment = table := by
  rw [Store.table, h, Option.getD_some]

end Store

variable {files locked left : Files} {folder : String} {place : Place} {store : Store}

-- The documents in the folder show the tables of the store, and can show no others. As long as there is no folder there
-- are none.
structure Mirrors (files : Files) (folder : String) (store : Store) : Prop where
  legible : store.Legible
  missing : files.isThere (.ofText folder) = false → ∀ deployment, store.find? deployment = none
  shows : ∀ place, (files.makeFolders (.ofText folder)).2 = none → (files.made folder).Opens folder place →
    ∀ deployment, FileTable.Shows ((files.made folder).node? (place ++ [FileName.document deployment]))
      (store.find? deployment)

theorem mirrors_of_settled (h : files.Settled folder place) (hlegible : store.Legible)
    (hshows : ∀ deployment, FileTable.Shows (files.node? (place ++ [FileName.document deployment]))
      (store.find? deployment)) : Mirrors files folder store where
  legible := hlegible
  missing hgone := by
    rw [h.isThere] at hgone
    cases hgone
  shows other _ hopens := by
    rw [h.made_eq] at hopens ⊢
    rw [hopens.unique h.opens]
    exact hshows

theorem Place.concat_injective {place' : Place} {name name' : String} (h : place ++ [name] = place' ++ [name']) :
    name = name' := by
  simpa using (List.append_inj' h rfl).2

theorem Files.Locked.shows {deployment : String} (hlocked : files.Locked locked folder deployment place)
    (h : Mirrors files folder store) (other : String) :
    FileTable.Shows (locked.node? (place ++ [FileName.document other])) (store.find? other) := by
  rw [hlocked.document other]
  exact h.shows place hlocked.made hlocked.opens other

theorem Files.Locked.takes {deployment other : String} (hlocked : files.Locked locked folder deployment place)
    (h : files.Takes folder other) : locked.Takes folder other := h.alters hlocked.alters

theorem Files.Takes.settled {deployment : String} {places : List Place} (h : files.Takes folder deployment)
    (hsettled : files.Settled folder place) (halters : files.Alters left places) : left.Takes folder deployment :=
  h.alters (hsettled.made_eq.symm ▸ halters)

namespace FileTable

open Disk (Refused)

variable {α β : Type}

-- The work comes to the value and leaves the files as the store has them, unless the files refuse it.
def Agrees (work : Disk α) (files : Files) (folder deployment : String) (value : Except Fault α)
    (next : Store) : Prop :=
  Refused work files folder deployment ∨
  ∃ left, work.on files = (value, left) ∧ Mirrors left folder next ∧
    ∀ other, files.Takes folder other → left.Takes folder other

-- What follows the work may make something else of its value, and does nothing to the files.
theorem Agrees.bind {work : Disk α} {more : α → Disk β} {f : α → β} {deployment : String} {value : Except Fault α}
    {next : Store} (h : Agrees work files folder deployment value next)
    (hmore : ∀ a left, (more a).on left = (.ok (f a), left)) :
    Agrees (work >>= more) files folder deployment (value.map f) next := by
  refine h.imp (·.bind more) ?_
  rintro ⟨left, hwork, hleft⟩
  refine ⟨left, ?_, hleft⟩
  rw [Disk.on_bind, hwork]
  cases value with
  | error fault => rfl
  | ok a => exact hmore a left

theorem locked_load_cases {table : FileTable} {deployment : String}
    (hlocked : files.Locked locked table.folder deployment place) (h : Mirrors files table.folder store) :
    Refused table.load locked table.folder table.deployment ∨
      table.load.on locked = (.ok (store.table table.deployment), locked) :=
  load_cases hlocked.settled (fun _ => Store.id_of_find?) (h.legible table.deployment)
    (hlocked.shows h table.deployment)

theorem read_agrees (table : FileTable) (h : Mirrors files table.folder store) (f : Deployment → Except Fault α) :
    Agrees (table.read f) files table.folder table.deployment (f (store.table table.deployment)) store := by
  obtain hlock | ⟨place, locked, hlock, hlocked⟩ := table.lock_cases table.deployment files
  · exact Or.inl (hlock.bind _)
  obtain hload | hload := locked_load_cases hlocked h
  · exact Or.inl (.after hlock hlocked.takes (hload.bind _))
  · refine Or.inr ⟨locked, ?_, mirrors_of_settled hlocked.settled h.legible (hlocked.shows h), fun _ => hlocked.takes⟩
    simp only [read, Disk.on_bind, Disk.on_ofExcept, hlock, hload]

-- The table that a piece of work wants kept, if it does.
def kept? : Except Fault (Bool × Deployment) → Option Deployment
  | .ok (true, stored) => some stored
  | _ => none

theorem kept?_eq_some {result : Except Fault (Bool × Deployment)} {stored : Deployment} :
    kept? result = some stored ↔ result = .ok (true, stored) := by
  unfold kept?
  split <;> simp_all

theorem kept?_map {result : Except Fault Deployment} {stored : Deployment} :
    kept? (result.map fun next => (true, next)) = some stored ↔ result = .ok stored := by
  cases result <;> simp [kept?, Except.map]

-- The store after a piece of work on one of its tables.
structure Follows (store : Store) (deployment : String) (result : Except Fault (Bool × Deployment))
    (next : Store) : Prop where
  others : ∀ other ≠ deployment, next.find? other = store.find? other
  self : next.find? deployment = (kept? result).or (store.find? deployment)

theorem Follows.legible {deployment : String} {result : Except Fault (Bool × Deployment)} {next : Store}
    (h : Follows store deployment result next) (hlegible : store.Legible)
    (hkept : ∀ table ∈ kept? result, table.Legible) : next.Legible := by
  intro other table hfind
  by_cases hother : other = deployment
  · rw [hother, h.self] at hfind
    rcases Option.or_eq_some_iff.mp hfind with hfind | ⟨-, hfind⟩
    · exact hkept table hfind
    · exact hlegible deployment table hfind
  · rw [h.others other hother] at hfind
    exact hlegible other table hfind

section
variable {deployment : String} {result : Except Fault (Bool × Deployment)} {next : Store}
  (hlegible : next.Legible)
  (hsettled : locked.Settled folder place)
  (hshows : ∀ other, Shows (locked.node? (place ++ [FileName.document other])) (store.find? other))
include hlegible hsettled hshows

-- Without anything to keep the documents stay as they are, and so does the store.
theorem Follows.mirrors (h : Follows store deployment result next) (hkept : kept? result = none) :
    Mirrors locked folder next := by
  refine mirrors_of_settled hsettled hlegible fun other => ?_
  by_cases hother : other = deployment
  · rw [hother, h.self, hkept, Option.none_or]
    exact hshows deployment
  · rw [h.others other hother]
    exact hshows other

theorem Follows.mirrors_saved {stored : Deployment} (h : Follows store deployment (.ok (true, stored)) next)
    (halters : locked.Alters left [place ++ [FileName.draft deployment], place ++ [FileName.document deployment]])
    (hleft : left.node? (place ++ [FileName.document deployment]) = some (.file stored.document.toUTF8)) :
    Mirrors left folder next := by
  refine mirrors_of_settled (hsettled.alters halters) hlegible fun other => ?_
  by_cases hother : other = deployment
  · rw [hother, hleft, h.self]
    exact Or.inr rfl
  · rw [h.others other hother, halters.elsewhere]
    · exact hshows other
    · simp only [List.mem_cons, List.not_mem_nil, or_false, not_or]
      exact ⟨fun heq => FileName.draft_ne_document _ _ (Place.concat_injective heq).symm,
        fun heq => hother (FileName.document_injective (Place.concat_injective heq))⟩

end

theorem write_agrees (table : FileTable) (h : Mirrors files table.folder store)
    (f : Deployment → Except Fault (Bool × Deployment)) {next : Store}
    (hkept : ∀ kept ∈ kept? (f (store.table table.deployment)), kept.Legible)
    (hnext : Follows store table.deployment (f (store.table table.deployment)) next) :
    Agrees (table.write f) files table.folder table.deployment ((f (store.table table.deployment)).map Prod.fst)
      next := by
  obtain hlock | ⟨place, locked, hlock, hlocked⟩ := table.lock_cases table.deployment files
  · exact Or.inl (hlock.bind _)
  obtain hload | hload := locked_load_cases hlocked h
  · exact Or.inl (.after hlock hlocked.takes (hload.bind _))
  have hshows := hlocked.shows h
  have hlegible := hnext.legible h.legible hkept
  simp only [Agrees, Refused, write, Disk.on_bind, Disk.on_ofExcept, hlock, hload]
  cases hresult : f (store.table table.deployment) with
  | error fault =>
    rw [hresult] at hnext
    exact Or.inr ⟨locked, rfl, hnext.mirrors hlegible hlocked.settled hshows rfl, fun _ => hlocked.takes⟩
  | ok worked =>
    obtain ⟨won, stored⟩ := worked
    rw [hresult] at hnext
    cases won with
    | false => exact Or.inr ⟨locked, rfl, hnext.mirrors hlegible hlocked.settled hshows rfl, fun _ => hlocked.takes⟩
    | true =>
      simp only [if_true, Disk.on_bind]
      obtain ⟨htakes, fault, left, hsave⟩ | ⟨saved, hsave, halters, hsaved⟩ := save_cases hlocked.settled stored
      · exact Or.inl ⟨fun hall => htakes (hlocked.takes hall), fault, left, by rw [hsave]⟩
      · exact Or.inr ⟨saved, by rw [hsave]; rfl, hnext.mirrors_saved hlegible hlocked.settled hshows halters hsaved,
          fun _ hall => (hlocked.takes hall).settled hlocked.settled halters⟩

theorem mirrors_removed {deployment : String} (hlegible : store.Legible) (hsettled : left.Settled folder place)
    (hnode : left.node? (place ++ [FileName.document deployment]) = none)
    (hshows : ∀ other ≠ deployment, Shows (left.node? (place ++ [FileName.document other])) (store.find? other)) :
    Mirrors left folder (store.remove deployment) := by
  have hremoved : (store.remove deployment).Legible := by
    intro other table hfind
    rw [Store.find?_remove] at hfind
    split at hfind
    · cases hfind
    · exact hlegible other table hfind
  refine mirrors_of_settled hsettled hremoved fun other => ?_
  rw [Store.find?_remove]
  split
  · next hother =>
    rw [hother, hnode]
    exact Or.inr rfl
  · next hother => exact hshows other hother

theorem delete_agrees (table : FileTable) (h : Mirrors files table.folder store) (deployment : String) :
    Agrees (table.delete deployment) files table.folder deployment (.ok ()) (store.remove deployment) := by
  obtain ⟨hthere, hdelete⟩ | ⟨-, ⟨hnot, fault, left, hdelete, -⟩ | ⟨-, place, left, hdelete, hworked, hnode⟩⟩ :=
    table.delete_spec deployment files
  · have hsame : ∀ other, (store.remove deployment).find? other = store.find? other := by
      intro other
      rw [Store.find?_remove, h.missing hthere other, ite_self]
    refine Or.inr ⟨files, hdelete, ⟨?_, fun hgone other => ?_, fun place hmade hopens other => ?_⟩, fun _ => id⟩
    · intro other table hfind
      exact h.legible other table (hsame other ▸ hfind)
    · rw [hsame, h.missing hgone]
    · rw [hsame]
      exact h.shows place hmade hopens other
  · exact Or.inl ⟨fun htakes => hnot ⟨htakes.locks, htakes.document⟩, fault, left, hdelete⟩
  · refine Or.inr ⟨left, hdelete, ?_, fun _ hall => hall.alters hworked.alters⟩
    refine mirrors_removed h.legible hworked.settled hnode fun other hother => ?_
    rw [hworked.document_of_ne hother]
    exact h.shows place hworked.made hworked.opens other

end FileTable

namespace Store

variable {deployment : String}

-- Work that fails on a new table leaves a store alone that has no table of the deployment.
theorem write_spec {change : Deployment → Except Fault (α × Deployment)}
    (hnew : change (.new deployment) = .error (.notInitialized deployment))
    (hid : ∀ table value next, change table = .ok (value, next) → next.id = table.id) (store : Store) :
    (store.write deployment change).1 = (change (store.table deployment)).map Prod.fst ∧
    (∀ other ≠ deployment, (store.write deployment change).2.find? other = store.find? other) ∧
    (store.write deployment change).2.find? deployment =
      ((change (store.table deployment)).toOption.map Prod.snd).or (store.find? deployment) := by
  cases hfind : store.find? deployment with
  | none =>
    have htable : store.table deployment = .new deployment := by rw [Store.table, hfind, Option.getD_none]
    simp [write, htable, hnew, hfind, Except.map, Except.toOption]
  | some table =>
    rw [table_of_find? hfind]
    cases hchange : change table with
    | error fault => simp [write, hchange, hfind, Except.map, Except.toOption]
    | ok result =>
      obtain ⟨value, next⟩ := result
      have hnext : next.id = deployment := (hid table value next hchange).trans (id_of_find? hfind)
      have hwrite : store.write deployment change = (.ok value, store.put next) := by
        simp only [write, hfind, hchange]
      rw [hwrite]
      refine ⟨rfl, fun other hother => find?_put_of_ne store (hnext ▸ hother), ?_⟩
      rw [← hnext, find?_put]
      rfl

open FileTable (Follows kept?)

theorem find?_eq_table {store : Store} (h : store.table deployment ≠ .new deployment) :
    store.find? deployment = some (store.table deployment) := by
  cases hfind : store.find? deployment with
  | none => exact absurd (by rw [Store.table, hfind, Option.getD_none]) h
  | some table => rw [table_of_find? hfind]

theorem follows_write {change : Deployment → Except Fault (Bool × Deployment)}
    (hnew : change (.new deployment) = .error (.notInitialized deployment))
    (hid : ∀ table won next, change table = .ok (won, next) → next.id = table.id)
    (hlost : ∀ table next, change table = .ok (false, next) → next = table) (store : Store) :
    Follows store deployment (change (store.table deployment)) (store.write deployment change).2 := by
  obtain ⟨-, hothers, hself⟩ := store.write_spec hnew hid
  refine ⟨hothers, ?_⟩
  rw [hself]
  cases hchange : change (store.table deployment) with
  | error fault => rfl
  | ok result =>
    obtain ⟨won, next⟩ := result
    cases won with
    | true => rfl
    | false =>
      have hfound : store.table deployment ≠ .new deployment := by
        intro heq
        rw [heq, hnew] at hchange
        cases hchange
      rw [hlost _ _ hchange, find?_eq_table hfound]
      rfl

theorem follows_mergeAlive (store : Store) (deployment : String) (entry : Entry) :
    Follows store deployment (((store.table deployment).mergeAlive entry).map fun next => (true, next))
      (store.write deployment fun table => (table.mergeAlive entry).map fun next => ((), next)).2 := by
  have hnew : ((Deployment.new deployment).mergeAlive entry).map (fun next => ((), next)) =
      .error (.notInitialized deployment) := rfl
  obtain ⟨-, hothers, hself⟩ := store.write_spec hnew fun _ _ _ => Deployment.id_of_map_mergeAlive
  refine ⟨hothers, ?_⟩
  rw [hself]
  cases (store.table deployment).mergeAlive entry with
  | error fault => rfl
  | ok next => rfl

theorem follows_establish (store : Store) (deployment : String) (drawn : UInt64) :
    Follows store deployment (.ok ((store.table deployment).establish drawn))
      (store.put ((store.table deployment).establish drawn).2) := by
  have hid : ((store.table deployment).establish drawn).2.id = deployment :=
    (Deployment.id_establish _ drawn).trans (store.id_table deployment)
  refine ⟨fun other hother => find?_put_of_ne store (hid.symm ▸ hother), ?_⟩
  have hput := store.find?_put ((store.table deployment).establish drawn).2
  rw [hid] at hput
  rw [hput]
  cases hversion : (store.table deployment).version with
  | none => simp [Deployment.establish, hversion, kept?]
  | some version =>
    have hfound : store.table deployment ≠ .new deployment := by
      intro heq
      rw [heq] at hversion
      cases hversion
    simp [Deployment.establish, hversion, kept?, find?_eq_table hfound]

end Store
namespace FileTable

-- A call on the files comes to what it comes to on the store that they mirror.
theorem act_agrees (h : Mirrors files folder store) (deployment : String) (drawn : UInt64) (call : Call)
    (hcall : call.Legible) :
    Agrees (act ⟨folder, deployment⟩ drawn call) files folder (target deployment call)
      (store.answer deployment drawn call).1 (store.answer deployment drawn call).2 := by
  have hlegible := h.legible.table deployment
  cases call with
  | establish create =>
    cases create with
    | false => exact read_agrees ⟨folder, deployment⟩ h _
    | true =>
      have hfollows := store.follows_establish deployment drawn
      have hkept : ∀ kept ∈ kept? (.ok ((store.table deployment).establish drawn)), kept.Legible := by
        intro kept hkept
        have hestablished := hlegible.establish drawn
        rwa [Except.ok.inj (kept?_eq_some.mp hkept)] at hestablished
      exact (write_agrees ⟨folder, deployment⟩ h _ hkept hfollows).bind fun _ _ => rfl
  | delete other => exact delete_agrees ⟨folder, deployment⟩ h other
  | readRow silo => exact read_agrees ⟨folder, deployment⟩ h _
  | readAll => exact read_agrees ⟨folder, deployment⟩ h _
  | insertRow entry expected =>
    have hid : ∀ table won next, Deployment.insertRow table entry expected = .ok (won, next) → next.id = table.id :=
      fun _ _ _ => Deployment.id_of_insertRow
    rw [Store.answer, (store.write_spec rfl hid).1]
    exact write_agrees ⟨folder, deployment⟩ h _ (fun kept hkept => hlegible.insertRow hcall (kept?_eq_some.mp hkept))
      (store.follows_write rfl hid fun _ _ => Deployment.eq_of_lost_insertRow)
  | updateRow entry etag expected =>
    have hid : ∀ table won next, Deployment.updateRow table entry etag expected = .ok (won, next) →
        next.id = table.id := fun _ _ _ => Deployment.id_of_updateRow
    rw [Store.answer, (store.write_spec rfl hid).1]
    exact write_agrees ⟨folder, deployment⟩ h _ (fun kept hkept => hlegible.updateRow hcall (kept?_eq_some.mp hkept))
      (store.follows_write rfl hid fun _ _ => Deployment.eq_of_lost_updateRow)
  | mergeAlive entry =>
    have hvalue : (store.answer deployment drawn (.mergeAlive entry)).1 =
        ((((store.table deployment).mergeAlive entry).map fun stored => (true, stored)).map Prod.fst).map
          fun _ => () := by
      refine (store.write_spec rfl fun _ _ _ => Deployment.id_of_map_mergeAlive).1.trans ?_
      cases (store.table deployment).mergeAlive entry <;> rfl
    rw [hvalue]
    have hfollows := store.follows_mergeAlive deployment entry
    have hkept : ∀ kept ∈ kept? (((store.table deployment).mergeAlive entry).map fun next => (true, next)),
        kept.Legible := fun kept hkept => hlegible.mergeAlive hcall (kept?_map.mp hkept)
    exact (write_agrees ⟨folder, deployment⟩ h _ hkept hfollows).bind fun _ _ => rfl

end FileTable
end Muster
