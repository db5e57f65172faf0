import Muster.Proofs.Json.Document
import Muster.Proofs.Table.Answer
import Muster.Proofs.Table.Folder
import Muster.Table.FileTable

-- What the steps of a call do to the files: they end in a fault of the files where those do not take a
-- file of the deployment, and else they change nothing but files of it.
namespace Muster

namespace Disk

variable {α β : Type}

def on (work : Disk α) (files : Files) : Except Fault α × Files := work.run.run files

theorem on_bind (work : Disk α) (next : α → Disk β) (files : Files) :
    (work >>= next).on files =
      match work.on files with
      | (.ok value, files) => (next value).on files
      | (.error fault, files) => (.error fault, files) := by
  simp only [on, ExceptT.run_bind, StateT.run_bind]
  cases hwork : work.run.run files with
  | mk result files => cases result <;> rfl

theorem on_get (files : Files) : (get : Disk Files).on files = (.ok files, files) := rfl

theorem on_set (files' files : Files) : (set files' : Disk PUnit).on files = (.ok ⟨⟩, files') := rfl

theorem on_ofExcept (result : Except Fault α) (files : Files) : (ofExcept result).on files = (result, files) := by
  cases result <;> rfl

theorem on_change (action : Files → Except IoFault Files) (files : Files) :
    (change action).on files =
      match action files with
      | .ok files => (.ok (), files)
      | .error fault => (.error (.io fault), files) := by
  simp only [change, on_bind, on_get]
  cases action files <;> rfl

theorem on_makeFolders (path : Path) (files : Files) :
    (makeFolders path).on files =
      match files.makeFolders path with
      | (files, none) => (.ok (), files)
      | (files, some fault) => (.error (.io fault), files) := by
  simp only [makeFolders, on_bind, on_get, on_set]
  cases files.makeFolders path with
  | mk files fault? => cases fault? <;> rfl

end Disk

namespace Files

variable {files files' : Files} {folder : String} {place : Place} {places : List Place}

-- What there is once a folder has been made.
def made (files : Files) (folder : String) : Files := (files.makeFolders (.ofText folder)).1

-- The folder is there, and so is all that its path leads through.
structure Settled (files : Files) (folder : String) (place : Place) : Prop where
  opens : files.Opens folder place
  made : files.makeFolders (.ofText folder) = (files, none)

theorem Settled.alters (h : files.Settled folder place) (halters : files.Alters files' places) :
    files'.Settled folder place where
  opens := h.opens.keeps halters.keeps
  made := makeFolders_again h.made halters.keeps

theorem Settled.made_eq (h : files.Settled folder place) : files.made folder = files := congrArg Prod.fst h.made

theorem Settled.isThere (h : files.Settled folder place) : files.isThere (.ofText folder) = true :=
  h.opens.isThere (fits_of_makeFolders h.made)

-- The folder can be made, and the files of a deployment can be written in it then.
structure Takes (files : Files) (folder deployment : String) : Prop where
  made : (files.makeFolders (.ofText folder)).2 = none
  lock : (files.made folder).Free (.inside folder (FileName.lock deployment))
  draft : (files.made folder).Free (.inside folder (FileName.draft deployment))
  document : (files.made folder).Free (.inside folder (FileName.document deployment))

theorem takes_iff (files : Files) (folder deployment : String) :
    files.Takes folder deployment ↔ (files.makeFolders (.ofText folder)).2 = none ∧
      (files.made folder).Free (.inside folder (FileName.lock deployment)) ∧
      (files.made folder).Free (.inside folder (FileName.draft deployment)) ∧
      (files.made folder).Free (.inside folder (FileName.document deployment)) :=
  ⟨fun h => ⟨h.made, h.lock, h.draft, h.document⟩, fun ⟨made, lock, draft, document⟩ => ⟨made, lock, draft, document⟩⟩

instance (files : Files) (folder deployment : String) : Decidable (files.Takes folder deployment) :=
  decidable_of_iff _ (files.takes_iff folder deployment).symm

theorem Takes.alters {deployment : String} (h : files.Takes folder deployment)
    (halters : (files.made folder).Alters files' places) : files'.Takes folder deployment := by
  have hmade := makeFolders_again (Prod.ext rfl h.made) halters.keeps
  have hsame : files'.made folder = files' := congrArg Prod.fst hmade
  refine ⟨congrArg Prod.snd hmade, ?_, ?_, ?_⟩
  · rw [hsame, halters.free_iff]
    exact h.lock
  · rw [hsame, halters.free_iff]
    exact h.draft
  · rw [hsame, halters.free_iff]
    exact h.document

-- The folder can be made, and the lock of a deployment can be taken in it then.
structure Locks (files : Files) (folder deployment : String) : Prop where
  made : (files.makeFolders (.ofText folder)).2 = none
  lock : (files.made folder).Free (.inside folder (FileName.lock deployment))

theorem Takes.locks {deployment : String} (h : files.Takes folder deployment) : files.Locks folder deployment :=
  ⟨h.made, h.lock⟩

-- The lock of a deployment has been taken in the folder.
structure Locked (files locked : Files) (folder deployment : String) (place : Place) : Prop where
  made : (files.makeFolders (.ofText folder)).2 = none
  opens : (files.made folder).Opens folder place
  alters : (files.made folder).Alters locked [place ++ [FileName.lock deployment]]
  settled : locked.Settled folder place

section
variable {locked left : Files} {deployment : String}

-- What a call for a deployment leaves behind, unless the files have failed: the folder is there, and only
-- files of the deployment have changed.
structure Worked (files left : Files) (folder deployment : String) (place : Place) : Prop where
  made : (files.makeFolders (.ofText folder)).2 = none
  opens : (files.made folder).Opens folder place
  settled : left.Settled folder place
  alters : (files.made folder).Alters left [place ++ [FileName.lock deployment],
    place ++ [FileName.draft deployment], place ++ [FileName.document deployment]]

theorem Locked.worked (h : files.Locked locked folder deployment place) :
    files.Worked locked folder deployment place :=
  ⟨h.made, h.opens, h.settled, h.alters.mono (by simp)⟩

theorem Locked.document (h : files.Locked locked folder deployment place) (other : String) :
    locked.node? (place ++ [FileName.document other]) =
      (files.made folder).node? (place ++ [FileName.document other]) := by
  refine h.alters.elsewhere _ fun hmem => ?_
  simp only [List.mem_singleton, List.append_cancel_left_eq, List.cons.injEq, and_true] at hmem
  exact FileName.lock_ne_document _ _ hmem.symm

theorem Worked.alters_more (h : files.Worked locked folder deployment place)
    (halters : locked.Alters left [place ++ [FileName.draft deployment], place ++ [FileName.document deployment]]) :
    files.Worked left folder deployment place :=
  ⟨h.made, h.opens, h.settled.alters halters, (h.alters.trans halters).mono (by simp)⟩

theorem Worked.document_of_ne (h : files.Worked left folder deployment place) {other : String}
    (hother : other ≠ deployment) : left.node? (place ++ [FileName.document other]) =
      (files.made folder).node? (place ++ [FileName.document other]) := by
  refine h.alters.elsewhere _ fun hmem => ?_
  simp only [List.mem_cons, List.not_mem_nil, or_false, List.append_cancel_left_eq, List.cons.injEq, and_true] at hmem
  obtain hlock | hdraft | hdocument := hmem
  · exact FileName.lock_ne_document _ _ hlock.symm
  · exact FileName.draft_ne_document _ _ hdraft.symm
  · exact hother (FileName.document_injective hdocument)

end

end Files

namespace Disk

variable {α β : Type} {work : Disk α} {next : α → Disk β} {files left : Files} {folder deployment : String}

-- The work ends in a fault of the files, which do not take the files of a deployment.
def Refused (work : Disk α) (files : Files) (folder deployment : String) : Prop :=
  ¬files.Takes folder deployment ∧ ∃ fault left, work.on files = (.error (.io fault), left)

theorem Refused.bind (h : Refused work files folder deployment) (next : α → Disk β) :
    Refused (work >>= next) files folder deployment := by
  obtain ⟨htakes, fault, left, hwork⟩ := h
  exact ⟨htakes, fault, left, by rw [on_bind, hwork]⟩

-- The files have not failed.
def Sound (value : Except Fault α) : Prop := ∀ fault, value ≠ .error (.io fault)

theorem sound_ok (value : α) : Sound (.ok value) := nofun

-- The files refuse the work, or they do not fail in it and take afterwards what they have taken before.
def Managed (work : Disk α) (files : Files) (folder deployment : String) (after : Files → Prop) : Prop :=
  Refused work files folder deployment ∨
  ∃ value left, work.on files = (value, left) ∧ Sound value ∧ after left ∧
    ∀ other, files.Takes folder other → left.Takes folder other

theorem Refused.after {value : α} (hwork : work.on files = (.ok value, left))
    (htakes : files.Takes folder deployment → left.Takes folder deployment)
    (h : Refused (next value) left folder deployment) : Refused (work >>= next) files folder deployment := by
  obtain ⟨hrefused, fault, end', hnext⟩ := h
  refine ⟨fun hall => hrefused (htakes hall), fault, end', ?_⟩
  rw [on_bind, hwork]
  exact hnext

theorem Managed.bind {between after : Files → Prop} (h : Managed work files folder deployment between)
    (hnext : ∀ value left, between left → Managed (next value) left folder deployment after)
    (hfail : ∀ left, between left → after left) : Managed (work >>= next) files folder deployment after := by
  obtain hrefused | ⟨value, left, hwork, hsound, hbetween, htakes⟩ := h
  · exact Or.inl (hrefused.bind next)
  cases value with
  | error fault =>
    refine Or.inr ⟨.error fault, left, by rw [on_bind, hwork], fun io hio => ?_, hfail left hbetween, htakes⟩
    exact hsound io (by rw [Except.error.inj hio])
  | ok value =>
    obtain hrefused | ⟨result, end', hresult, hsound, hafter, htakes'⟩ := hnext value left hbetween
    · exact Or.inl (.after hwork (htakes deployment) hrefused)
    · refine Or.inr ⟨result, end', ?_, hsound, hafter, fun other hall => htakes' other (htakes other hall)⟩
      rw [on_bind, hwork]
      exact hresult

theorem Managed.ofExcept {value : Except Fault α} {after : Files → Prop} (hsound : Sound value) (hafter : after files) :
    Managed (ofExcept value) files folder deployment after :=
  Or.inr ⟨value, files, on_ofExcept value files, hsound, hafter, fun _ => id⟩

theorem Managed.pure {value : α} {after : Files → Prop} (hafter : after files) :
    Managed (pure value) files folder deployment after := .ofExcept (sound_ok value) hafter

end Disk

namespace FileTable

variable {table : FileTable} {files : Files} {place : Place}

theorem path_eq (table : FileTable) (name : String) : table.path name = .inside table.folder name := rfl

theorem lock_spec (table : FileTable) (deployment : String) (files : Files) :
    (¬files.Locks table.folder deployment ∧
      ∃ fault, (table.lock deployment).on files = (.error (.io fault), files.made table.folder)) ∨
    files.Locks table.folder deployment ∧ ∃ place locked, (table.lock deployment).on files = (.ok (), locked) ∧
      files.Locked locked table.folder deployment place := by
  rw [lock, Disk.on_bind, Disk.on_makeFolders]
  cases hmake : files.makeFolders (.ofText table.folder) with
  | mk made fault? =>
    have hmade : files.made table.folder = made := congrArg Prod.fst hmake
    cases fault? with
    | some fault =>
      refine Or.inl ⟨fun hlocks => ?_, fault, by rw [hmade]⟩
      cases hlocks.made.symm.trans (congrArg Prod.snd hmake)
    | none =>
      simp only [Disk.on_change, path_eq]
      obtain ⟨hfree, fault, htouch⟩ | ⟨hfree, locked, place, htouch, hopens, halters⟩ :=
        made.touch_cases (FileName.plain_lock deployment)
      · exact Or.inl ⟨fun hlocks => hfree (hmade ▸ hlocks.lock), fault, by rw [htouch, hmade]⟩
      · have hagain := Files.makeFolders_again hmake halters.keeps
        exact Or.inr ⟨⟨congrArg Prod.snd hmake, hmade ▸ hfree⟩, place, locked, by rw [htouch],
          congrArg Prod.snd hmake, hmade ▸ hopens, hmade ▸ halters, hopens.keeps halters.keeps, hagain⟩

theorem lock_cases (table : FileTable) (deployment : String) (files : Files) :
    Disk.Refused (table.lock deployment) files table.folder deployment ∨
    ∃ place locked, (table.lock deployment).on files = (.ok (), locked) ∧
      files.Locked locked table.folder deployment place := by
  obtain ⟨hlocks, fault, hlock⟩ | ⟨-, hlock⟩ := table.lock_spec deployment files
  · exact Or.inl ⟨fun htakes => hlocks htakes.locks, fault, _, hlock⟩
  · exact Or.inr hlock

-- A file shows the table of a deployment, and no file shows that there is none. A folder in the place of
-- the file shows nothing.
def Shows (node : Option Node) (stored? : Option Deployment) : Prop :=
  node = some .folder ∨ node = stored?.map fun stored => .file stored.document.toUTF8

-- What a document that has been read comes to.
def loaded (table : FileTable) : Except IoFault ByteArray → Except Fault Deployment
  | .error .notFound => .ok (.new table.deployment)
  | .error fault => .error (.io fault)
  | .ok bytes =>
    match Deployment.ofBytes? bytes with
    | none => .error (.corrupted .unreadable)
    | some stored =>
      if stored.id = table.deployment then .ok stored
      else .error (.corrupted (.foreign (table.documentPath table.deployment) stored.id))

theorem on_load (table : FileTable) (files : Files) :
    table.load.on files =
      (table.loaded (files.read (.inside table.folder (FileName.document table.deployment))), files) := by
  simp only [load, Disk.on_bind, Disk.on_get, path_eq]
  generalize files.read (.inside table.folder (FileName.document table.deployment)) = result
  cases result with
  | error fault => cases fault <;> rfl
  | ok bytes =>
    dsimp only [loaded]
    generalize Deployment.ofBytes? bytes = stored?
    cases stored? with
    | none => rfl
    | some stored =>
      dsimp only
      split <;> rfl

theorem load_cases (h : files.Settled table.folder place) {stored? : Option Deployment}
    (hid : ∀ stored ∈ stored?, stored.id = table.deployment) (hlegible : ∀ stored ∈ stored?, stored.Legible)
    (hshows : Shows (files.node? (place ++ [FileName.document table.deployment])) stored?) :
    Disk.Refused table.load files table.folder table.deployment ∨
    table.load.on files = (.ok (stored?.getD (.new table.deployment)), files) := by
  rw [Disk.Refused, on_load]
  obtain ⟨hfree, fault, hfault, hread⟩ | ⟨hnode, hread⟩ | ⟨bytes, hnode, hread⟩ :=
    Files.read_cases h.opens (FileName.plain_document table.deployment)
  · refine Or.inl ⟨fun htakes => hfree ?_, fault, files, ?_⟩
    · rw [← h.made_eq]
      exact htakes.document
    · rw [hread]
      cases fault <;> first | rfl | exact absurd rfl hfault
  · refine Or.inr ?_
    rw [hread]
    rcases hshows with hfolder | hshows
    · cases hfolder.symm.trans hnode
    · rw [hnode] at hshows
      rw [Option.map_eq_none_iff.mp hshows.symm]
      rfl
  · refine Or.inr ?_
    rw [hread]
    rcases hshows with hfolder | hshows
    · cases hfolder.symm.trans hnode
    · obtain ⟨stored, hstored, hfile⟩ := Option.map_eq_some_iff.mp (hshows.symm.trans hnode)
      obtain rfl : stored.document.toUTF8 = bytes := by simpa using hfile
      have hread : stored.reread = stored := Deployment.reread_eq_self_iff.mpr (hlegible stored hstored)
      simp only [loaded, stored.ofBytes?_document, hread, hstored, Option.getD_some]
      rw [if_pos (hid stored hstored)]

theorem save_spec (h : files.Settled table.folder place) (stored : Deployment) :
    (¬(files.Free (.inside table.folder (FileName.draft table.deployment)) ∧
        files.Free (.inside table.folder (FileName.document table.deployment))) ∧
      ∃ fault left, (table.save stored).on files = (.error (.io fault), left) ∧
        files.Alters left [place ++ [FileName.draft table.deployment]]) ∨
    (files.Free (.inside table.folder (FileName.draft table.deployment)) ∧
        files.Free (.inside table.folder (FileName.document table.deployment))) ∧
      ∃ saved, (table.save stored).on files = (.ok (), saved) ∧
        files.Alters saved
          [place ++ [FileName.draft table.deployment], place ++ [FileName.document table.deployment]] ∧
        saved.node? (place ++ [FileName.document table.deployment]) = some (.file stored.document.toUTF8) := by
  have hdraft := FileName.plain_draft table.deployment
  have hdocument := FileName.plain_document table.deployment
  simp only [save, Disk.on_bind, Disk.on_change, path_eq]
  obtain ⟨hfree, fault, hwrite⟩ | ⟨-, drafted, hwrite, hdrafted, hfile⟩ :=
    Files.write_cases h.opens hdraft stored.document.toUTF8
  · exact Or.inl ⟨fun hboth => hfree hboth.1, fault, files, by rw [hwrite], .refl files _⟩
  rw [hwrite]
  dsimp only
  obtain ⟨hfree, fault, hrename⟩ | ⟨hfree, saved, hrename, halters, hsaved⟩ :=
    Files.rename_cases (h.opens.keeps hdrafted.keeps) hdraft hdocument hfile
  · refine Or.inl ⟨fun hboth => hfree ?_, fault, drafted, by rw [hrename], hdrafted⟩
    rwa [hdrafted.free_iff, hdrafted.free_iff]
  · rw [hdrafted.free_iff, hdrafted.free_iff] at hfree
    refine Or.inr ⟨hfree, saved, by rw [hrename], ⟨fun other hother => ?_, fun other => ?_⟩, hsaved⟩
    · rw [halters.elsewhere other hother, hdrafted.elsewhere]
      exact fun hmem => hother (List.mem_cons.mpr (Or.inl (List.mem_singleton.mp hmem)))
    · exact (halters.folders other).trans (hdrafted.folders other)

theorem save_cases (h : files.Settled table.folder place) (stored : Deployment) :
    Disk.Refused (table.save stored) files table.folder table.deployment ∨
    ∃ saved, (table.save stored).on files = (.ok (), saved) ∧
      files.Alters saved
        [place ++ [FileName.draft table.deployment], place ++ [FileName.document table.deployment]] ∧
      saved.node? (place ++ [FileName.document table.deployment]) = some (.file stored.document.toUTF8) := by
  obtain ⟨hfree, fault, left, hsave, -⟩ | ⟨-, hsave⟩ := save_spec h stored
  · refine Or.inl ⟨fun htakes => hfree ?_, fault, left, hsave⟩
    rw [← h.made_eq]
    exact ⟨htakes.draft, htakes.document⟩
  · exact Or.inr hsave

theorem delete_spec (table : FileTable) (deployment : String) (files : Files) :
    (files.isThere (.ofText table.folder) = false ∧ (table.delete deployment).on files = (.ok (), files)) ∨
    (files.isThere (.ofText table.folder) = true ∧
      ((¬(files.Locks table.folder deployment ∧
          (files.made table.folder).Free (.inside table.folder (FileName.document deployment))) ∧
        ∃ fault left, (table.delete deployment).on files = (.error (.io fault), left) ∧
          (left = files.made table.folder ∨ ∃ place, files.Locked left table.folder deployment place)) ∨
      (files.Locks table.folder deployment ∧
          (files.made table.folder).Free (.inside table.folder (FileName.document deployment))) ∧
        ∃ place left, (table.delete deployment).on files = (.ok (), left) ∧
          files.Worked left table.folder deployment place ∧
          left.node? (place ++ [FileName.document deployment]) = none)) := by
  simp only [delete, Disk.on_bind, Disk.on_get]
  cases hthere : files.isThere (.ofText table.folder) with
  | false => exact Or.inl ⟨rfl, rfl⟩
  | true =>
    refine Or.inr ⟨rfl, ?_⟩
    simp only [if_true, Disk.on_bind, Disk.on_get, path_eq]
    obtain ⟨hlocks, fault, hlock⟩ | ⟨hlocks, place, locked, hlock, hlocked⟩ := table.lock_spec deployment files
    · exact Or.inl ⟨fun hboth => hlocks hboth.1, fault, _, by rw [hlock], Or.inl rfl⟩
    rw [hlock]
    have hfree := hlocked.alters.free_iff (.inside table.folder (FileName.document deployment))
    obtain ⟨hnot, fault, hfault, hremove⟩ | ⟨hfile, ⟨hnode, hremove⟩ | ⟨bytes, hnode, hremove⟩⟩ :=
      Files.remove_cases hlocked.settled.opens (FileName.plain_document deployment)
    · refine Or.inl ⟨fun hboth => hnot (hfree.mpr hboth.2), fault, locked, ?_, Or.inr ⟨place, hlocked⟩⟩
      simp only [hremove]
      rfl
    · exact Or.inr ⟨⟨hlocks, hfree.mp hfile⟩, place, locked, by simp only [hremove]; rfl, hlocked.worked, hnode⟩
    · have halters := Files.alters_unset (show locked.node? (place ++ [FileName.document deployment]) ≠ some .folder
        by simp [hnode])
      refine Or.inr ⟨⟨hlocks, hfree.mp hfile⟩, place, _, by simp only [hremove]; rfl,
        hlocked.worked.alters_more (halters.mono (by simp)), ?_⟩
      rw [Files.node?_unset (by simp), if_pos rfl]

-- No call meets a fault of the files if these take the deployment.
section Managed

open Disk (Sound Managed)

variable {α : Type}

theorem lock_managed (table : FileTable) (deployment : String) (files : Files) :
    Managed (table.lock deployment) files table.folder deployment fun left =>
      ∃ place, left.Settled table.folder place := by
  obtain hrefused | ⟨place, locked, hlock, hlocked⟩ := table.lock_cases deployment files
  · exact Or.inl hrefused
  · exact Or.inr ⟨.ok (), locked, hlock, nofun, ⟨place, hlocked.settled⟩, fun _ hall => hall.alters hlocked.alters⟩

theorem load_managed (h : files.Settled table.folder place) :
    Managed table.load files table.folder table.deployment fun left => left.Settled table.folder place := by
  obtain ⟨hfree, fault, hfault, hread⟩ | ⟨-, hread⟩ | ⟨bytes, -, hread⟩ :=
    Files.read_cases h.opens (FileName.plain_document table.deployment)
  · refine Or.inl ⟨fun htakes => hfree ?_, fault, files, ?_⟩
    · rw [← h.made_eq]
      exact htakes.document
    · rw [on_load, hread]
      cases fault <;> first | rfl | exact absurd rfl hfault
  · refine Or.inr ⟨_, files, on_load table files, ?_, h, fun _ => id⟩
    rw [hread]
    nofun
  · refine Or.inr ⟨_, files, on_load table files, ?_, h, fun _ => id⟩
    rw [hread, loaded]
    split
    · nofun
    · split <;> nofun

theorem save_managed (h : files.Settled table.folder place) (stored : Deployment) :
    Managed (table.save stored) files table.folder table.deployment fun left => left.Settled table.folder place := by
  obtain hrefused | ⟨saved, hsave, halters, -⟩ := save_cases h stored
  · exact Or.inl hrefused
  · exact Or.inr ⟨.ok (), saved, hsave, nofun, h.alters halters,
      fun _ hall => hall.alters (h.made_eq.symm ▸ halters)⟩

theorem read_managed (table : FileTable) {look : Deployment → Except Fault α} (hlook : ∀ stored, Sound (look stored))
    (files : Files) : Managed (table.read look) files table.folder table.deployment fun _ => True := by
  refine (table.lock_managed table.deployment files).bind ?_ fun _ _ => trivial
  rintro - left ⟨place, hsettled⟩
  exact (load_managed hsettled).bind (fun stored _ _ => .ofExcept (hlook stored) trivial) fun _ _ => trivial

theorem write_managed (table : FileTable) {change : Deployment → Except Fault (Bool × Deployment)}
    (hchange : ∀ stored, Sound (change stored)) (files : Files) :
    Managed (table.write change) files table.folder table.deployment fun _ => True := by
  refine (table.lock_managed table.deployment files).bind ?_ fun _ _ => trivial
  rintro - locked ⟨place, hsettled⟩
  refine (load_managed hsettled).bind (fun stored loaded hsettled => ?_) fun _ _ => trivial
  have hresult : Managed (Disk.ofExcept (change stored)) loaded table.folder table.deployment fun left =>
      left.Settled table.folder place := .ofExcept (hchange stored) hsettled
  refine hresult.bind ?_ fun _ _ => trivial
  rintro ⟨won, next⟩ left hsettled
  cases won with
  | false => exact .pure trivial
  | true => exact (save_managed hsettled next).bind (fun _ _ _ => .pure trivial) fun _ _ => trivial

theorem delete_managed (table : FileTable) (deployment : String) (files : Files) :
    Managed (table.delete deployment) files table.folder deployment fun _ => True := by
  obtain ⟨-, hdelete⟩ | ⟨-, ⟨hnot, fault, left, hdelete, -⟩ | ⟨-, place, left, hdelete, hworked, -⟩⟩ :=
    table.delete_spec deployment files
  · exact Or.inr ⟨.ok (), files, hdelete, nofun, trivial, fun _ => id⟩
  · exact Or.inl ⟨fun htakes => hnot ⟨htakes.locks, htakes.document⟩, fault, left, hdelete⟩
  · exact Or.inr ⟨.ok (), left, hdelete, nofun, trivial, fun _ hall => hall.alters hworked.alters⟩

-- The deployment whose files a call works on.
def target (deployment : String) : Call → String
  | .delete other => other
  | _ => deployment

theorem target_of_ne_delete {call : Call} (h : ∀ other, call ≠ .delete other) (deployment : String) :
    target deployment call = deployment := by
  cases call with
  | delete other => exact absurd rfl (h other)
  | _ => rfl

theorem act_managed (table : FileTable) (drawn : UInt64) (call : Call) (files : Files) :
    Managed (table.act drawn call) files table.folder (target table.deployment call) fun _ => True := by
  have hanswer : ∀ stored : Deployment, Sound (stored.answer drawn call).1 := fun stored fault hfault => by
    cases Deployment.fault_of_answer hfault
  have hsettle : ∀ {α : Type} {stored : Deployment} {result : Except Fault (α × Deployment)},
      Sound (stored.settle result).1 → Sound result := fun hsound fault hfault => hsound fault (by rw [hfault]; rfl)
  cases call with
  | establish create =>
    cases create with
    | false => exact table.read_managed (fun stored => Disk.sound_ok stored.isInitialized) files
    | true =>
      have hwrite := table.write_managed (fun stored => Disk.sound_ok (stored.establish drawn)) files
      exact hwrite.bind (fun _ _ _ => .pure trivial) fun _ => id
  | delete other => exact table.delete_managed other files
  | readRow silo => exact table.read_managed hanswer files
  | readAll => exact table.read_managed hanswer files
  | insertRow entry expected => exact table.write_managed (fun stored => hsettle (hanswer stored)) files
  | updateRow entry etag expected => exact table.write_managed (fun stored => hsettle (hanswer stored)) files
  | mergeAlive entry =>
    have hmerge : ∀ stored : Deployment, Sound ((stored.mergeAlive entry).map fun next => (true, next)) := by
      intro stored fault hfault
      refine hsettle (hanswer stored) fault ?_
      cases hmerge : stored.mergeAlive entry with
      | error other =>
        rw [hmerge] at hfault
        rw [Except.error.inj hfault]
        rfl
      | ok next =>
        rw [hmerge] at hfault
        cases hfault
    exact (table.write_managed hmerge files).bind (fun _ _ _ => .pure trivial) fun _ => id

end Managed

end FileTable
end Muster
