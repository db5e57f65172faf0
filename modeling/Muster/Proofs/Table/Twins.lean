import Muster.Proofs.Table.FileTable

-- Two sets of files that a deployment cannot tell apart: the same places are folders in both, and the
-- document of the deployment is the same. A call for the deployment comes to the same on both.
namespace Muster

namespace Files

variable {f g f' g' : Files} {folder deployment name : String} {place : Place}

theorem find_eq_of_opens (hf : f.Opens folder place) (hg : g.Opens folder place) (hname : FileName.Plain name)
    (hnode : f.node? (place ++ [name]) = g.node? (place ++ [name])) :
    f.find (.inside folder name) = g.find (.inside folder name) := by
  unfold find
  rw [hf.reach_inside hname, hg.reach_inside hname]
  split
  · simp only [bind, Except.bind, hnode]
  · rfl

theorem read_eq_of_opens (hf : f.Opens folder place) (hg : g.Opens folder place) (hname : FileName.Plain name)
    (hnode : f.node? (place ++ [name]) = g.node? (place ++ [name])) :
    f.read (.inside folder name) = g.read (.inside folder name) := by
  unfold read
  rw [find_eq_of_opens hf hg hname hnode]

-- The folder is there in both files.
structure Paired (f g : Files) (folder deployment : String) (place : Place) : Prop where
  left : f.Settled folder place
  right : g.Settled folder place
  folders : f.SameFolders g
  document : f.node? (place ++ [FileName.document deployment]) = g.node? (place ++ [FileName.document deployment])

-- The folder can be there in the first files already and not in the second ones. Then no document is in
-- the second ones either.
structure Twins (f g : Files) (folder deployment : String) : Prop where
  made : (f.makeFolders (.ofText folder)).2 = none → (g.makeFolders (.ofText folder)).2 = none
  folders : (f.made folder).SameFolders (g.made folder)
  document : ∀ place, (f.made folder).Opens folder place →
    (f.made folder).node? (place ++ [FileName.document deployment]) =
      (g.made folder).node? (place ++ [FileName.document deployment])
  isThere : g.isThere (.ofText folder) = true → f.isThere (.ofText folder) = true
  missing : g.isThere (.ofText folder) = false → (g.makeFolders (.ofText folder)).2 = none →
    ∀ place bytes, (g.made folder).Opens folder place →
      (g.made folder).node? (place ++ [FileName.document deployment]) ≠ some (.file bytes)

theorem Paired.twins (h : Paired f g folder deployment place) : Twins f g folder deployment where
  made _ := congrArg Prod.snd h.right.made
  folders := by
    rw [h.left.made_eq, h.right.made_eq]
    exact h.folders
  document other hopens := by
    rw [h.left.made_eq] at hopens ⊢
    rw [h.right.made_eq, hopens.unique h.left.opens]
    exact h.document
  isThere _ := h.left.isThere
  missing hgone := by
    rw [h.right.isThere] at hgone
    cases hgone

theorem Paired.alters (h : Paired f g folder deployment place) {places places' : List Place}
    (hf : f.Alters f' places) (hg : g.Alters g' places')
    (hdocument : f'.node? (place ++ [FileName.document deployment]) =
      g'.node? (place ++ [FileName.document deployment])) : Paired f' g' folder deployment place where
  left := h.left.alters hf
  right := h.right.alters hg
  folders := (hf.sameFolders.trans h.folders).trans hg.sameFolders.symm
  document := hdocument

theorem Twins.paired (h : Twins f g folder deployment) {other : String} {place' : Place}
    (hf : f.Worked f' folder other place) (hg : g.Worked g' folder other place')
    (hdocument : f'.node? (place ++ [FileName.document deployment]) =
      g'.node? (place' ++ [FileName.document deployment])) : Paired f' g' folder deployment place := by
  obtain rfl : place = place' := (hf.opens.keeps h.folders.keeps).unique hg.opens
  exact ⟨hf.settled, hg.settled, (hf.alters.sameFolders.trans h.folders).trans hg.alters.sameFolders.symm, hdocument⟩

-- Work for another deployment passes by the twins.
theorem Twins.worked (h : Twins f g folder deployment) {other : String} (hother : deployment ≠ other)
    (hworked : f.Worked f' folder other place) : Twins f' g folder deployment where
  made _ := h.made hworked.made
  folders := by
    rw [hworked.settled.made_eq]
    exact hworked.alters.sameFolders.trans h.folders
  document place' hopens := by
    rw [hworked.settled.made_eq] at hopens ⊢
    rw [hopens.unique hworked.settled.opens, hworked.document_of_ne hother]
    exact h.document place hworked.opens
  isThere _ := hworked.settled.isThere
  missing := h.missing

-- A document that has been removed on the one side was not there on the other.
theorem Twins.removed (h : Twins f g folder deployment) (hgone : g.isThere (.ofText folder) = false)
    (hworked : f.Worked f' folder deployment place)
    (hnode : f'.node? (place ++ [FileName.document deployment]) = none)
    (hfree : (f.made folder).Free (.inside folder (FileName.document deployment))) : Twins f' g folder deployment where
  made _ := h.made hworked.made
  folders := by
    rw [hworked.settled.made_eq]
    exact hworked.alters.sameFolders.trans h.folders
  document other hopens := by
    rw [hworked.settled.made_eq] at hopens ⊢
    rw [hopens.unique hworked.settled.opens, hnode]
    have hopens' := hworked.opens.keeps h.folders.keeps
    cases hother : (g.made folder).node? (place ++ [FileName.document deployment]) with
    | none => rfl
    | some node =>
      cases node with
      | folder =>
        have hfile := hworked.opens.ne_folder_of_free (FileName.plain_document deployment) hfree
        exact absurd ((h.folders _).mpr hother) hfile
      | file bytes => exact absurd hother (h.missing hgone (h.made hworked.made) place bytes hopens')
  isThere _ := hworked.settled.isThere
  missing := h.missing

end Files

open Files (Paired Twins Worked)

namespace Disk

variable {α β : Type} {f g files : Files} {middle after : Files → Files → Prop} {results : Files → Prop}

-- What the work comes to on the first files it comes to on the second ones, unless the first ones fail.
def Echoes (work : Disk α) (f g : Files) (after : Files → Files → Prop) : Prop :=
  ∀ value f', work.on f = (value, f') → Sound value → ∃ g', work.on g = (value, g') ∧ after f' g'

theorem Echoes.bind {work : Disk α} {more : α → Disk β} (h : Echoes work f g middle)
    (hmore : ∀ a f' g', middle f' g' → Echoes (more a) f' g' after) (hfail : ∀ f' g', middle f' g' → after f' g') :
    Echoes (work >>= more) f g after := by
  intro value f' hwork hsound
  rw [on_bind] at hwork ⊢
  cases hresult : work.on f with
  | mk result left =>
    rw [hresult] at hwork
    cases result with
    | error fault =>
      obtain ⟨hvalue, rfl⟩ := Prod.mk.inj hwork
      obtain ⟨g', hother, hmiddle⟩ := h _ _ hresult fun io hio => hsound io (by rw [← hvalue, Except.error.inj hio])
      refine ⟨g', ?_, hfail _ _ hmiddle⟩
      rw [hother, ← hvalue]
    | ok a =>
      obtain ⟨g', hother, hmiddle⟩ := h _ _ hresult nofun
      obtain ⟨g'', hrest, hafter⟩ := hmore a left g' hmiddle _ _ hwork hsound
      exact ⟨g'', by rw [hother]; exact hrest, hafter⟩

theorem Echoes.ofExcept (result : Except Fault α) (h : after f g) : Echoes (ofExcept result) f g after := by
  intro value f' hwork _
  rw [on_ofExcept] at hwork ⊢
  obtain ⟨rfl, rfl⟩ := Prod.mk.inj hwork
  exact ⟨g, rfl, h⟩

theorem Echoes.pure {a : α} (h : after f g) : Echoes (pure a) f g after := .ofExcept (.ok a) h

-- The files after the work, unless they have failed.
def Leaves (work : Disk α) (files : Files) (results : Files → Prop) : Prop :=
  ∀ value left, work.on files = (value, left) → Sound value → results left

theorem Leaves.bind {work : Disk α} {more : α → Disk β} {between : Files → Prop} (h : Leaves work files between)
    (hmore : ∀ a left, between left → Leaves (more a) left results) (hfail : ∀ left, between left → results left) :
    Leaves (work >>= more) files results := by
  intro value left hwork hsound
  rw [on_bind] at hwork
  cases hresult : work.on files with
  | mk result middle =>
    rw [hresult] at hwork
    cases result with
    | error fault =>
      obtain ⟨hvalue, rfl⟩ := Prod.mk.inj hwork
      exact hfail _ (h _ _ hresult fun io hio => hsound io (by rw [← hvalue, Except.error.inj hio]))
    | ok a => exact hmore a middle (h _ _ hresult nofun) _ _ hwork hsound

theorem Leaves.ofExcept (result : Except Fault α) (h : results files) : Leaves (ofExcept result) files results := by
  intro value left hwork _
  rw [on_ofExcept] at hwork
  rwa [← (Prod.mk.inj hwork).2]

theorem Leaves.pure {a : α} (h : results files) : Leaves (pure a) files results := .ofExcept (.ok a) h

theorem Leaves.mono {work : Disk α} {between : Files → Prop} (h : Leaves work files between)
    (hresults : ∀ left, between left → results left) : Leaves work files results := fun value left hwork hsound =>
  hresults left (h value left hwork hsound)

end Disk

namespace FileTable

open Disk (Sound Echoes Leaves)

variable {f g files : Files} {table : FileTable} {deployment : String} {place : Place} {α : Type}

theorem lock_leaves (table : FileTable) (deployment : String) (files : Files) :
    Leaves (table.lock deployment) files fun left =>
      ∃ place, files.Worked left table.folder deployment place := by
  intro value left hwork hsound
  obtain ⟨-, fault, hlock⟩ | ⟨-, place, locked, hlock, hlocked⟩ := table.lock_spec deployment files
  · exact absurd (Prod.mk.inj (hwork.symm.trans hlock)).1 (hsound fault)
  · rw [(Prod.mk.inj (hwork.symm.trans hlock)).2]
    exact ⟨place, hlocked.worked⟩

theorem load_leaves (table : FileTable) (files : Files) : Leaves table.load files fun left => left = files := by
  intro value left hwork _
  rw [on_load] at hwork
  exact (Prod.mk.inj hwork).2.symm

theorem save_leaves (h : files.Worked f table.folder table.deployment place) (stored : Deployment) :
    Leaves (table.save stored) f fun left => files.Worked left table.folder table.deployment place := by
  intro value left hwork hsound
  obtain ⟨-, fault, drafted, hsave, -⟩ | ⟨-, saved, hsave, halters, -⟩ := save_spec h.settled stored
  · exact absurd (Prod.mk.inj (hwork.symm.trans hsave)).1 (hsound fault)
  · rw [(Prod.mk.inj (hwork.symm.trans hsave)).2]
    exact h.alters_more halters

theorem lock_echoes (h : Twins f g table.folder deployment) (other : String) :
    Echoes (table.lock other) f g fun f' g' => ∃ place, Paired f' g' table.folder deployment place := by
  intro value f' hwork hsound
  obtain ⟨-, fault, hlock⟩ | ⟨hlocks, place, locked, hlock, hlocked⟩ := table.lock_spec other f
  · exact absurd (Prod.mk.inj (hwork.symm.trans hlock)).1 (hsound fault)
  obtain ⟨rfl, rfl⟩ := Prod.mk.inj (hwork.symm.trans hlock)
  obtain ⟨hlocks', -⟩ | ⟨-, place', locked', hlock', hlocked'⟩ := table.lock_spec other g
  · exact absurd ⟨h.made hlocks.made, h.folders.free hlocks.lock⟩ hlocks'
  refine ⟨locked', hlock', place, h.paired hlocked.worked hlocked'.worked ?_⟩
  have hplace : place = place' := (hlocked.opens.keeps h.folders.keeps).unique hlocked'.opens
  rw [hlocked.document deployment, hlocked'.document deployment, ← hplace]
  exact h.document place hlocked.opens

theorem load_echoes (h : Paired f g table.folder table.deployment place) :
    Echoes table.load f g fun f' g' => f' = f ∧ g' = g := by
  intro value f' hwork _
  have hread := Files.read_eq_of_opens h.left.opens h.right.opens (FileName.plain_document table.deployment) h.document
  rw [on_load] at hwork ⊢
  rw [← hread]
  obtain ⟨rfl, rfl⟩ := Prod.mk.inj hwork
  exact ⟨g, rfl, rfl, rfl⟩

theorem save_echoes (h : Paired f g table.folder table.deployment place) (stored : Deployment) :
    Echoes (table.save stored) f g fun f' g' => Paired f' g' table.folder table.deployment place := by
  intro value f' hwork hsound
  obtain ⟨-, fault, left, hsave, -⟩ | ⟨hfree, saved, hsave, halters, hsaved⟩ := save_spec h.left stored
  · exact absurd (Prod.mk.inj (hwork.symm.trans hsave)).1 (hsound fault)
  obtain ⟨rfl, rfl⟩ := Prod.mk.inj (hwork.symm.trans hsave)
  obtain ⟨hfree', -⟩ | ⟨-, saved', hsave', halters', hsaved'⟩ := save_spec h.right stored
  · exact absurd ⟨h.folders.free hfree.1, h.folders.free hfree.2⟩ hfree'
  · exact ⟨saved', hsave', h.alters halters halters' (hsaved.trans hsaved'.symm)⟩

theorem read_echoes (h : Twins f g table.folder table.deployment) (look : Deployment → Except Fault α) :
    Echoes (table.read look) f g fun f' g' => Twins f' g' table.folder table.deployment := by
  refine (lock_echoes h table.deployment).bind ?_ fun f' g' ⟨_, hpaired⟩ => hpaired.twins
  rintro _ f' g' ⟨place, hpaired⟩
  refine (load_echoes hpaired).bind ?_ ?_
  · rintro stored _ _ ⟨rfl, rfl⟩
    exact .ofExcept _ hpaired.twins
  · rintro _ _ ⟨rfl, rfl⟩
    exact hpaired.twins

theorem write_echoes (h : Twins f g table.folder table.deployment)
    (change : Deployment → Except Fault (Bool × Deployment)) :
    Echoes (table.write change) f g fun f' g' => Twins f' g' table.folder table.deployment := by
  refine (lock_echoes h table.deployment).bind ?_ fun f' g' ⟨_, hpaired⟩ => hpaired.twins
  rintro _ f' g' ⟨place, hpaired⟩
  refine (load_echoes hpaired).bind ?_ ?_
  · rintro stored f' g' ⟨rfl, rfl⟩
    have hchange : Echoes (Disk.ofExcept (change stored)) f' g' fun x y => x = f' ∧ y = g' := .ofExcept _ ⟨rfl, rfl⟩
    refine hchange.bind ?_ ?_
    · rintro ⟨won, next⟩ _ _ ⟨rfl, rfl⟩
      cases won with
      | false => exact .pure hpaired.twins
      | true =>
        refine (save_echoes hpaired next).bind (fun _ _ _ hsaved => .pure hsaved.twins) ?_
        exact fun _ _ hsaved => hsaved.twins
    · rintro _ _ ⟨rfl, rfl⟩
      exact hpaired.twins
  · rintro _ _ ⟨rfl, rfl⟩
    exact hpaired.twins

-- Whichever deployment is deleted, the twins stay twins.
theorem delete_echoes (table : FileTable) (h : Twins f g table.folder deployment) (other : String) :
    Echoes (table.delete other) f g fun f' g' => Twins f' g' table.folder deployment := by
  intro value f' hwork hsound
  obtain ⟨hthere, hdelete⟩ | ⟨-, ⟨-, fault, left, hdelete, -⟩ |
    ⟨⟨hlocks, hfree⟩, place, left, hdelete, hworked, hnode⟩⟩ := table.delete_spec other f
  · obtain ⟨rfl, rfl⟩ := Prod.mk.inj (hwork.symm.trans hdelete)
    obtain ⟨-, hdelete'⟩ | ⟨hthere', -⟩ := table.delete_spec other g
    · exact ⟨g, hdelete', h⟩
    · rw [h.isThere hthere'] at hthere
      cases hthere
  · exact absurd (Prod.mk.inj (hwork.symm.trans hdelete)).1 (hsound fault)
  · obtain ⟨rfl, rfl⟩ := Prod.mk.inj (hwork.symm.trans hdelete)
    obtain ⟨hthere', hdelete'⟩ | ⟨-, ⟨hnot, -⟩ | ⟨-, place', left', hdelete', hworked', hnode'⟩⟩ :=
      table.delete_spec other g
    · refine ⟨g, hdelete', ?_⟩
      by_cases hother : deployment = other
      · subst hother
        exact h.removed hthere' hworked hnode hfree
      · exact h.worked hother hworked
    · exact absurd ⟨⟨h.made hlocks.made, h.folders.free hlocks.lock⟩, h.folders.free hfree⟩ hnot
    · refine ⟨left', hdelete', (h.paired hworked hworked' ?_).twins⟩
      have hplace : place = place' := (hworked.opens.keeps h.folders.keeps).unique hworked'.opens
      by_cases hother : deployment = other
      · rw [hother, hnode, hnode']
      · rw [hworked.document_of_ne hother, hworked'.document_of_ne hother, ← hplace]
        exact h.document place hworked.opens

-- What a call for the deployment comes to does not depend on what the twins differ in.
theorem act_echoes (table : FileTable) (h : Twins f g table.folder table.deployment) (drawn : UInt64) (call : Call) :
    Echoes (table.act drawn call) f g fun f' g' => Twins f' g' table.folder table.deployment := by
  cases call with
  | establish create =>
    cases create with
    | false => exact read_echoes h _
    | true => exact (write_echoes h _).bind (fun _ _ _ htwins => .pure htwins) fun _ _ htwins => htwins
  | delete other => exact delete_echoes table h other
  | readRow silo => exact read_echoes h _
  | readAll => exact read_echoes h _
  | insertRow entry expected => exact write_echoes h _
  | updateRow entry etag expected => exact write_echoes h _
  | mergeAlive entry => exact (write_echoes h _).bind (fun _ _ _ htwins => .pure htwins) fun _ _ htwins => htwins

theorem read_leaves (table : FileTable) (look : Deployment → Except Fault α) (files : Files) :
    Leaves (table.read look) files fun left =>
      ∃ place, files.Worked left table.folder table.deployment place := by
  refine (lock_leaves table table.deployment files).bind ?_ fun _ => id
  intro _ locked hworked
  refine (load_leaves table locked).bind ?_ ?_
  · rintro _ _ rfl
    exact .ofExcept _ hworked
  · rintro _ rfl
    exact hworked

theorem write_leaves (table : FileTable) (change : Deployment → Except Fault (Bool × Deployment)) (files : Files) :
    Leaves (table.write change) files fun left =>
      ∃ place, files.Worked left table.folder table.deployment place := by
  refine (lock_leaves table table.deployment files).bind ?_ fun _ => id
  rintro _ locked ⟨place, hworked⟩
  refine (load_leaves table locked).bind ?_ ?_
  · rintro stored locked rfl
    have hchange : Leaves (Disk.ofExcept (change stored)) locked fun left => left = locked := .ofExcept _ rfl
    refine hchange.bind ?_ ?_
    · rintro ⟨won, next⟩ _ rfl
      cases won with
      | false => exact .pure ⟨place, hworked⟩
      | true =>
        refine (save_leaves hworked next).bind (fun _ _ hsaved => .pure ⟨place, hsaved⟩) ?_
        exact fun _ hsaved => ⟨place, hsaved⟩
    · rintro _ rfl
      exact ⟨place, hworked⟩
  · rintro _ rfl
    exact ⟨place, hworked⟩

-- A call that is not for the deployment leaves its twins twins.
theorem act_leaves (table : FileTable) (h : Twins f g table.folder deployment)
    (htable : deployment ≠ table.deployment) (drawn : UInt64) {call : Call} (hcall : call ≠ .delete deployment) :
    Leaves (table.act drawn call) f fun left => Twins left g table.folder deployment := by
  have htwins : ∀ left, (∃ place, f.Worked left table.folder table.deployment place) →
      Twins left g table.folder deployment := fun left ⟨place, hworked⟩ => h.worked htable hworked
  cases call with
  | establish create =>
    cases create with
    | false => exact (read_leaves table _ f).mono htwins
    | true =>
      exact ((write_leaves table _ f).mono htwins).bind (fun _ _ htwins => .pure htwins) fun _ htwins => htwins
  | delete other =>
    have hother : deployment ≠ other := fun heq => hcall (heq ▸ rfl)
    intro value left hwork hsound
    obtain ⟨-, hdelete⟩ | ⟨-, ⟨-, fault, _, hdelete, -⟩ | ⟨-, place, _, hdelete, hworked, -⟩⟩ :=
      table.delete_spec other f
    · rwa [(Prod.mk.inj (hwork.symm.trans hdelete)).2]
    · exact absurd (Prod.mk.inj (hwork.symm.trans hdelete)).1 (hsound fault)
    · rw [(Prod.mk.inj (hwork.symm.trans hdelete)).2]
      exact h.worked hother hworked
  | readRow silo => exact (read_leaves table _ f).mono htwins
  | readAll => exact (read_leaves table _ f).mono htwins
  | insertRow entry expected => exact (write_leaves table _ f).mono htwins
  | updateRow entry etag expected => exact (write_leaves table _ f).mono htwins
  | mergeAlive entry =>
    exact ((write_leaves table _ f).mono htwins).bind (fun _ _ htwins => .pure htwins) fun _ htwins => htwins

end FileTable

end Muster
