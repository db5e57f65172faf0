import Muster.Proofs.Table.FileName
import Muster.Table.Files
import Muster.Table.Rows

-- What work on files leaves as it was. Folders stay where they are, so paths keep leading where they led.
namespace Muster

namespace Path

-- The path to what has a name in a folder.
def inside (folder name : String) : Path := .ofText (inFolder folder name)

-- The parts of a path into a folder, up to the name that it ends in.
def lead (folder : String) : List String := (inside folder "").parts.dropLast

theorem exists_front (folder : String) : ∃ front, (folder.toList = front ∨ folder.toList = front ++ ['/']) ∧
    ∀ name, (inFolder folder name).toList = front ++ '/' :: name.toList := by
  unfold inFolder
  split
  · next h =>
    obtain ⟨front, hfront⟩ := List.getLast?_eq_some_iff.mp h
    refine ⟨front, Or.inr hfront, fun name => ?_⟩
    simp [String.toList_append, hfront]
  · exact ⟨folder.toList, Or.inl rfl, fun name => by simp [String.toList_append]⟩

theorem parts_inside_eq {folder name : String} {front : List Char}
    (hfront : (inFolder folder name).toList = front ++ '/' :: name.toList) (h : '/' ∉ name.toList) :
    (inside folder name).parts = (front.splitOn '/').map String.ofList ++ [name] := by
  rw [inside, ofText, hfront, List.splitOn_append_cons_self, List.splitOn_eq_singleton h, List.map_append]
  simp

theorem lead_eq {folder : String} {front : List Char}
    (hfront : ∀ name, (inFolder folder name).toList = front ++ '/' :: name.toList) :
    lead folder = (front.splitOn '/').map String.ofList := by
  rw [lead, parts_inside_eq (hfront "") (by decide), List.dropLast_concat]

theorem parts_inside (folder : String) {name : String} (h : '/' ∉ name.toList) :
    (inside folder name).parts = lead folder ++ [name] := by
  obtain ⟨front, -, hfront⟩ := exists_front folder
  rw [parts_inside_eq (hfront name) h, lead_eq hfront]

-- A stroke at the end of a path adds a part that leads nowhere.
theorem parts_ofText (folder : String) :
    (ofText folder).parts = lead folder ∨ (ofText folder).parts = lead folder ++ [""] := by
  obtain ⟨front, hfolder | hfolder, hfront⟩ := exists_front folder
  · refine Or.inl ?_
    rw [lead_eq hfront, ofText, hfolder]
  · refine Or.inr ?_
    rw [lead_eq hfront, ofText, hfolder, List.splitOn_append_cons_self, List.map_append]
    rfl

end Path

namespace Files

variable {files files' files'' : Files} {path : Path} {place other : Place} {node : Node} {folder name : String}

theorem node?_set (h : place ≠ []) (node : Node) (other : Place) :
    (files.set place node).node? other = if other = place then some node else files.node? other := by
  unfold node? set
  by_cases hother : other = place
  · simp [hother, h]
  · have hkeep : ∀ pair ∈ files.nodes, pair.1 = other → (pair.1 != place) = true := by
      rintro pair - rfl
      exact bne_iff_ne.mpr hother
    rw [if_neg hother, List.lookup_cons, beq_eq_false_iff_ne.mpr hother]
    simp only [lookup_filter hkeep]

theorem node?_unset (h : place ≠ []) (other : Place) :
    (files.unset place).node? other = if other = place then none else files.node? other := by
  unfold node? unset
  by_cases hother : other = place
  · subst hother
    rw [List.isEmpty_eq_false_iff.mpr h, if_neg Bool.false_ne_true, if_pos rfl, List.lookup_eq_none_iff]
    intro pair hpair
    exact bne_comm.trans (List.mem_filter.mp hpair).2
  · have hkeep : ∀ pair ∈ files.nodes, pair.1 = other → (pair.1 != place) = true := by
      rintro pair - rfl
      exact bne_iff_ne.mpr hother
    rw [if_neg hother]
    simp only [lookup_filter hkeep]

-- Every folder is still there.
def Keeps (files files' : Files) : Prop :=
  ∀ place, files.node? place = some .folder → files'.node? place = some .folder

theorem Keeps.refl (files : Files) : files.Keeps files := fun _ h => h

theorem Keeps.trans (h : files.Keeps files') (h' : files'.Keeps files'') : files.Keeps files'' :=
  fun place hplace => h' place (h place hplace)

theorem Keeps.follow (h : files.Keeps files') {here there : Place} {part : String}
    (hfollow : files.follow here part = .ok there) : files'.follow here part = .ok there := by
  unfold Files.follow at hfollow ⊢
  split at hfollow
  · cases hfollow
  · cases hfollow
  · next hhere => rwa [h here hhere]

theorem Keeps.walk (h : files.Keeps files') {parts : List String} {here there : Place}
    (hwalk : parts.foldlM files.follow here = .ok there) : parts.foldlM files'.follow here = .ok there := by
  induction parts generalizing here with
  | nil => exact hwalk
  | cons part parts ih =>
    rw [List.foldlM_cons] at hwalk ⊢
    cases hfollow : files.follow here part with
    | error fault => rw [hfollow] at hwalk; cases hwalk
    | ok next =>
      rw [hfollow] at hwalk
      rw [h.follow hfollow]
      exact ih hwalk

theorem Keeps.reach (h : files.Keeps files') (hreach : files.reach path = .ok place) :
    files'.reach path = .ok place := by
  unfold Files.reach at hreach ⊢
  split at hreach
  · next hfits =>
    rw [if_pos hfits]
    exact h.walk hreach
  · cases hreach

theorem ne_nil_of_node? (h : files.node? place ≠ some .folder) : place ≠ [] := by
  rintro rfl
  exact h rfl

theorem keeps_set (h : files.node? place ≠ some .folder) (node : Node) : files.Keeps (files.set place node) := by
  intro other hother
  rw [node?_set (ne_nil_of_node? h), if_neg, hother]
  rintro rfl
  exact h hother

-- A folder stands where a path leads.
def HasFolder (files : Files) (path : Path) : Prop :=
  ∃ place, files.reach path.trimmed = .ok place ∧ files.node? place = some .folder

theorem Keeps.hasFolder (h : files.Keeps files') (hpath : files.HasFolder path) : files'.HasFolder path := by
  obtain ⟨place, hreach, hfolder⟩ := hpath
  exact ⟨place, h.reach hreach, h place hfolder⟩

-- Folders come into being. Files neither come nor go.
structure Folds (files files' : Files) : Prop where
  keeps : files.Keeps files'
  files : ∀ place bytes, files'.node? place = some (.file bytes) ↔ files.node? place = some (.file bytes)

theorem Folds.refl (files : Files) : files.Folds files := ⟨.refl files, fun _ _ => Iff.rfl⟩

theorem Folds.trans (h : files.Folds files') (h' : files'.Folds files'') : files.Folds files'' :=
  ⟨h.keeps.trans h'.keeps, fun place bytes => (h'.files place bytes).trans (h.files place bytes)⟩

theorem folds_set (h : files.node? place = none) : files.Folds (files.set place .folder) := by
  have hne : files.node? place ≠ some .folder := by simp [h]
  refine ⟨keeps_set hne .folder, fun other bytes => ?_⟩
  rw [node?_set (ne_nil_of_node? hne)]
  split
  · next hother => simp [hother, h]
  · exact Iff.rfl

theorem makeFolder_spec (h : files.makeFolder path = .ok files') : files.Folds files' ∧ files'.HasFolder path := by
  unfold makeFolder at h
  cases hreach : files.reach path.trimmed with
  | error fault => rw [hreach] at h; cases h
  | ok place =>
    simp only [hreach, bind, Except.bind] at h
    split at h
    · next hnode =>
      obtain rfl := Except.ok.inj h
      have hfolds := folds_set hnode
      have hne : files.node? place ≠ some .folder := by simp [hnode]
      refine ⟨hfolds, place, hfolds.keeps.reach hreach, ?_⟩
      rw [node?_set (ne_nil_of_node? hne), if_pos rfl]
    · next hnode =>
      obtain rfl := Except.ok.inj h
      exact ⟨.refl files, place, hreach, hnode⟩
    · cases h

theorem makeFolder_self (h : files.HasFolder path) : files.makeFolder path = .ok files := by
  obtain ⟨place, hreach, hfolder⟩ := h
  simp [makeFolder, hreach, hfolder, bind, Except.bind]

theorem folds_makeEach (files : Files) (paths : List Path) : files.Folds (files.makeEach paths).1 := by
  induction paths generalizing files with
  | nil => exact .refl files
  | cons path paths ih =>
    unfold makeEach
    split
    · next files' hmake => exact (makeFolder_spec hmake).1.trans (ih files')
    · exact .refl files

theorem hasFolder_of_makeEach {paths : List Path} (h : (files.makeEach paths).2 = none) :
    ∀ path ∈ paths, (files.makeEach paths).1.HasFolder path := by
  induction paths generalizing files with
  | nil => simp
  | cons path paths ih =>
    unfold makeEach at h ⊢
    split at h
    · next files' hmake =>
      rw [List.forall_mem_cons]
      exact ⟨(folds_makeEach files' paths).keeps.hasFolder (makeFolder_spec hmake).2, ih h⟩
    · cases h

theorem makeEach_self {paths : List Path} (h : ∀ path ∈ paths, files.HasFolder path) :
    files.makeEach paths = (files, none) := by
  induction paths with
  | nil => rfl
  | cons path paths ih =>
    obtain ⟨hpath, hpaths⟩ := List.forall_mem_cons.mp h
    rw [makeEach, makeFolder_self hpath]
    exact ih hpaths

theorem folds_makeFolders (files : Files) (path : Path) : files.Folds (files.makeFolders path).1 := by
  unfold makeFolders
  split
  · exact folds_makeEach files _
  · exact .refl files

theorem fits_of_makeFolders (h : files.makeFolders path = (files', none)) : path.fits = true := by
  unfold makeFolders at h
  split at h
  · next hfits => exact hfits
  · cases h

-- Folders that have been made once are not made again.
theorem makeFolders_again (h : files.makeFolders path = (files', none)) (hkeeps : files'.Keeps files'') :
    files''.makeFolders path = (files'', none) := by
  have hfits := fits_of_makeFolders h
  rw [makeFolders, if_pos hfits] at h ⊢
  have hall := hasFolder_of_makeEach (congrArg Prod.snd h)
  rw [h] at hall
  exact makeEach_self fun path hpath => hkeeps.hasFolder (hall path hpath)

-- The place that the parts up to a name lead to is a folder.
structure Opens (files : Files) (folder : String) (place : Place) : Prop where
  lead : (Path.lead folder).foldlM files.follow [] = .ok place
  isFolder : files.node? place = some .folder

namespace Opens

theorem unique (h : files.Opens folder place) (h' : files.Opens folder other) : place = other :=
  Except.ok.inj (h.lead.symm.trans h'.lead)

theorem keeps (h : files.Opens folder place) (hkeeps : files.Keeps files') : files'.Opens folder place :=
  ⟨hkeeps.walk h.lead, hkeeps place h.isFolder⟩

theorem reach_inside (h : files.Opens folder place) (hname : FileName.Plain name) :
    files.reach (.inside folder name) =
      if (Path.inside folder name).fits ∧ name.utf8ByteSize ≤ 255 then .ok (place ++ [name])
      else .error .invalidName := by
  have hstays : Path.stays name = false := by simp [Path.stays, hname.ne_empty, hname.ne_stop]
  have hfollow : files.follow place name =
      if name.utf8ByteSize ≤ 255 then .ok (place ++ [name]) else .error .invalidName := by
    simp [follow, h.isFolder, hstays, hname.ne_stops]
  rw [Files.reach, Path.parts_inside folder hname.stroke, List.foldlM_append, h.lead]
  by_cases hfits : (Path.inside folder name).fits = true
  · simp only [hfits, if_true, true_and]
    exact (bind_pure _).trans hfollow
  · simp [hfits]

theorem reach (h : files.Opens folder place) (hfits : (Path.ofText folder).fits = true) :
    files.reach (.ofText folder) = .ok place := by
  rw [Files.reach, if_pos hfits]
  rcases Path.parts_ofText folder with hparts | hparts
  · rw [hparts, h.lead]
  · rw [hparts, List.foldlM_append, h.lead]
    simp [follow, h.isFolder, Path.stays, bind, Except.bind, pure, Except.pure]

theorem isThere (h : files.Opens folder place) (hfits : (Path.ofText folder).fits = true) :
    files.isThere (.ofText folder) = true := by
  simp [Files.isThere, find, h.reach hfits, h.isFolder, bind, Except.bind, Except.isOk, Except.toBool]

end Opens

theorem opens_of_reach (hname : FileName.Plain name)
    (h : files.reach (.inside folder name) = .ok place) :
    ∃ around, files.Opens folder around ∧ place = around ++ [name] := by
  have hwalk : (Path.lead folder ++ [name]).foldlM files.follow [] = .ok place := by
    rw [reach, Path.parts_inside folder hname.stroke] at h
    split at h
    · exact h
    · cases h
  rw [List.foldlM_append] at hwalk
  cases hlead : (Path.lead folder).foldlM files.follow [] with
  | error fault => rw [hlead] at hwalk; cases hwalk
  | ok around =>
    have hfollow : files.follow around name = .ok place := by
      rw [hlead] at hwalk
      exact (bind_pure _).symm.trans hwalk
    have hfolder : files.node? around = some .folder := by
      unfold follow at hfollow
      split at hfollow
      · cases hfollow
      · cases hfollow
      · assumption
    have hopens : files.Opens folder around := ⟨hlead, hfolder⟩
    refine ⟨around, hopens, ?_⟩
    rw [hopens.reach_inside hname] at h
    split at h
    · exact (Except.ok.inj h).symm
    · cases h

end Files
end Muster
