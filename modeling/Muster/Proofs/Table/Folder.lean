import Muster.Proofs.Table.Files

-- Work on the files in one folder, case by case. It fails where a file cannot be written, and else it
-- changes nothing but the files it names.
namespace Muster.Files

variable {files files' files'' : Files} {path : Path} {place : Place} {folder name : String} {bytes : ByteArray}

-- A file can be written where a path leads.
def Free (files : Files) (path : Path) : Prop :=
  ∃ place, files.reach path = .ok place ∧ files.node? place ≠ some .folder

theorem free_iff (files : Files) (path : Path) :
    files.Free path ↔ ((files.reach path).toOption.any fun place => files.node? place != some .folder) = true := by
  cases hreach : files.reach path with
  | error fault => simp [Free, hreach, Except.toOption]
  | ok place => simp [Free, hreach, Except.toOption]

instance (files : Files) (path : Path) : Decidable (files.Free path) := decidable_of_iff _ (files.free_iff path).symm

theorem not_free_of_reach {fault : IoFault} (h : files.reach path = .error fault) : ¬files.Free path := by
  rintro ⟨place, hreach, -⟩
  cases h.symm.trans hreach

theorem not_free_of_folder (h : files.reach path = .ok place) (hfolder : files.node? place = some .folder) :
    ¬files.Free path := by
  rintro ⟨other, hreach, hother⟩
  obtain rfl := Except.ok.inj (h.symm.trans hreach)
  exact hother hfolder

theorem Opens.ne_folder_of_free (hopens : files.Opens folder place) (hname : FileName.Plain name)
    (hfree : files.Free (.inside folder name)) : files.node? (place ++ [name]) ≠ some .folder := by
  obtain ⟨other, hreach, hother⟩ := hfree
  rw [hopens.reach_inside hname] at hreach
  split at hreach
  · rwa [Except.ok.inj hreach]
  · cases hreach

-- The same places are folders, so the same paths lead to the same places.
def SameFolders (files files' : Files) : Prop :=
  ∀ place, files.node? place = some .folder ↔ files'.node? place = some .folder

namespace SameFolders

theorem symm (h : files.SameFolders files') : files'.SameFolders files := fun place => (h place).symm

theorem trans (h : files.SameFolders files') (h' : files'.SameFolders files'') : files.SameFolders files'' :=
  fun place => (h place).trans (h' place)

theorem keeps (h : files.SameFolders files') : files.Keeps files' := fun place => (h place).mp

theorem free (h : files.SameFolders files') (hfree : files.Free path) : files'.Free path := by
  obtain ⟨place, hreach, hfolder⟩ := hfree
  exact ⟨place, h.keeps.reach hreach, fun hother => hfolder ((h place).mpr hother)⟩

end SameFolders

-- Folders stay, and so does what is at other places.
structure Alters (files files' : Files) (places : List Place) : Prop where
  elsewhere : ∀ place ∉ places, files'.node? place = files.node? place
  folders : ∀ place, files'.node? place = some .folder ↔ files.node? place = some .folder

namespace Alters

variable {places places' : List Place}

theorem refl (files : Files) (places : List Place) : files.Alters files places :=
  ⟨fun _ _ => rfl, fun _ => Iff.rfl⟩

theorem trans (h : files.Alters files' places) (h' : files'.Alters files'' places') :
    files.Alters files'' (places ++ places') := by
  refine ⟨fun place hplace => ?_, fun place => (h'.folders place).trans (h.folders place)⟩
  rw [List.mem_append, not_or] at hplace
  rw [h'.elsewhere place hplace.2, h.elsewhere place hplace.1]

theorem mono (h : files.Alters files' places) (hplaces : places ⊆ places') : files.Alters files' places' :=
  ⟨fun place hplace => h.elsewhere place fun hmem => hplace (hplaces hmem), h.folders⟩

theorem sameFolders (h : files.Alters files' places) : files'.SameFolders files := h.folders

theorem keeps (h : files.Alters files' places) : files.Keeps files' := h.sameFolders.symm.keeps

theorem free_iff (h : files.Alters files' places) (path : Path) : files'.Free path ↔ files.Free path :=
  ⟨h.sameFolders.free, h.sameFolders.symm.free⟩

end Alters

theorem alters_set (h : files.node? place ≠ some .folder) (bytes : ByteArray) :
    files.Alters (files.set place (.file bytes)) [place] := by
  have hset := files.node?_set (ne_nil_of_node? h) (.file bytes)
  refine ⟨fun other hother => ?_, fun other => ?_⟩
  · rw [hset, if_neg (by simpa using hother)]
  · rw [hset]
    split
    · next heq => simp [heq, h]
    · exact Iff.rfl

theorem alters_unset (h : files.node? place ≠ some .folder) : files.Alters (files.unset place) [place] := by
  have hunset := files.node?_unset (ne_nil_of_node? h)
  refine ⟨fun other hother => ?_, fun other => ?_⟩
  · rw [hunset, if_neg (by simpa using hother)]
  · rw [hunset]
    split
    · next heq => simp [heq, h]
    · exact Iff.rfl

theorem touch_cases (files : Files) {folder : String} (hname : FileName.Plain name) :
    (¬files.Free (.inside folder name) ∧
      ∃ fault, files.touch (.inside folder name) = .error fault) ∨
    files.Free (.inside folder name) ∧ ∃ files' place, files.touch (.inside folder name) = .ok files' ∧
      files.Opens folder place ∧ files.Alters files' [place ++ [name]] := by
  cases hreach : files.reach (.inside folder name) with
  | error fault => exact Or.inl ⟨not_free_of_reach hreach, fault, by rw [touch, hreach]; rfl⟩
  | ok place =>
    obtain ⟨around, hopens, rfl⟩ := opens_of_reach hname hreach
    rw [touch, hreach]
    cases hnode : files.node? (around ++ [name]) with
    | none =>
      refine Or.inr ⟨⟨_, hreach, by simp [hnode]⟩, _, around, by simp [bind, Except.bind, hnode], hopens,
        alters_set (by simp [hnode]) .empty⟩
    | some node =>
      cases node with
      | folder =>
        exact Or.inl ⟨not_free_of_folder hreach hnode, .isFolder, by simp [bind, Except.bind, hnode]⟩
      | file bytes =>
        exact Or.inr ⟨⟨_, hreach, by simp [hnode]⟩, files, around, by simp [bind, Except.bind, hnode], hopens,
          .refl files _⟩

section
variable (hopens : files.Opens folder place) (hname : FileName.Plain name)
include hopens hname

theorem reach_cases :
    (∃ fault ≠ .notFound, files.reach (.inside folder name) = .error fault) ∨
      files.reach (.inside folder name) = .ok (place ++ [name]) := by
  rw [hopens.reach_inside hname]
  split
  · exact Or.inr rfl
  · exact Or.inl ⟨.invalidName, by decide, rfl⟩

theorem find_cases :
    (¬files.Free (.inside folder name) ∧
      ((∃ fault ≠ .notFound, files.find (.inside folder name) = .error fault) ∨
        files.find (.inside folder name) = .ok (place ++ [name], .folder))) ∨
    files.Free (.inside folder name) ∧
      ((files.node? (place ++ [name]) = none ∧ files.find (.inside folder name) = .error .notFound) ∨
        ∃ bytes, files.node? (place ++ [name]) = some (.file bytes) ∧
          files.find (.inside folder name) = .ok (place ++ [name], .file bytes)) := by
  obtain ⟨fault, hfault, hreach⟩ | hreach := reach_cases hopens hname
  · exact Or.inl ⟨not_free_of_reach hreach, Or.inl ⟨fault, hfault, by rw [find, hreach]; rfl⟩⟩
  · rw [find, hreach]
    cases hnode : files.node? (place ++ [name]) with
    | none =>
      exact Or.inr ⟨⟨_, hreach, by simp [hnode]⟩, Or.inl ⟨rfl, by simp [bind, Except.bind, hnode]⟩⟩
    | some node =>
      cases node with
      | folder =>
        exact Or.inl ⟨not_free_of_folder hreach hnode, Or.inr (by simp [bind, Except.bind, hnode])⟩
      | file bytes =>
        exact Or.inr ⟨⟨_, hreach, by simp [hnode]⟩, Or.inr ⟨bytes, rfl, by simp [bind, Except.bind, hnode]⟩⟩

theorem read_cases :
    (¬files.Free (.inside folder name) ∧
      ∃ fault ≠ .notFound, files.read (.inside folder name) = .error fault) ∨
    (files.node? (place ++ [name]) = none ∧
      files.read (.inside folder name) = .error .notFound) ∨
    ∃ bytes, files.node? (place ++ [name]) = some (.file bytes) ∧
      files.read (.inside folder name) = .ok bytes := by
  obtain ⟨hfree, ⟨fault, hfault, hfind⟩ | hfind⟩ | ⟨hfree, ⟨hnode, hfind⟩ | ⟨bytes, hnode, hfind⟩⟩ :=
    find_cases hopens hname
  · exact Or.inl ⟨hfree, fault, hfault, by rw [read, hfind]; rfl⟩
  · exact Or.inl ⟨hfree, .isFolder, by decide, by rw [read, hfind]; rfl⟩
  · exact Or.inr (Or.inl ⟨hnode, by rw [read, hfind]; rfl⟩)
  · exact Or.inr (Or.inr ⟨bytes, hnode, by rw [read, hfind]; rfl⟩)

theorem remove_cases :
    (¬files.Free (.inside folder name) ∧
      ∃ fault ≠ .notFound, files.remove (.inside folder name) = .error fault) ∨
    files.Free (.inside folder name) ∧
      ((files.node? (place ++ [name]) = none ∧ files.remove (.inside folder name) = .error .notFound) ∨
        ∃ bytes, files.node? (place ++ [name]) = some (.file bytes) ∧
          files.remove (.inside folder name) = .ok (files.unset (place ++ [name]))) := by
  obtain ⟨hfree, ⟨fault, hfault, hfind⟩ | hfind⟩ | ⟨hfree, ⟨hnode, hfind⟩ | ⟨bytes, hnode, hfind⟩⟩ :=
    find_cases hopens hname
  · exact Or.inl ⟨hfree, fault, hfault, by rw [remove, hfind]; rfl⟩
  · exact Or.inl ⟨hfree, .isFolder, by decide, by rw [remove, hfind]; rfl⟩
  · exact Or.inr ⟨hfree, Or.inl ⟨hnode, by rw [remove, hfind]; rfl⟩⟩
  · exact Or.inr ⟨hfree, Or.inr ⟨bytes, hnode, by rw [remove, hfind]; rfl⟩⟩

theorem write_cases (bytes : ByteArray) :
    (¬files.Free (.inside folder name) ∧ ∃ fault, files.write (.inside folder name) bytes = .error fault) ∨
    files.Free (.inside folder name) ∧ ∃ files', files.write (.inside folder name) bytes = .ok files' ∧
      files.Alters files' [place ++ [name]] ∧ files'.node? (place ++ [name]) = some (.file bytes) := by
  obtain ⟨fault, -, hreach⟩ | hreach := reach_cases hopens hname
  · exact Or.inl ⟨not_free_of_reach hreach, fault, by rw [write, hreach]; rfl⟩
  · by_cases hnode : files.node? (place ++ [name]) = some .folder
    · exact Or.inl ⟨not_free_of_folder hreach hnode, .isFolder, by simp [write, hreach, bind, Except.bind, hnode]⟩
    · refine Or.inr ⟨⟨_, hreach, hnode⟩, files.set (place ++ [name]) (.file bytes), ?_, alters_set hnode bytes, ?_⟩
      · simp [write, hreach, bind, Except.bind, hnode]
      · rw [node?_set (ne_nil_of_node? hnode), if_pos rfl]

omit hname in
theorem rename_cases {source target : String} (hsource : FileName.Plain source) (htarget : FileName.Plain target)
    (hnode : files.node? (place ++ [source]) = some (.file bytes)) :
    (¬(files.Free (.inside folder source) ∧ files.Free (.inside folder target)) ∧
      ∃ fault, files.rename (.inside folder source) (.inside folder target) = .error fault) ∨
    (files.Free (.inside folder source) ∧ files.Free (.inside folder target)) ∧
      ∃ files', files.rename (.inside folder source) (.inside folder target) = .ok files' ∧
      files.Alters files' [place ++ [source], place ++ [target]] ∧
      files'.node? (place ++ [target]) = some (.file bytes) := by
  obtain ⟨hfree, fault, -, hread⟩ | ⟨hnone, -⟩ | ⟨bytes', hnode', hread⟩ := read_cases hopens hsource
  · exact Or.inl ⟨fun hboth => hfree hboth.1, fault, by rw [rename, hread]; rfl⟩
  · cases hnone.symm.trans hnode
  obtain rfl : bytes' = bytes := by simpa using hnode'.symm.trans hnode
  obtain ⟨hfree, fault, -, hremove⟩ | ⟨hfreeSource, ⟨hnone, -⟩ | ⟨-, -, hremove⟩⟩ := remove_cases hopens hsource
  · exact Or.inl ⟨fun hboth => hfree hboth.1, fault, by rw [rename, hread, hremove]; rfl⟩
  · cases hnone.symm.trans hnode
  have hrename : files.rename (.inside folder source) (.inside folder target) =
      (files.unset (place ++ [source])).write (.inside folder target) bytes' := by
    simp only [rename, hread, hremove, bind, Except.bind]
  have hgone := alters_unset (show files.node? (place ++ [source]) ≠ some .folder by simp [hnode])
  obtain ⟨hfree, fault, hwrite⟩ | ⟨hfreeTarget, moved, hwrite, halters, hmoved⟩ :=
    write_cases (hopens.keeps hgone.keeps) htarget bytes'
  · exact Or.inl ⟨fun hboth => hfree ((hgone.free_iff _).mpr hboth.2), fault, hrename.trans hwrite⟩
  · exact Or.inr ⟨⟨hfreeSource, (hgone.free_iff _).mp hfreeTarget⟩, moved, hrename.trans hwrite, hgone.trans halters,
      hmoved⟩

end

end Muster.Files
