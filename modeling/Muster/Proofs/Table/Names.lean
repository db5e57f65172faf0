import Muster.Proofs.Table.FileTable

-- Deployments whose documents lie in one folder: which files are whose, and where they are.
namespace Muster.FileName

-- What a name is made of. None of it divides a path, or means anything else to a file system.
def isPortable (c : Char) : Bool := c.isAlphanum || c == '%' || c == '-' || c == '_' || c == '.'

theorem all_isPortable_escapeByte (byte : UInt8) : (escapeByte byte).all isPortable = true := by
  have hall : ∀ n < 256, (escapeByte (UInt8.ofNat n)).all isPortable = true := by decide +kernel
  simpa using hall byte.toNat byte.toNat_lt

theorem isPortable_of_mem_append {ending deployment : String} (hending : ending.toList.all isPortable = true)
    {c : Char} (h : c ∈ (stem deployment ++ ending).toList) : isPortable c = true := by
  rw [String.toList_append, List.mem_append] at h
  rcases h with h | h
  · rw [stem, String.toList_ofList, List.mem_flatMap] at h
    obtain ⟨byte, -, h⟩ := h
    exact List.all_eq_true.mp (all_isPortable_escapeByte byte) c h
  · exact List.all_eq_true.mp hending c h

-- The files of a deployment.
def all (deployment : String) : List String := [document deployment, draft deployment, lock deployment]

theorem nodup_all (deployment : String) : (all deployment).Nodup := by
  have hdraft := draft_ne_document deployment deployment
  have hlock := lock_ne_document deployment deployment
  have hboth := lock_ne_draft deployment deployment
  simp [all, hdraft.symm, hlock.symm, hboth.symm]

theorem ne_of_mem_all {a b name other : String} (h : a ≠ b) (hname : name ∈ all a) (hother : other ∈ all b) :
    name ≠ other := by
  simp only [all, List.mem_cons, List.not_mem_nil, or_false] at hname hother
  rcases hname with rfl | rfl | rfl
  · rcases hother with rfl | rfl | rfl
    · exact fun heq => h (document_injective heq)
    · exact (draft_ne_document b a).symm
    · exact (lock_ne_document b a).symm
  · rcases hother with rfl | rfl | rfl
    · exact draft_ne_document a b
    · exact fun heq => h (draft_injective heq)
    · exact (lock_ne_draft b a).symm
  · rcases hother with rfl | rfl | rfl
    · exact lock_ne_document a b
    · exact lock_ne_draft a b
    · exact fun heq => h (lock_injective heq)

-- A name that stands for one thing in the folder it is looked up in, wherever that is. It may be too long.
structure Inside (name : String) : Prop where
  plain : Plain name
  portable : ∀ c ∈ name.toList, isPortable c = true
  reach : ∀ (table : FileTable) (files : Files) (place : Place), files.Opens table.folder place →
    files.reach (table.path name) =
      if (table.path name).fits ∧ name.utf8ByteSize ≤ 255 then .ok (place ++ [name]) else .error .invalidName

theorem inside_of_plain {ending deployment : String} (hplain : Plain (stem deployment ++ ending))
    (hending : ending.toList.all isPortable = true) : Inside (stem deployment ++ ending) where
  plain := hplain
  portable _ h := isPortable_of_mem_append hending h
  reach _ _ _ hopens := hopens.reach_inside hplain

theorem inside_of_mem_all {deployment name : String} (h : name ∈ all deployment) : Inside name := by
  simp only [all, List.mem_cons, List.not_mem_nil, or_false] at h
  rcases h with rfl | rfl | rfl
  · exact inside_of_plain (plain_document deployment) (by decide)
  · exact inside_of_plain (plain_draft deployment) (by decide)
  · exact inside_of_plain (plain_lock deployment) (by decide)

-- Two deployments have no name in common, whatever they are called, and every file of theirs is in the folder itself.
theorem names_stay_apart {a b : String} (h : a ≠ b) :
    stem a ≠ stem b ∧ (all a ++ all b).Nodup ∧ ∀ name ∈ all a ++ all b, Inside name := by
  refine ⟨fun heq => h (stem_injective heq), ?_, fun name hname => ?_⟩
  · rw [List.nodup_append]
    exact ⟨nodup_all a, nodup_all b, fun name hname other hother => ne_of_mem_all h hname hother⟩
  · rcases List.mem_append.mp hname with hname | hname
    · exact inside_of_mem_all hname
    · exact inside_of_mem_all hname

-- A deployment that is called like the document of another one, which leads out of the folder as it is written.
theorem names_stay_apart_nested :
    let a := "../é"
    let b := "..%2F%C3%A9.json"
    a ≠ b ∧ all a = ["..%2F%C3%A9.json", "..%2F%C3%A9.json.tmp", "..%2F%C3%A9.lock"] ∧ stem a ≠ stem b ∧
    (all a ++ all b).Nodup ∧ ∀ name ∈ all a ++ all b, Inside name := by
  intro a b
  have hne : a ≠ b := by decide
  exact ⟨hne, by decide +kernel, names_stay_apart hne⟩

end Muster.FileName
