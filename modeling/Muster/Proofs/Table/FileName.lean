import Muster.Table.FileName

-- The names of the files of a deployment: they tell deployments apart, and each names one thing in a folder.
namespace Muster.FileName

theorem upperDigit_injective {m n : Nat} (hm : m < 16) (hn : n < 16) (h : upperDigit m = upperDigit n) : m = n := by
  have hall : ∀ m < 16, ∀ n < 16, upperDigit m = upperDigit n → m = n := by decide
  exact hall m hm n hn h

theorem toNat_ofNat (byte : UInt8) : (Char.ofNat byte.toNat).toNat = byte.toNat := by
  have hvalid : byte.toNat.isValidChar := Or.inl (Nat.lt_trans byte.toNat_lt (by decide))
  rw [Char.ofNat, dif_pos hvalid]
  rfl

theorem byte_eq_of_char_eq {a b : UInt8} (h : Char.ofNat a.toNat = Char.ofNat b.toNat) : a = b := by
  rw [← UInt8.toNat_inj, ← toNat_ofNat a, h, toNat_ofNat]

theorem ne_percent_of_isPlain {byte : UInt8} (h : isPlain byte = true) : Char.ofNat byte.toNat ≠ '%' := by
  intro hchar
  obtain rfl : byte = 0x25 := byte_eq_of_char_eq (hchar.trans (by decide))
  exact absurd h (by decide)

-- The first byte can be told from the text, and so can what is left of it.
theorem escapeByte_append_injective {a b : UInt8} {more more' : List Char}
    (h : escapeByte a ++ more = escapeByte b ++ more') : a = b ∧ more = more' := by
  unfold escapeByte at h
  split at h
  · next ha =>
    split at h
    · next hb =>
      obtain ⟨hchar, hmore⟩ := List.cons.inj h
      exact ⟨byte_eq_of_char_eq hchar, hmore⟩
    · exact absurd (List.cons.inj h).1 (ne_percent_of_isPlain ha)
  · next ha =>
    split at h
    · next hb => exact absurd (List.cons.inj h).1.symm (ne_percent_of_isPlain hb)
    · obtain ⟨hhigh, hrest⟩ := List.cons.inj (List.cons.inj h).2
      obtain ⟨hlow, hmore⟩ := List.cons.inj hrest
      have hbound : ∀ byte : UInt8, byte.toNat < 256 := UInt8.toNat_lt
      have hdiv := upperDigit_injective (Nat.div_lt_of_lt_mul (hbound a)) (Nat.div_lt_of_lt_mul (hbound b)) hhigh
      have hmod := upperDigit_injective (Nat.mod_lt _ (by decide)) (Nat.mod_lt _ (by decide)) hlow
      refine ⟨UInt8.toNat_inj.mp ?_, hmore⟩
      omega

theorem escapeByte_ne_nil (byte : UInt8) : escapeByte byte ≠ [] := by
  unfold escapeByte
  split <;> exact List.cons_ne_nil _ _

theorem flatMap_escapeByte_injective {bytes bytes' : List UInt8}
    (h : bytes.flatMap escapeByte = bytes'.flatMap escapeByte) : bytes = bytes' := by
  induction bytes generalizing bytes' with
  | nil =>
    cases bytes' with
    | nil => rfl
    | cons byte bytes' => exact absurd (List.append_eq_nil_iff.mp h.symm).1 (escapeByte_ne_nil byte)
  | cons byte bytes ih =>
    cases bytes' with
    | nil => exact absurd (List.append_eq_nil_iff.mp h).1 (escapeByte_ne_nil byte)
    | cons byte' bytes' =>
      obtain ⟨rfl, hrest⟩ := escapeByte_append_injective h
      rw [ih hrest]

theorem stem_injective {a b : String} (h : stem a = stem b) : a = b := by
  have hbytes := flatMap_escapeByte_injective (String.ofList_injective h)
  exact String.toByteArray_inj.mp (ByteArray.ext (Array.toList_inj.mp hbytes))

theorem stroke_not_mem_escapeByte (byte : UInt8) : '/' ∉ escapeByte byte := by
  have hall : ∀ n < 256, '/' ∉ escapeByte (UInt8.ofNat n) := by decide +kernel
  simpa using hall byte.toNat byte.toNat_lt

theorem stroke_not_mem_stem (deployment : String) : '/' ∉ (stem deployment).toList := by
  rw [stem, String.toList_ofList, List.mem_flatMap]
  rintro ⟨byte, -, h⟩
  exact stroke_not_mem_escapeByte byte h

-- A name that a path can end in: one part, which leads into the folder.
structure Plain (name : String) : Prop where
  stroke : '/' ∉ name.toList
  ne_empty : name ≠ ""
  ne_stop : name ≠ "."
  ne_stops : name ≠ ".."

theorem plain_append {ending : String} (hstroke : '/' ∉ ending.toList) (hlong : 2 < ending.toList.length)
    (deployment : String) : Plain (stem deployment ++ ending) := by
  have hlen : 2 < (stem deployment ++ ending).toList.length := by
    rw [String.toList_append, List.length_append]
    omega
  refine ⟨?_, ?_, ?_, ?_⟩
  · rw [String.toList_append, List.mem_append]
    exact not_or.mpr ⟨stroke_not_mem_stem deployment, hstroke⟩
  all_goals
    intro h
    rw [h] at hlen
    exact absurd hlen (by decide)

theorem plain_document (deployment : String) : Plain (document deployment) :=
  plain_append (by decide) (by decide) deployment

theorem plain_draft (deployment : String) : Plain (draft deployment) :=
  plain_append (by decide) (by decide) deployment

theorem plain_lock (deployment : String) : Plain (lock deployment) :=
  plain_append (by decide) (by decide) deployment

theorem append_ne_append {ending ending' : String} {c c' : Char} (h : ending.toList.getLast? = some c)
    (h' : ending'.toList.getLast? = some c') (hne : c ≠ c') (a b : String) : a ++ ending ≠ b ++ ending' := by
  intro heq
  have hlast := congrArg (fun text => text.toList.getLast?) heq
  simp only [String.toList_append, List.getLast?_append, h, h', Option.some_or] at hlast
  exact hne (Option.some.inj hlast)

theorem draft_ne_document (a b : String) : draft a ≠ document b :=
  append_ne_append (show ".json.tmp".toList.getLast? = some 'p' by decide)
    (show ".json".toList.getLast? = some 'n' by decide) (by decide) _ _

theorem lock_ne_document (a b : String) : lock a ≠ document b :=
  append_ne_append (show ".lock".toList.getLast? = some 'k' by decide)
    (show ".json".toList.getLast? = some 'n' by decide) (by decide) _ _

theorem lock_ne_draft (a b : String) : lock a ≠ draft b :=
  append_ne_append (show ".lock".toList.getLast? = some 'k' by decide)
    (show ".json.tmp".toList.getLast? = some 'p' by decide) (by decide) _ _

theorem append_injective {ending a b : String} (h : stem a ++ ending = stem b ++ ending) : a = b := by
  have hlists := congrArg String.toList h
  rw [String.toList_append, String.toList_append] at hlists
  exact stem_injective (String.toList_inj.mp (List.append_cancel_right hlists))

theorem document_injective {a b : String} (h : document a = document b) : a = b := append_injective h

theorem draft_injective {a b : String} (h : draft a = draft b) : a = b := append_injective h

theorem lock_injective {a b : String} (h : lock a = lock b) : a = b := append_injective h

end Muster.FileName
