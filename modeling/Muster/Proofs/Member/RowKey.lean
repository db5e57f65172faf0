import Muster.Member.RowKey
import Muster.Proofs.Net.Address

-- A row key tells address, port and generation of its silo, and nothing of the link.
namespace Muster

open Muster.Net Muster.Text

namespace Net

def isAddressChar (c : Char) : Bool := isHexDigit c || c == '.' || c == ':'

theorem isAddressChar_of_isHexDigit {c : Char} (h : isHexDigit c = true) : isAddressChar c = true := by
  simp [isAddressChar, h]

theorem isAddressChar_of_mem_decimal (n : Nat) : ∀ c ∈ decimal n, isAddressChar c = true := fun _ h =>
  isAddressChar_of_isHexDigit (isHexDigit_of_isDigit (isDigit_of_mem_decimal h))

theorem isAddressChar_of_mem_groupsText (groups : List UInt16) : ∀ c ∈ groupsText groups, isAddressChar c = true := by
  have hgroup : ∀ group : UInt16, ∀ c ∈ hexadecimal group.toNat, isAddressChar c = true := fun _ _ h =>
    isAddressChar_of_isHexDigit (isHexDigit_of_mem_hexadecimal h)
  cases groups with
  | nil => simp [groupsText, List.intercalate]
  | cons group groups =>
    rw [groupsText_cons, List.forall_mem_append]
    refine ⟨hgroup group, fun c h => ?_⟩
    obtain ⟨next, -, hnext⟩ := List.mem_flatMap.mp h
    rcases List.mem_cons.mp hnext with rfl | h
    · decide
    · exact hgroup next c h

theorem isAddressChar_of_mem_ipv4_text (ip : Ipv4) : ∀ c ∈ ip.text, isAddressChar c = true := by
  have hpoint : isAddressChar '.' = true := by decide
  obtain ⟨a, b, c, d, rfl⟩ := exists_octets ip
  simp only [Ipv4.text, Ipv4.of, List.intercalate, List.map_cons, List.map_nil, List.intersperse, List.flatten_cons,
    List.flatten_nil, List.forall_mem_append, List.forall_mem_singleton, List.append_nil, hpoint, true_and]
  exact ⟨isAddressChar_of_mem_decimal _, isAddressChar_of_mem_decimal _, isAddressChar_of_mem_decimal _,
    isAddressChar_of_mem_decimal _⟩

theorem isAddressChar_of_mem_text (ip : Ip) : ∀ c ∈ ip.text, isAddressChar c = true := by
  cases ip with
  | v4 ip => exact isAddressChar_of_mem_ipv4_text ip
  | v6 ip =>
    rw [Ip.text, Ipv6.text]
    split
    · exact List.forall_mem_append.mpr ⟨List.all_eq_true.mp (by decide), isAddressChar_of_mem_ipv4_text _⟩
    · dsimp only
      split
      · simp only [List.forall_mem_append]
        exact ⟨⟨isAddressChar_of_mem_groupsText _, List.all_eq_true.mp (by decide)⟩,
          isAddressChar_of_mem_groupsText _⟩
      · exact isAddressChar_of_mem_groupsText _

theorem not_mem_text {c : Char} (h : isAddressChar c = false) (ip : Ip) : c ∉ ip.text := fun hmem => by
  rw [isAddressChar_of_mem_text ip c hmem] at h
  cases h

theorem hyphen_not_mem_text (ip : Ip) : '-' ∉ ip.text := not_mem_text (by decide) ip

theorem not_mem_decimal {c : Char} (h : c.isDigit = false) (n : Nat) : c ∉ decimal n := fun hmem => by
  rw [isDigit_of_mem_decimal hmem] at h
  cases h

theorem hyphen_not_mem_decimal (n : Nat) : '-' ∉ decimal n := not_mem_decimal (by decide) n

end Net

namespace Text

theorem readUInt16?_decimal (n : UInt16) : readUInt16? (decimal n.toNat) = some n := by
  have hlt : n.toNat < UInt16.size := n.toNat_lt
  unfold readUInt16?
  split
  · next digits heq => exact absurd heq (decimal_ne_cons (by decide) _ _)
  · simp [readDecimal?_decimal, hlt]

theorem readInt32?_signedDecimal (n : Int32) : readInt32? (signedDecimal n.toInt) = some n := by
  have hrange : Int32.minValue.toInt ≤ n.toInt ∧ n.toInt ≤ Int32.maxValue.toInt :=
    ⟨n.minValue_le_toInt, n.toInt_le⟩
  have hvalue : Int32.ofInt n.toInt = n := Int32.ofInt_toInt n
  generalize n.toInt = value at hrange hvalue ⊢
  unfold readInt32?
  cases value with
  | ofNat k =>
    rw [signedDecimal]
    split
    · next digits heq => exact absurd heq (decimal_ne_cons (by decide) _ _)
    · next digits heq => exact absurd heq (decimal_ne_cons (by decide) _ _)
    · rw [readDecimal?_decimal, Option.map_some, Option.bind_eq_bind, Option.bind_some]
      dsimp only
      rw [if_pos hrange, hvalue]
  | negSucc k =>
    have hminus : Int.negSucc k = -Int.ofNat (k + 1) := rfl
    rw [hminus] at hrange hvalue
    rw [signedDecimal]
    split
    · next digits heq => exact absurd (List.cons.inj heq).1 (by decide)
    · next digits heq =>
      rw [← (List.cons.inj heq).2, readDecimal?_decimal, Option.map_some, Option.bind_eq_bind,
        Option.bind_some]
      dsimp only
      rw [if_pos hrange, hvalue]
    · next hminus => exact absurd rfl (hminus _)

end Text

namespace RowKey

theorem cut?_append {front : List Char} (h : '-' ∉ front) (rest : List Char) :
    cut? (front ++ '-' :: rest) = some (front, rest) := by
  induction front with
  | nil => rfl
  | cons c front ih =>
    rw [List.mem_cons, not_or] at h
    rw [List.cons_append, cut?, if_neg (Ne.symm h.1), ih h.2]
    rfl

end RowKey

namespace Silo

theorem ofRowKey_rowKey (silo : Silo) :
    ofRowKey silo.rowKey = .ok ⟨.ofIp silo.ip silo.port, silo.generation⟩ := by
  have hne : silo.ip.text.isEmpty = false := by
    cases h : silo.ip.text.isEmpty with
    | false => rfl
    | true =>
      have hread := Ip.ofText?_text silo.ip
      rw [List.isEmpty_iff.mp h, show Ip.ofText? [] = none by decide] at hread
      cases hread
  have hcut := RowKey.cut?_append (hyphen_not_mem_text silo.ip)
    (decimal silo.port.toNat ++ '-' :: signedDecimal silo.generation.toInt)
  have hcut' := RowKey.cut?_append (hyphen_not_mem_decimal silo.port.toNat)
    (signedDecimal silo.generation.toInt)
  rw [ofRowKey, rowKey, String.toList_ofList, List.append_assoc, List.cons_append, hcut]
  simp only [hcut', hne, Bool.false_eq_true, if_false, Ip.ofText?_text, readUInt16?_decimal,
    readInt32?_signedDecimal]

theorem rowKey_eq_iff (a b : Silo) :
    a.rowKey = b.rowKey ↔ a.ip = b.ip ∧ a.port = b.port ∧ a.generation = b.generation := by
  constructor
  · intro h
    have hread := ofRowKey_rowKey a
    rw [h, ofRowKey_rowKey b] at hread
    obtain ⟨hendpoint, hgeneration⟩ := Silo.mk.inj (Except.ok.inj hread)
    refine ⟨?_, ?_, hgeneration.symm⟩
    · simpa using (congrArg Endpoint.ip hendpoint).symm
    · simpa using (congrArg Endpoint.port hendpoint).symm
  · rintro ⟨hip, hport, hgeneration⟩
    rw [rowKey, rowKey, hip, hport, hgeneration]

-- An endpoint that names no flow and no link. Such silos have different row keys.
def Bare (silo : Silo) : Prop := silo.endpoint.Bare

instance (silo : Silo) : Decidable silo.Bare := inferInstanceAs (Decidable silo.endpoint.Bare)

theorem ofIp_eq_self_iff (silo : Silo) : Silo.mk (.ofIp silo.ip silo.port) silo.generation = silo ↔ silo.Bare := by
  constructor
  · intro h
    rw [← h]
    exact Endpoint.bare_ofIp _ _
  · intro h
    rw [Silo.ip, Silo.port, Endpoint.ofIp_ip_port h]

theorem bare_of_ofRowKey {key : String} {silo : Silo} (h : ofRowKey key = .ok silo) : silo.Bare := by
  unfold ofRowKey at h
  split at h
  · cases h
  · split at h
    · cases h
    · split at h
      · cases h
      · split at h
        · cases h
        · cases h
        · cases h
        · rw [← Except.ok.inj h]
          exact Endpoint.bare_ofIp _ _

theorem eq_of_rowKey {a b : Silo} (ha : a.Bare) (hb : b.Bare) (h : a.rowKey = b.rowKey) : a = b := by
  obtain ⟨hip, hport, hgeneration⟩ := (rowKey_eq_iff a b).mp h
  have hendpoint : a.endpoint = b.endpoint := by
    rw [← Endpoint.ofIp_ip_port ha, ← Endpoint.ofIp_ip_port hb]
    exact congrArg₂ Endpoint.ofIp hip hport
  cases a
  cases b
  cases hendpoint
  cases hgeneration
  rfl

theorem rowKey_inj {a b : Silo} (ha : a.Bare) (hb : b.Bare) : a.rowKey = b.rowKey ↔ a = b :=
  ⟨eq_of_rowKey ha hb, congrArg rowKey⟩

-- A link-local silo with the flow of its packets and the link that it is reached over.
def linkLocal (flow link : UInt32) : Silo := ⟨.v6 ⟨[0xfe80, 0, 0, 0, 0, 0, 0, 1], rfl⟩ 80 flow link, 1⟩

theorem rowKey_round_trip (ip : Ip) (port : UInt16) (generation : Int32) :
    ofRowKey (Silo.mk (.ofIp ip port) generation).rowKey = .ok ⟨.ofIp ip port, generation⟩ ∧
    ∀ (ip' : Ip) (port' : UInt16) (generation' : Int32),
      (Silo.mk (.ofIp ip' port') generation').rowKey = (Silo.mk (.ofIp ip port) generation).rowKey ↔
        Silo.mk (.ofIp ip' port') generation' = ⟨.ofIp ip port, generation⟩ := by
  refine ⟨?_, fun ip' port' generation' => ⟨fun h => ?_, fun h => by rw [h]⟩⟩
  · simpa [Silo.ip, Silo.port] using ofRowKey_rowKey ⟨.ofIp ip port, generation⟩
  · obtain ⟨hip, hport, rfl⟩ := (rowKey_eq_iff _ _).mp h
    simp only [Silo.ip, Silo.port, Endpoint.ip_ofIp, Endpoint.port_ofIp] at hip hport
    rw [hip, hport]

end Silo
end Muster
