import Mathlib.Tactic.Common
import Muster.Proofs.Text.Run

-- Addresses are read back from their texts, whatever closed text follows.
namespace Muster.Net

open Muster.Text

theorem takeOctet?_decimal (octet : UInt8) {rest : List Char} (h : Stops Char.isDigit rest) :
    takeOctet? (decimal octet.toNat ++ rest) = some (octet, rest) := by
  have hlt := octet.toNat_lt
  have hrun : ∀ c ∈ decimal octet.toNat, c.isDigit = true := fun _ => isDigit_of_mem_decimal
  have hlen := length_decimal_le (k := 3) (by decide) (show octet.toNat < 10 ^ 3 by omega)
  have hzero : ¬(1 < (decimal octet.toNat).length ∧ (decimal octet.toNat).head? = some '0') := by
    rintro ⟨hlong, hhead⟩
    rcases Nat.eq_zero_or_pos octet.toNat with hnull | hpos
    · rw [hnull] at hlong
      exact absurd hlong (by decide)
    · exact head?_decimal_ne_zero hpos hhead
  simp only [takeOctet?, takeWhile_run hrun h, dropWhile_run hrun h, ofDigitChars_decimal]
  rw [if_neg, UInt8.ofNat_toNat]
  simp only [Bool.or_eq_true, Bool.and_eq_true, List.isEmpty_iff, decide_eq_true_eq, beq_iff_eq]
  rintro (((hempty | hlong) | hlead) | hlarge)
  · exact decimal_ne_nil _ hempty
  · omega
  · exact hzero hlead
  · omega

theorem exists_octets (ip : Ipv4) : ∃ a b c d, ip = .of a b c d := by
  obtain ⟨octets, hlen⟩ := ip
  match octets, hlen with
  | [a, b, c, d], _ => exact ⟨a, b, c, d, rfl⟩

theorem takeIpv4?_text (ip : Ipv4) {rest : List Char} (h : Stops Char.isDigit rest) :
    takeIpv4? (ip.text ++ rest) = some (ip, rest) := by
  obtain ⟨a, b, c, d, rfl⟩ := exists_octets ip
  have htext : (Ipv4.of a b c d).text ++ rest =
      decimal a.toNat ++ '.' :: (decimal b.toNat ++ '.' :: (decimal c.toNat ++ '.' ::
        (decimal d.toNat ++ rest))) := by
    simp [Ipv4.text, Ipv4.of, List.intercalate]
  have hdot : ∀ rest, Stops Char.isDigit ('.' :: rest) := stops_cons (by decide)
  rw [htext, takeIpv4?]
  simp only [takeOctet?_decimal _ (hdot _), takeOctet?_decimal d h, after?_cons, Option.bind_eq_bind,
    Option.bind_some]

-- No dotted quad begins with anything but digits and a dot.
theorem takeIpv4?_eq_none {text : List Char} (h : Stops (· == '.') (text.dropWhile Char.isDigit)) :
    takeIpv4? text = none := by
  rw [takeIpv4?]
  cases hoctet : takeOctet? text with
  | none => rfl
  | some found =>
    have hrest : found.2 = text.dropWhile Char.isDigit := by
      simp only [takeOctet?] at hoctet
      split at hoctet
      · cases hoctet
      · exact (Prod.mk.inj (Option.some.inj hoctet)).2 ▸ rfl
    simp only [Option.bind_eq_bind, Option.bind_some, hrest, after?_of_stops h, Option.bind_none]

theorem takeGroup?_hexadecimal (group : UInt16) {rest : List Char} (h : Stops isHexDigit rest) :
    takeGroup? (hexadecimal group.toNat ++ rest) = some (group, rest) := by
  have hlt := group.toNat_lt
  have hrun : ∀ c ∈ hexadecimal group.toNat, isHexDigit c = true := fun _ => isHexDigit_of_mem_hexadecimal
  have hlen := length_hexadecimal_le (k := 4) (by decide) (show group.toNat < 16 ^ 4 by omega)
  have hne : hexadecimal group.toNat ≠ [] := Nat.toDigits_ne_nil
  simp only [takeGroup?, takeWhile_run hrun h, dropWhile_run hrun h, hexNumber_hexadecimal]
  rw [if_neg, UInt16.ofNat_toNat]
  simp only [Bool.or_eq_true, List.isEmpty_iff, decide_eq_true_eq, hne, false_or]
  omega

theorem takeGroup?_eq_none {text : List Char} (h : Stops isHexDigit text) : takeGroup? text = none := by
  rw [takeGroup?, h.takeWhile]
  rfl

def groupsBehind (groups : List UInt16) : List Char :=
  groups.flatMap fun group => ':' :: hexadecimal group.toNat

theorem groupsText_cons (group : UInt16) (groups : List UInt16) :
    groupsText (group :: groups) = hexadecimal group.toNat ++ groupsBehind groups := by
  induction groups generalizing group with
  | nil => simp [groupsText, groupsBehind, List.intercalate]
  | cons next groups ih =>
    have hnext := ih next
    rw [groupsText, List.map_cons] at hnext
    rw [groupsText, List.map_cons, List.map_cons, List.intercalate_cons_cons, hnext]
    simp [groupsBehind]

theorem stops_groupsBehind {p : Char → Bool} {rest : List Char} (hcolon : p ':' = false) (h : Stops p rest)
    (groups : List UInt16) : Stops p (groupsBehind groups ++ rest) := by
  cases groups with
  | nil => exact h
  | cons group groups => exact stops_cons hcolon _

-- What can follow groups without being taken for a part of them.
structure Closed (rest : List Char) : Prop where
  digit : Stops isHexDigit rest
  dot : Stops (· == '.') rest
  colon : ∀ limit, takeGroups limit false rest = ([], false, rest)

theorem Closed.decimal {rest : List Char} (h : Closed rest) : Stops Char.isDigit rest :=
  h.digit.mono fun _ => isHexDigit_of_isDigit

theorem takeIpv4?_of_stops {rest : List Char} (hdigit : Stops isHexDigit rest) (hdot : Stops (· == '.') rest) :
    takeIpv4? rest = none :=
  takeIpv4?_eq_none (by rwa [(hdigit.mono fun _ => isHexDigit_of_isDigit).dropWhile])

theorem closed_of_stops {rest : List Char} (hdigit : Stops isHexDigit rest) (hdot : Stops (· == '.') rest)
    (hcolon : Stops (· == ':') rest) : Closed rest where
  digit := hdigit
  dot := hdot
  colon limit := by
    cases limit with
    | zero => rfl
    | succ limit => rw [takeGroups, if_neg Bool.false_ne_true, after?_of_stops hcolon]

theorem closed_nil : Closed [] := closed_of_stops (stops_nil _) (stops_nil _) (stops_nil _)

-- A colon with another one behind it belongs to no group.
theorem closed_colons (rest : List Char) : Closed (':' :: ':' :: rest) where
  digit := stops_cons (by decide) _
  dot := stops_cons (by decide) _
  colon limit := by
    cases limit with
    | zero => rfl
    | succ limit =>
      have hdigit : Stops isHexDigit (':' :: rest) := stops_cons (by decide) _
      have hquad : takeIpv4? (':' :: rest) = none := takeIpv4?_of_stops hdigit (stops_cons (by decide) _)
      rw [takeGroups, if_neg Bool.false_ne_true, after?_cons]
      simp only [hquad, ite_self, takeGroup?_eq_none hdigit]

theorem takeIpv4?_group (group : UInt16) {rest : List Char} (hdigit : Stops isHexDigit rest)
    (hdot : Stops (· == '.') rest) : takeIpv4? (hexadecimal group.toNat ++ rest) = none := by
  refine takeIpv4?_eq_none (stops_dropWhile_run (fun c hc => ?_) hdot
    (hdigit.mono fun _ => isHexDigit_of_isDigit))
  have hhex := isHexDigit_of_mem_hexadecimal hc
  refine beq_eq_false_iff_ne.mpr fun heq => ?_
  rw [heq] at hhex
  exact absurd hhex (by decide)

theorem takeGroups_group (limit : Nat) (first : Bool) (group : UInt16) {rest : List Char}
    (hdigit : Stops isHexDigit rest) (hdot : Stops (· == '.') rest) :
    takeGroups (limit + 1) first ((if first then [] else [':']) ++ (hexadecimal group.toNat ++ rest)) =
      let (groups, dotted, rest) := takeGroups limit false rest
      (group :: groups, dotted, rest) := by
  cases first <;>
    simp [takeGroups, after?_cons, takeIpv4?_group group hdigit hdot, takeGroup?_hexadecimal group hdigit]

theorem takeGroups_behind {groups : List UInt16} {limit : Nat} (hlen : groups.length ≤ limit)
    {rest : List Char} (h : Closed rest) :
    takeGroups limit false (groupsBehind groups ++ rest) = (groups, false, rest) := by
  induction groups generalizing limit with
  | nil => exact h.colon limit
  | cons group groups ih =>
    obtain _ | limit := limit
    · exact absurd hlen (Nat.not_succ_le_zero _)
    have hstep := takeGroups_group limit false group (stops_groupsBehind (by decide) h.digit groups)
      (stops_groupsBehind (by decide) h.dot groups)
    rw [ih (Nat.le_of_succ_le_succ hlen)] at hstep
    simpa [groupsBehind] using hstep

theorem takeGroups_groupsText {groups : List UInt16} {limit : Nat} (hlen : groups.length ≤ limit)
    {rest : List Char} (h : Closed rest) :
    takeGroups limit true (groupsText groups ++ rest) = (groups, false, rest) := by
  cases groups with
  | nil =>
    cases limit with
    | zero => rfl
    | succ limit =>
      simp [groupsText, List.intercalate, takeGroups, takeIpv4?_of_stops h.digit h.dot,
        takeGroup?_eq_none h.digit]
  | cons group groups =>
    obtain _ | limit := limit
    · exact absurd hlen (Nat.not_succ_le_zero _)
    have hstep := takeGroups_group limit true group (stops_groupsBehind (by decide) h.digit groups)
      (stops_groupsBehind (by decide) h.dot groups)
    rw [takeGroups_behind (Nat.le_of_succ_le_succ hlen) h] at hstep
    simpa [groupsText_cons] using hstep

theorem zeros_append_drop (groups : List UInt16) :
    List.replicate (groups.takeWhile (· == 0)).length 0 ++ groups.drop (groups.takeWhile (· == 0)).length =
      groups := by
  have hzeros : groups.takeWhile (· == 0) = List.replicate (groups.takeWhile (· == 0)).length 0 :=
    List.eq_replicate_iff.mpr ⟨rfl, fun group h => by
      simpa using List.all_eq_true.mp (List.all_takeWhile (p := (· == (0 : UInt16)))) group h⟩
  have hdrop : groups.drop (groups.takeWhile (· == 0)).length = groups.dropWhile (· == 0) := by
    have hsplit := List.takeWhile_append_dropWhile (p := (· == 0)) (l := groups)
    calc groups.drop (groups.takeWhile (· == 0)).length
        = (groups.takeWhile (· == 0) ++ groups.dropWhile (· == 0)).drop (groups.takeWhile (· == 0)).length := by
          rw [hsplit]
      _ = groups.dropWhile (· == 0) := List.drop_left
  rw [hdrop, ← hzeros, List.takeWhile_append_dropWhile]

-- The groups that two colons leave out are zeros, so the others tell the whole address.
theorem longestZeros_spec (groups : List UInt16) :
    groups.take (longestZeros groups).1 ++ List.replicate (longestZeros groups).2 0 ++
      groups.drop ((longestZeros groups).1 + (longestZeros groups).2) = groups ∧
    (longestZeros groups).1 + (longestZeros groups).2 ≤ groups.length := by
  induction groups with
  | nil => simp [longestZeros]
  | cons group groups ih =>
    obtain ⟨hsplit, hlen⟩ := ih
    rw [longestZeros]
    dsimp only
    split
    · refine ⟨?_, ?_⟩
      · rw [List.take_zero, List.nil_append, Nat.zero_add]
        exact zeros_append_drop (group :: groups)
      · rw [Nat.zero_add]
        exact (List.takeWhile_prefix _).length_le
    · refine ⟨?_, ?_⟩
      · rw [List.take_succ_cons, Nat.add_right_comm, List.drop_succ_cons, List.cons_append, List.cons_append,
          hsplit]
      · rw [List.length_cons]
        omega

theorem groups_of_mapped? {ip : Ipv6} {inner : Ipv4} (h : ip.mapped? = some inner) :
    ip.groups = [0, 0, 0, 0, 0, 0xffff] ++ inner.groups := by
  obtain ⟨groups, hlen⟩ := ip
  rw [Ipv6.mapped?] at h
  split at h
  · next ab cd hgroups =>
    have hword : ∀ word : UInt16, (word / 256).toUInt8.toUInt16 * 256 + word.toUInt8.toUInt16 = word := by
      intro word
      have hlt := word.toNat_lt
      apply UInt16.toNat_inj.mp
      simp only [UInt16.toNat_add, UInt16.toNat_mul, UInt8.toNat_toUInt16, UInt16.toNat_toUInt8, UInt16.toNat_div,
        UInt16.reduceToNat]
      omega
    obtain rfl := Option.some.inj h
    simp only [Ipv4.groups, Ipv4.of, hword]
    exact hgroups
  · cases h

theorem ofGroups?_self (ip : Ipv6) : Ipv6.ofGroups? ip.groups = some ip := dif_pos ip.length_groups

-- Groups, two colons and groups again are the address that has zeros where the colons stand.
theorem takeIpv6?_colons {ip : Ipv6} {front back : List UInt16} {dotted : Bool} {whole text rest : List Char}
    (hfront : takeGroups 8 true whole = (front, false, ':' :: ':' :: text)) (hlen : front.length < 8)
    (hback : takeGroups (7 - front.length) true text = (back, dotted, rest))
    (hip : front ++ List.replicate (8 - front.length - back.length) 0 ++ back = ip.groups) :
    takeIpv6? whole = some (ip, rest) := by
  rw [takeIpv6?, hfront]
  simp only [if_neg (Nat.ne_of_lt hlen), Bool.false_eq_true, if_false, after?_cons, hback, hip,
    ofGroups?_self, Option.bind_eq_bind, Option.bind_some]

theorem takeIpv6?_mapped {ip : Ipv6} {inner : Ipv4} (hip : ip.mapped? = some inner) {rest : List Char}
    (h : Stops Char.isDigit rest) :
    takeIpv6? ("::ffff:".toList ++ inner.text ++ rest) = some (ip, rest) := by
  have hquad : takeGroups 6 false (':' :: (inner.text ++ rest)) = (inner.groups, true, rest) := by
    rw [takeGroups, if_neg Bool.false_ne_true, after?_cons]
    simp only [takeIpv4?_text inner h]
    rfl
  have hback : takeGroups 7 true ("ffff:".toList ++ (inner.text ++ rest)) = (0xffff :: inner.groups, true, rest) := by
    have hcolon : ∀ {p}, p ':' = false → Stops p (':' :: (inner.text ++ rest)) := fun h => stops_cons h _
    have hstep := takeGroups_group 6 true 0xffff (hcolon (by decide)) (hcolon (by decide))
    rwa [hquad] at hstep
  have hinner : inner.groups.length = 2 := by
    obtain ⟨a, b, c, d, rfl⟩ := exists_octets inner
    rfl
  have hfront : takeGroups 8 true ("::ffff:".toList ++ inner.text ++ rest) =
      ([], false, ':' :: ':' :: ("ffff:".toList ++ (inner.text ++ rest))) := by
    rw [List.append_assoc]
    have hnone : ([] : List UInt16).length ≤ 8 := Nat.zero_le 8
    exact takeGroups_groupsText hnone (closed_colons _)
  refine takeIpv6?_colons hfront (by decide) hback ?_
  · rw [groups_of_mapped? hip, List.length_cons, hinner]
    rfl

theorem takeIpv6?_text (ip : Ipv6) {rest : List Char} (h : Closed rest) :
    takeIpv6? (ip.text ++ rest) = some (ip, rest) := by
  rw [Ipv6.text]
  split
  · next inner hinner => exact takeIpv6?_mapped hinner h.decimal
  · obtain ⟨hsplit, hlen⟩ := longestZeros_spec ip.groups
    generalize longestZeros ip.groups = zeros at hsplit hlen ⊢
    obtain ⟨start, length⟩ := zeros
    rw [ip.length_groups] at hlen
    dsimp only at hsplit hlen ⊢
    split
    · next hlong =>
      have hfront : (ip.groups.take start).length = start := by
        rw [List.length_take, ip.length_groups]
        omega
      have hback : (ip.groups.drop (start + length)).length = 8 - (start + length) := by
        rw [List.length_drop, ip.length_groups]
      rw [List.append_assoc, List.append_assoc]
      refine takeIpv6?_colons (takeGroups_groupsText (by omega) (closed_colons _)) (by omega)
        (takeGroups_groupsText (by omega) h) ?_
      rw [hfront, hback, show 8 - start - (8 - (start + length)) = length by omega]
      exact hsplit
    · rw [takeIpv6?, takeGroups_groupsText (Nat.le_of_eq ip.length_groups) h]
      simp [ip.length_groups, ofGroups?_self]

-- No address of one kind is read as one of the other.
theorem takeIpv4?_ipv6_text (ip : Ipv6) {rest : List Char} (h : Closed rest) :
    takeIpv4? (ip.text ++ rest) = none := by
  have hcolon : ∀ text, takeIpv4? (':' :: text) = none := fun text =>
    takeIpv4?_of_stops (stops_cons (by decide) _) (stops_cons (by decide) _)
  have hgroups : ∀ groups : List UInt16, ∀ {rest : List Char}, Closed rest →
      takeIpv4? (groupsText groups ++ rest) = none := by
    intro groups rest h
    cases groups with
    | nil => exact takeIpv4?_of_stops h.digit h.dot
    | cons group groups =>
      rw [groupsText_cons, List.append_assoc]
      exact takeIpv4?_group group (stops_groupsBehind (by decide) h.digit groups)
        (stops_groupsBehind (by decide) h.dot groups)
  rw [Ipv6.text]
  split
  · exact hcolon _
  · dsimp only
    split
    · rw [List.append_assoc, List.append_assoc]
      exact hgroups _ (closed_colons _)
    · exact hgroups _ h

theorem Ip.ofText?_text (ip : Ip) : Ip.ofText? ip.text = some ip := by
  cases ip with
  | v4 ip =>
    have hread := takeIpv4?_text ip (stops_nil Char.isDigit)
    rw [List.append_nil] at hread
    simp only [Ip.text, Ip.ofText?, hread]
  | v6 ip =>
    have hquad := takeIpv4?_ipv6_text ip closed_nil
    have hread := takeIpv6?_text ip closed_nil
    rw [List.append_nil] at hquad hread
    simp only [Ip.text, Ip.ofText?, hquad, hread]

end Muster.Net
