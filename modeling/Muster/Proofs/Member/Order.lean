import Mathlib.Data.Int.Order.Basic
import Mathlib.Data.List.Lex
import Muster.Member.Silo

-- The order of endpoints and of silos is that of their sort keys, and no two of them share one.
namespace Muster

namespace Net

theorem Endpoint.sortKey_injective {a b : Endpoint} (h : a.sortKey = b.sortKey) : a = b := by
  have hbytes : Function.Injective (List.map UInt8.toNat) := List.map_injective_iff.mpr fun _ _ => UInt8.toNat_inj.mp
  have hgroups : Function.Injective (List.map UInt16.toNat) := List.map_injective_iff.mpr fun _ _ => UInt16.toNat_inj.mp
  cases a with
  | v4 ip port =>
    cases b with
    | v4 ip' port' =>
      obtain ⟨octets, hlength⟩ := ip
      obtain ⟨octets', hlength'⟩ := ip'
      have htail := (List.cons.inj h).2
      obtain ⟨hoctets, hport⟩ := List.append_inj htail (by simp [hlength, hlength'])
      obtain rfl := hbytes hoctets
      obtain rfl := UInt16.toNat_inj.mp (List.cons.inj hport).1
      rfl
    | v6 ip' port' flow' scope' => cases (List.cons.inj h).1
  | v6 ip port flow scope =>
    cases b with
    | v4 ip' port' => cases (List.cons.inj h).1
    | v6 ip' port' flow' scope' =>
      obtain ⟨groups, hlength⟩ := ip
      obtain ⟨groups', hlength'⟩ := ip'
      have htail := (List.cons.inj h).2
      obtain ⟨hmap, hrest⟩ := List.append_inj htail (by simp [hlength, hlength'])
      obtain rfl := hgroups hmap
      obtain ⟨hport, hrest⟩ := List.cons.inj hrest
      obtain ⟨hflow, hscope⟩ := List.cons.inj hrest
      obtain rfl := UInt16.toNat_inj.mp hport
      obtain rfl := UInt32.toNat_inj.mp hflow
      obtain rfl := UInt32.toNat_inj.mp (List.cons.inj hscope).1
      rfl

end Net

namespace Silo

variable {a b : Silo}

theorem sortKey_injective (h : a.sortKey = b.sortKey) : a = b := by
  have hnat : Function.Injective (List.map Int.ofNat) := List.map_injective_iff.mpr fun _ _ => Int.ofNat.inj
  unfold sortKey at h
  obtain ⟨hmap, hlast⟩ := List.append_inj' h (by rw [List.length_singleton, List.length_singleton])
  have hendpoint : a.endpoint = b.endpoint := Net.Endpoint.sortKey_injective (hnat hmap)
  have hgeneration : a.generation = b.generation := Int32.toInt_inj.mp (List.singleton_inj.mp hlast)
  cases a
  cases b
  rw [Silo.mk.injEq]
  exact ⟨hendpoint, hgeneration⟩

theorem le_iff : a.le b = true ↔ a.sortKey ≤ b.sortKey := by
  simp only [Silo.le, Bool.not_eq_true', decide_eq_false_iff_not, not_lt]

theorem order_eq_lt_iff : a.order b = .lt ↔ a.sortKey < b.sortKey := by
  unfold order compareOfLessAndEq
  split
  · next h => exact iff_of_true rfl h
  · next h =>
    split
    · exact iff_of_false nofun h
    · exact iff_of_false nofun h

end Silo

end Muster
