import Muster.Text.Numeral

namespace Muster.Net

structure Ipv4 where
  octets : List UInt8
  length_octets : octets.length = 4
deriving DecidableEq

structure Ipv6 where
  groups : List UInt16
  length_groups : groups.length = 8
deriving DecidableEq

inductive Ip where
  | v4 (ip : Ipv4)
  | v6 (ip : Ipv6)
deriving DecidableEq

def Ipv4.of (a b c d : UInt8) : Ipv4 := ⟨[a, b, c, d], rfl⟩

def Ipv4.loopback : Ipv4 := .of 127 0 0 1

def Ipv4.groups (ip : Ipv4) : List UInt16 :=
  match ip.octets with
  | [a, b, c, d] => [a.toUInt16 * 256 + b.toUInt16, c.toUInt16 * 256 + d.toUInt16]
  | _ => []

def Ipv6.ofGroups? (groups : List UInt16) : Option Ipv6 :=
  if h : groups.length = 8 then some ⟨groups, h⟩ else none

-- The IPv4 address that an IPv6 address of the block ::ffff:0:0/96 stands for.
def Ipv6.mapped? (ip : Ipv6) : Option Ipv4 :=
  match ip.groups with
  | [0, 0, 0, 0, 0, 0xffff, ab, cd] =>
    some (.of (ab / 256).toUInt8 ab.toUInt8 (cd / 256).toUInt8 cd.toUInt8)
  | _ => none

-- Where the first of the longest runs of zero groups starts, and how long it is.
def longestZeros : List UInt16 → Nat × Nat
  | [] => (0, 0)
  | group :: groups =>
    let here := ((group :: groups).takeWhile (· == 0)).length
    let (start, length) := longestZeros groups
    if length ≤ here then (0, here) else (start + 1, length)

def groupsText (groups : List UInt16) : List Char :=
  List.intercalate [':'] (groups.map fun group => Text.hexadecimal group.toNat)

def Ipv4.text (ip : Ipv4) : List Char :=
  List.intercalate ['.'] (ip.octets.map fun octet => Text.decimal octet.toNat)

-- Two colons stand for the longest run of zero groups, if it has two or more of them.
def Ipv6.text (ip : Ipv6) : List Char :=
  match ip.mapped? with
  | some inner => "::ffff:".toList ++ inner.text
  | none =>
    let (start, length) := longestZeros ip.groups
    if 1 < length then
      groupsText (ip.groups.take start) ++ [':', ':'] ++ groupsText (ip.groups.drop (start + length))
    else groupsText ip.groups

def Ip.text : Ip → List Char
  | .v4 ip => ip.text
  | .v6 ip => ip.text

end Muster.Net
