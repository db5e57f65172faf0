import Muster.Net.Endpoint
import Muster.Proofs.Net.Address

-- Endpoints are read back from their texts, with the links of IPv6 endpoints and without their flows.
namespace Muster.Net

open Muster.Text

theorem takeBounded?_decimal {n bound : Nat} (hn : n < bound) {rest : List Char} (h : Stops Char.isDigit rest) :
    takeBounded? bound (decimal n ++ rest) = some (n, rest) := by
  have hrun : ∀ c ∈ decimal n, c.isDigit = true := fun _ => isDigit_of_mem_decimal
  rw [takeBounded?, takeWhile_run hrun h, dropWhile_run hrun h, readDecimal?_decimal]
  exact if_pos hn

namespace Endpoint

theorem takePort?_decimal (port : UInt16) {rest : List Char} (h : Stops Char.isDigit rest) :
    takePort? (':' :: decimal port.toNat ++ rest) = some (port, rest) := by
  rw [takePort?, List.cons_append, after?_cons]
  simp [takeBounded?_decimal (show port.toNat < UInt16.size from port.toNat_lt) h]

def linkText (scope : UInt32) : List Char := if scope = 0 then [] else '%' :: decimal scope.toNat

theorem takeScope_linkText (scope : UInt32) (rest : List Char) :
    takeScope (linkText scope ++ ']' :: rest) = (scope, ']' :: rest) := by
  have hstop : ∀ {p : Char → Bool}, p ']' = false → Stops p (']' :: rest) := fun h => stops_cons h rest
  by_cases hscope : scope = 0
  · rw [linkText, if_pos hscope, List.nil_append, takeScope, after?_of_stops (hstop (by decide)), hscope]
    rfl
  · rw [linkText, if_neg hscope, takeScope, List.cons_append, after?_cons, Option.bind_some,
      takeBounded?_decimal (show scope.toNat < UInt32.size from scope.toNat_lt) (hstop (by decide))]
    simp

theorem closed_linkText (scope : UInt32) (rest : List Char) : Closed (linkText scope ++ ']' :: rest) := by
  by_cases hscope : scope = 0
  · rw [linkText, if_pos hscope]
    exact closed_of_stops (stops_cons (by decide) _) (stops_cons (by decide) _) (stops_cons (by decide) _)
  · rw [linkText, if_neg hscope]
    exact closed_of_stops (stops_cons (by decide) _) (stops_cons (by decide) _) (stops_cons (by decide) _)

theorem takeV4?_text (ip : Ipv4) (port : UInt16) :
    takeV4? (Endpoint.v4 ip port).text = some (.v4 ip port, []) := by
  have hport := takePort?_decimal port (stops_nil Char.isDigit)
  rw [List.append_nil] at hport
  rw [takeV4?, text, takeIpv4?_text ip (stops_cons (by decide) _)]
  simp only [Option.bind_eq_bind, Option.bind_some, hport]

theorem takeV6?_text (ip : Ipv6) (port : UInt16) (flow scope : UInt32) :
    takeV6? (Endpoint.v6 ip port flow scope).text = some (.v6 ip port 0 scope, []) := by
  have hport := takePort?_decimal port (stops_nil Char.isDigit)
  rw [List.append_nil] at hport
  have htext : (Endpoint.v6 ip port flow scope).text =
      '[' :: (ip.text ++ (linkText scope ++ ']' :: ':' :: decimal port.toNat)) := by
    simp [text, linkText]
  rw [takeV6?, htext, after?_cons]
  simp only [Option.bind_eq_bind, Option.bind_some, takeIpv6?_text ip (closed_linkText scope _),
    takeScope_linkText, after?_cons, hport]

theorem takeV4?_ipv6_text (ip : Ipv6) (port : UInt16) (flow scope : UInt32) :
    takeV4? (Endpoint.v6 ip port flow scope).text = none := by
  have hquad : takeIpv4? (Endpoint.v6 ip port flow scope).text = none := by
    rw [text]
    exact takeIpv4?_of_stops (stops_cons (by decide) _) (stops_cons (by decide) _)
  rw [takeV4?, hquad]
  rfl

-- What is read back from the text of an endpoint.
def reread : Endpoint → Endpoint
  | .v4 ip port => .v4 ip port
  | .v6 ip port _ scope => .v6 ip port 0 scope

theorem reread_eq_self_iff {endpoint : Endpoint} : endpoint.reread = endpoint ↔ endpoint.flow = 0 := by
  cases endpoint with
  | v4 ip port => exact ⟨fun _ => rfl, fun _ => rfl⟩
  | v6 ip port flow scope => simp [reread, Endpoint.flow, eq_comm]

@[simp] theorem ip_reread (endpoint : Endpoint) : endpoint.reread.ip = endpoint.ip := by cases endpoint <;> rfl

@[simp] theorem port_reread (endpoint : Endpoint) : endpoint.reread.port = endpoint.port := by cases endpoint <;> rfl

theorem ofText?_text (endpoint : Endpoint) : ofText? endpoint.text = some endpoint.reread := by
  cases endpoint with
  | v4 ip port => simp [ofText?, takeV4?_text, reread]
  | v6 ip port flow scope => simp [ofText?, takeV4?_ipv6_text, takeV6?_text, reread]

end Endpoint
end Muster.Net
