import Muster.Net.Reader

namespace Muster.Net

-- Where a silo listens. An IPv6 endpoint can name the flow of its packets and the link that its address belongs to.
inductive Endpoint where
  | v4 (ip : Ipv4) (port : UInt16)
  | v6 (ip : Ipv6) (port : UInt16) (flow scope : UInt32)
deriving DecidableEq

namespace Endpoint

def ofIp : Ip → UInt16 → Endpoint
  | .v4 ip, port => .v4 ip port
  | .v6 ip, port => .v6 ip port 0 0

def ip : Endpoint → Ip
  | .v4 ip _ => .v4 ip
  | .v6 ip _ _ _ => .v6 ip

def port : Endpoint → UInt16
  | .v4 _ port => port
  | .v6 _ port _ _ => port

def flow : Endpoint → UInt32
  | .v4 _ _ => 0
  | .v6 _ _ flow _ => flow

def scope : Endpoint → UInt32
  | .v4 _ _ => 0
  | .v6 _ _ _ scope => scope

@[simp] theorem ip_ofIp (ip : Ip) (port : UInt16) : (ofIp ip port).ip = ip := by cases ip <;> rfl

@[simp] theorem port_ofIp (ip : Ip) (port : UInt16) : (ofIp ip port).port = port := by cases ip <;> rfl

@[simp] theorem flow_ofIp (ip : Ip) (port : UInt16) : (ofIp ip port).flow = 0 := by cases ip <;> rfl

@[simp] theorem scope_ofIp (ip : Ip) (port : UInt16) : (ofIp ip port).scope = 0 := by cases ip <;> rfl

-- The address and the port alone.
def Bare (endpoint : Endpoint) : Prop := endpoint.flow = 0 ∧ endpoint.scope = 0

instance (endpoint : Endpoint) : Decidable endpoint.Bare := inferInstanceAs (Decidable (_ ∧ _))

theorem bare_ofIp (ip : Ip) (port : UInt16) : (ofIp ip port).Bare := ⟨flow_ofIp ip port, scope_ofIp ip port⟩

theorem ofIp_ip_port {endpoint : Endpoint} (h : endpoint.Bare) : ofIp endpoint.ip endpoint.port = endpoint := by
  cases endpoint with
  | v4 ip port => rfl
  | v6 ip port flow scope =>
    obtain ⟨rfl, rfl⟩ : flow = 0 ∧ scope = 0 := h
    rfl

def sortKey : Endpoint → List Nat
  | .v4 ip port => 4 :: ip.octets.map UInt8.toNat ++ [port.toNat]
  | .v6 ip port flow scope => 6 :: ip.groups.map UInt16.toNat ++ [port.toNat, flow.toNat, scope.toNat]

-- The flow is not written.
def text : Endpoint → List Char
  | .v4 ip port => ip.text ++ ':' :: Text.decimal port.toNat
  | .v6 ip port _ scope =>
    let link := if scope = 0 then [] else '%' :: Text.decimal scope.toNat
    '[' :: ip.text ++ link ++ ']' :: ':' :: Text.decimal port.toNat

def takePort? (text : List Char) : Option (UInt16 × List Char) := do
  let (port, rest) ← takeBounded? UInt16.size (← after? ':' text)
  some (UInt16.ofNat port, rest)

-- The link after a percent sign; anything else leaves the text as it is and means no link.
def takeScope (text : List Char) : UInt32 × List Char :=
  match (after? '%' text).bind (takeBounded? UInt32.size) with
  | some (scope, rest) => (UInt32.ofNat scope, rest)
  | none => (0, text)

def takeV4? (text : List Char) : Option (Endpoint × List Char) := do
  let (ip, text) ← takeIpv4? text
  let (port, text) ← takePort? text
  some (.v4 ip port, text)

def takeV6? (text : List Char) : Option (Endpoint × List Char) := do
  let (ip, text) ← takeIpv6? (← after? '[' text)
  let (scope, text) := takeScope text
  let (port, text) ← takePort? (← after? ']' text)
  some (.v6 ip port 0 scope, text)

def ofText? (text : List Char) : Option Endpoint :=
  match (takeV4? text).orElse fun _ => takeV6? text with
  | some (endpoint, []) => some endpoint
  | _ => none

end Endpoint
end Muster.Net
