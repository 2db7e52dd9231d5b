import NetworkingFramework.Ip4
import NetworkingFramework.Routing

/-!
# Routing of IPv4 packets

`protocols/ip4/ip4_routing_table`, the subnets of `ip4_addr`, and the send access of `ip4_protocol` that is made from a table.
-/

namespace NetworkingFramework

open Wire Wire.Decoder

/-- `ip4_subnet_mask`. `no_mask_bits` is an `int`; a negative one is never parsed and not modelled. -/
structure Ip4SubnetMask where
  baseAddr : Ip4Addr
  noMaskBits : Nat
  deriving DecidableEq

/-- An element of the array `octets`. -/
def Ip4Addr.octet (addr : Ip4Addr) (i : Nat) : Except Fault UInt8 :=
  match addr.octets.toList[i]? with
  | some b => .ok b
  | none => .error .outOfBounds

/-- The loop of `operator<`. -/
def lessOctets : Bytes → Bytes → Bool
  | a :: lhs, b :: rhs => if a ≠ b then decide (a < b) else lessOctets lhs rhs
  | _, _ => false

/-- `operator<` of an `ip4_addr`. -/
def Ip4Addr.less (lhs rhs : Ip4Addr) : Bool := lessOctets lhs.octets.toList rhs.octets.toList

/-- The loop of `is_inside_subnet`: the next `n` octets, from the one at `i`, are the same. -/
def sameOctets (subnet ip : Ip4Addr) (i : Nat) : Nat → Except Fault Bool
  | 0 => .ok true
  | n + 1 => do
    if (← subnet.octet i) ≠ (← ip.octet i) then return false
    sameOctets subnet ip (i + 1) n

/-- `is_inside_subnet`. The octets at `index` are compared in their lower bits, also where no bit is to be compared. -/
def isInsideIp4Subnet (subnet : Ip4SubnetMask) (ip : Ip4Addr) : Except Fault Bool := do
  let bits := subnet.noMaskBits
  let index := bits / 8
  let bits := bits % 8
  let insideMask ← sameOctets subnet.baseAddr ip 0 index
  let subnetOctet ← subnet.baseAddr.octet index
  let ipOctet ← ip.octet index
  if subnetOctet.toNat &&& ((1 <<< bits) - 1) ≠ ipOctet.toNat &&& ((1 <<< bits) - 1) then return false
  return insideMask

/-- An assignment to an element of `octets`. -/
def Ip4Addr.setOctet (addr : Ip4Addr) (i : Nat) (b : UInt8) : Ip4Addr := ⟨⟨addr.octets.toList.set i b, by simp⟩⟩

/-- The loop of `smallest_ip_addr_in_subnet`: zero in the next `n` octets, from the one at `i`. -/
def clearOctets (addr : Ip4Addr) (i : Nat) : Nat → Ip4Addr
  | 0 => addr
  | n + 1 => clearOctets (addr.setOctet i 0) (i + 1) n

/-- `smallest_ip_addr_in_subnet`. The octet at `index` keeps its lower bits. -/
def smallestIpAddrInSubnet (subnet : Ip4SubnetMask) : Except Fault Ip4Addr := do
  let bits := subnet.noMaskBits
  let index := bits / 8
  let bits := bits % 8
  let octet ← subnet.baseAddr.octet index
  let baseAddr := subnet.baseAddr.setOctet index (UInt8.ofNat (octet.toNat &&& ((1 <<< bits) - 1)))
  return clearOctets baseAddr (index + 1) (4 - (index + 1))

/-- The loops of `generate_next_ip`: the first `n` octets of the next address, when all octets behind them are carried over. -/
def nextOctets (octets : Bytes) : Nat → Bytes
  | 0 => []
  | n + 1 => if byteAt octets n = 0xff then nextOctets octets n ++ [0] else octets.take n ++ [byteAt octets n + 1]

theorem length_nextOctets {octets : Bytes} {n : Nat} (h : n ≤ octets.length) : (nextOctets octets n).length = n := by
  induction n with
  | zero => rfl
  | succ n ih =>
    unfold nextOctets
    split
    · rw [List.length_append, ih (Nat.le_of_succ_le h), List.length_singleton]
    · rw [List.length_append, List.length_take_of_le (Nat.le_of_succ_le h), List.length_singleton]

/-- `generate_next_ip`. -/
def generateNextIp (addr : Ip4Addr) : Ip4Addr :=
  ⟨⟨nextOctets addr.octets.toList 4, length_nextOctets (Nat.le_of_eq addr.octets.toList_length.symm)⟩⟩

/-- `ip4_routing_table`. -/
abbrev Ip4RoutingTable : Type := RoutingTable Ip4SubnetMask

/-- `find_route` of an `ip4_routing_table`. -/
def Ip4RoutingTable.findRoute (table : Ip4RoutingTable) (addr : Ip4Addr) : Except Fault (Option Address) :=
  RoutingTable.findRoute table (isInsideIp4Subnet · addr) Ip4SubnetMask.noMaskBits

end NetworkingFramework
