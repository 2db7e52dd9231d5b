import NetworkingFramework.Lib.BigEndian
import NetworkingFramework.Lib.Sweep
import NetworkingFramework.Lemmas.Arp
import NetworkingFramework.Lemmas.Routing

/-!
# The addresses that a scan goes through

Addresses are numbers of four bytes, the order of addresses is that of the numbers, and the next address has the next number. A
scan starts at the address that keeps the octets before the one where the mask ends, and the lower bits of that one, and goes
through the addresses that begin like this.
-/

namespace NetworkingFramework

open Wire Wire.Decoder BigEndian

/-! ## Addresses as numbers -/

namespace Ip4Addr

/-- The number that an address is. -/
def number (addr : Ip4Addr) : Nat := value addr.octets.toList

theorem length_octets (addr : Ip4Addr) : addr.octets.toList.length = 4 := addr.octets.toList_length

theorem number_injective : Function.Injective number := fun a b h =>
  ext_octets (value_inj (a.length_octets.trans b.length_octets.symm) h)

theorem number_lt (addr : Ip4Addr) : addr.number < 256 ^ 4 := by
  have hlt := value_lt addr.octets.toList
  rwa [addr.length_octets] at hlt

end Ip4Addr

/-- The order of two buffers of one length is that of their numbers. -/
theorem lessOctets_iff {v w : Bytes} (h : v.length = w.length) : lessOctets v w = true ↔ value v < value w := by
  fun_induction lessOctets v w with
  | case1 a v b w hne =>
    have hlen : v.length = w.length := Nat.succ.inj h
    have hv := value_lt v
    have hw := value_lt w
    rw [hlen] at hv
    have hne' : a.toNat ≠ b.toNat := fun heq => hne (UInt8.toNat_inj.mp heq)
    rw [decide_eq_true_iff, value_cons, value_cons, hlen, UInt8.lt_iff_toNat_lt]
    constructor
    · intro hlt
      have hmul : (a.toNat + 1) * 256 ^ w.length ≤ b.toNat * 256 ^ w.length := Nat.mul_le_mul_right _ hlt
      rw [Nat.add_mul] at hmul
      omega
    · intro hlt
      by_contra hge
      have hmul : (b.toNat + 1) * 256 ^ w.length ≤ a.toNat * 256 ^ w.length := Nat.mul_le_mul_right _ (by omega)
      rw [Nat.add_mul] at hmul
      omega
  | case2 a v b w heq ih =>
    obtain rfl := not_not.mp heq
    have hlen : v.length = w.length := Nat.succ.inj h
    rw [ih hlen, value_cons, value_cons, hlen, Nat.add_lt_add_iff_left]
  | case3 v w hcases =>
    cases v with
    | nil =>
      have hw : w = [] := List.length_eq_zero_iff.mp h.symm
      simp [hw]
    | cons a v =>
      cases w with
      | nil => cases h
      | cons b w => exact (hcases a v b w rfl rfl).elim

theorem Ip4Addr.less_iff (a b : Ip4Addr) : a.less b = true ↔ a.number < b.number :=
  lessOctets_iff (a.length_octets.trans b.length_octets.symm)

theorem take_succ_eq {w : Bytes} {n : Nat} (h : n < w.length) : w.take (n + 1) = w.take n ++ [byteAt w n] := by
  rw [List.take_succ_eq_append_getElem h, byteAt, List.getD_eq_getElem?_getD, List.getElem?_eq_getElem h, Option.getD_some]

theorem take_eq_take_iff {v w : Bytes} {n : Nat} (hv : n ≤ v.length) (hw : n ≤ w.length) :
    w.take n = v.take n ↔ ∀ k < n, byteAt v k = byteAt w k := by
  induction n with
  | zero => simp
  | succ n ih =>
    rw [take_succ_eq hv, take_succ_eq hw, Nat.forall_lt_succ_right, ← ih (Nat.le_of_succ_le hv) (Nat.le_of_succ_le hw)]
    rw [List.append_singleton_inj, eq_comm (a := byteAt w n)]

/-- The octets of the next address, up to any of them. -/
theorem value_nextOctets {w : Bytes} {n : Nat} (h : n ≤ w.length) :
    value (nextOctets w n) = (value (w.take n) + 1) % 256 ^ n := by
  induction n with
  | zero => simp [nextOctets]
  | succ n ih =>
    have hlt := value_lt (w.take n)
    rw [List.length_take_of_le (Nat.le_of_succ_le h)] at hlt
    rw [take_succ_eq h, value_concat, pow_succ]
    unfold nextOctets
    split
    · rename_i hcarry
      have hlast : (byteAt w n).toNat = 255 := by rw [hcarry]; rfl
      rw [value_concat, ih (Nat.le_of_succ_le h), hlast, UInt8.toNat_zero, Nat.add_zero, Nat.add_assoc,
        ← Nat.add_one_mul, Nat.mul_mod_mul_right]
    · rename_i hne
      have hsmall : (byteAt w n).toNat < 255 := by
        have hbyte := (byteAt w n).toNat_lt
        have hne' : (byteAt w n).toNat ≠ 255 := fun heq => hne (UInt8.toNat_inj.mp heq)
        omega
      have hsucc : (byteAt w n + 1).toNat = (byteAt w n).toNat + 1 := by
        rw [UInt8.toNat_add, UInt8.toNat_one]
        omega
      rw [value_concat, hsucc, Nat.mod_eq_of_lt (by omega), Nat.add_assoc]

/-- The next address has the next number; behind the last one comes the first. -/
theorem number_generateNextIp (addr : Ip4Addr) : (generateNextIp addr).number = (addr.number + 1) % 256 ^ 4 := by
  have hnext : (generateNextIp addr).number = value (nextOctets addr.octets.toList 4) := rfl
  have htake : addr.octets.toList.take 4 = addr.octets.toList := List.take_of_length_le (Nat.le_of_eq addr.length_octets)
  rw [hnext, value_nextOctets (Nat.le_of_eq addr.length_octets.symm), htake]
  rfl

/-! ## Where a scan starts -/

theorem toList_clearOctets {addr : Ip4Addr} {i n : Nat} (h : i + n = 4) :
    (clearOctets addr i n).octets.toList = addr.octets.toList.take i ++ List.replicate n 0 := by
  induction n generalizing addr i with
  | zero =>
    obtain rfl : i = 4 := h
    exact (List.take_of_length_le (Nat.le_of_eq addr.length_octets)).symm.trans (List.append_nil _).symm
  | succ n ih =>
    have hset : (addr.setOctet i 0).octets.toList = addr.octets.toList.set i 0 := rfl
    have hi : i < addr.octets.toList.length := by rw [addr.length_octets]; omega
    rw [clearOctets, ih (by omega), hset, List.take_succ_eq_append_getElem (by rwa [List.length_set]),
      List.take_set_of_le (Nat.le_refl i), List.getElem_set_self, List.append_assoc, List.replicate_succ]
    rfl

namespace Ip4SubnetMask

/-- The lower bits of the octet where a mask ends, as many as the mask has of it. -/
def lowBits (subnet : Ip4SubnetMask) : Nat :=
  (byteAt subnet.baseAddr.octets.toList (subnet.noMaskBits / 8)).toNat &&& ((1 <<< (subnet.noMaskBits % 8)) - 1)

/-- How the addresses begin that a scan goes through. -/
def start (subnet : Ip4SubnetMask) : Bytes :=
  subnet.baseAddr.octets.toList.take (subnet.noMaskBits / 8) ++
    if subnet.noMaskBits % 8 = 0 then [] else [UInt8.ofNat subnet.lowBits]

/-- The addresses that a scan goes through: those with the octets of the base address before the one where the mask ends, and the
lower bits alone of that one. -/
def Swept (subnet : Ip4SubnetMask) (addr : Ip4Addr) : Prop :=
  (∀ k < subnet.noMaskBits / 8, byteAt subnet.baseAddr.octets.toList k = byteAt addr.octets.toList k) ∧
    (subnet.noMaskBits % 8 ≠ 0 → (byteAt addr.octets.toList (subnet.noMaskBits / 8)).toNat = subnet.lowBits)

theorem lowBits_eq_mod (subnet : Ip4SubnetMask) :
    subnet.lowBits = (byteAt subnet.baseAddr.octets.toList (subnet.noMaskBits / 8)).toNat % 2 ^ (subnet.noMaskBits % 8) := by
  rw [lowBits, Nat.one_shiftLeft, Nat.and_two_pow_sub_one_eq_mod]

theorem toNat_ofNat_lowBits (subnet : Ip4SubnetMask) : (UInt8.ofNat subnet.lowBits).toNat = subnet.lowBits := by
  have hle : subnet.lowBits ≤ (byteAt subnet.baseAddr.octets.toList (subnet.noMaskBits / 8)).toNat := Nat.and_le_left
  have hlt := (byteAt subnet.baseAddr.octets.toList (subnet.noMaskBits / 8)).toNat_lt
  rw [UInt8.toNat_ofNat']
  exact Nat.mod_eq_of_lt (by omega)

/-- They are at most seven bits. -/
theorem lowBits_lt (subnet : Ip4SubnetMask) (hsplit : subnet.noMaskBits % 8 ≠ 0) :
    2 ≤ 2 ^ (subnet.noMaskBits % 8) ∧ subnet.lowBits < 2 ^ (subnet.noMaskBits % 8) ∧ subnet.lowBits < 128 := by
  have hpow : 2 ≤ 2 ^ (subnet.noMaskBits % 8) := Nat.le_self_pow hsplit 2
  have hlow : subnet.lowBits < 2 ^ (subnet.noMaskBits % 8) := by
    rw [lowBits_eq_mod]
    exact Nat.mod_lt _ (by omega)
  have hseven : 2 ^ (subnet.noMaskBits % 8) ≤ 2 ^ 7 := Nat.pow_le_pow_right (by decide) (by omega)
  exact ⟨hpow, hlow, Nat.lt_of_lt_of_le hlow hseven⟩

theorem toNat_ofNat_succ_lowBits (subnet : Ip4SubnetMask) (hsplit : subnet.noMaskBits % 8 ≠ 0) :
    (UInt8.ofNat (subnet.lowBits + 1)).toNat = subnet.lowBits + 1 := by
  have hlow := subnet.lowBits_lt hsplit
  rw [UInt8.toNat_ofNat']
  omega

variable {subnet : Ip4SubnetMask}

/-- The octets before the one where a mask ends. -/
theorem length_wholeOctets (h : subnet.noMaskBits < 32) :
    (subnet.baseAddr.octets.toList.take (subnet.noMaskBits / 8)).length = subnet.noMaskBits / 8 := by
  rw [List.length_take, subnet.baseAddr.length_octets]
  omega

theorem length_start (h : subnet.noMaskBits < 32) :
    subnet.start.length = subnet.noMaskBits / 8 + if subnet.noMaskBits % 8 = 0 then 0 else 1 := by
  rw [start, List.length_append, length_wholeOctets h]
  split <;> rfl

/-- The addresses gone through are those that begin as the first one does. -/
theorem swept_iff_take (h : subnet.noMaskBits < 32) (addr : Ip4Addr) :
    subnet.Swept addr ↔ addr.octets.toList.take subnet.start.length = subnet.start := by
  have hindex : subnet.noMaskBits / 8 < addr.octets.toList.length := by rw [addr.length_octets]; omega
  have hbase : subnet.noMaskBits / 8 ≤ subnet.baseAddr.octets.toList.length := by rw [subnet.baseAddr.length_octets]; omega
  rw [length_start h, start, Swept, ← take_eq_take_iff hbase (Nat.le_of_lt hindex)]
  by_cases hsplit : subnet.noMaskBits % 8 = 0
  · simp [hsplit]
  · rw [if_neg hsplit, if_neg hsplit, take_succ_eq hindex]
    rw [List.append_singleton_inj, ← UInt8.toNat_inj, subnet.toNat_ofNat_lowBits]
    simp [hsplit]

end Ip4SubnetMask

/-- The smallest address of a mask of less than 32 bits is found inside the address. -/
theorem smallestIpAddrInSubnet_eq {subnet : Ip4SubnetMask} (h : subnet.noMaskBits < 32) :
    ∃ addr, smallestIpAddrInSubnet subnet = .ok addr ∧
      addr.octets.toList = subnet.start ++ List.replicate (4 - subnet.start.length) 0 := by
  have hindex : subnet.noMaskBits / 8 < 4 := by omega
  have hlt : subnet.noMaskBits / 8 < subnet.baseAddr.octets.toList.length := by rwa [subnet.baseAddr.length_octets]
  refine ⟨clearOctets (subnet.baseAddr.setOctet (subnet.noMaskBits / 8) (UInt8.ofNat subnet.lowBits))
    (subnet.noMaskBits / 8 + 1) (4 - (subnet.noMaskBits / 8 + 1)), ?_, ?_⟩
  · rw [smallestIpAddrInSubnet, subnet.baseAddr.octet_eq hindex]
    rfl
  · have hset : (subnet.baseAddr.setOctet (subnet.noMaskBits / 8) (UInt8.ofNat subnet.lowBits)).octets.toList =
        subnet.baseAddr.octets.toList.set (subnet.noMaskBits / 8) (UInt8.ofNat subnet.lowBits) := rfl
    rw [toList_clearOctets (by omega), hset, List.take_succ_eq_append_getElem (by rwa [List.length_set]),
      List.take_set_of_le (Nat.le_refl _), List.getElem_set_self, Ip4SubnetMask.length_start h, Ip4SubnetMask.start]
    split
    · rename_i hwhole
      have hzero : UInt8.ofNat subnet.lowBits = 0 := by
        rw [Ip4SubnetMask.lowBits_eq_mod, hwhole, pow_zero, Nat.mod_one]
        rfl
      have hrest : 4 - subnet.noMaskBits / 8 = 4 - (subnet.noMaskBits / 8 + 1) + 1 := by omega
      rw [hzero, List.append_nil, Nat.add_zero (subnet.noMaskBits / 8), hrest, List.replicate_succ, List.append_assoc,
        List.singleton_append]
    · rfl

/-! ## Where it ends -/

namespace Ip4SubnetMask

variable {subnet : Ip4SubnetMask}

/-- The addresses gone through are taken to be inside. -/
theorem comparedAs_of_swept {addr : Ip4Addr} (h : subnet.Swept addr) : subnet.ComparedAs addr := by
  refine ⟨h.1, ?_⟩
  rw [Nat.one_shiftLeft, Nat.and_two_pow_sub_one_eq_mod, Nat.and_two_pow_sub_one_eq_mod]
  by_cases hsplit : subnet.noMaskBits % 8 = 0
  · rw [hsplit, pow_zero, Nat.mod_one, Nat.mod_one]
  · rw [h.2 hsplit, lowBits_eq_mod, Nat.mod_mod]

theorem swept_of_comparedAs (h : subnet.noMaskBits % 8 = 0) {addr : Ip4Addr} (hcompared : subnet.ComparedAs addr) :
    subnet.Swept addr :=
  ⟨hcompared.1, fun hsplit => (hsplit h).elim⟩

/-- How many addresses a scan goes through. -/
def span (subnet : Ip4SubnetMask) : Nat := 256 ^ (4 - subnet.start.length)

/-- An address is the first that a scan goes through. -/
def IsFirst (subnet : Ip4SubnetMask) (addr : Ip4Addr) : Prop :=
  addr.octets.toList = subnet.start ++ List.replicate (4 - subnet.start.length) 0

variable {first : Ip4Addr}

theorem IsFirst.number_eq (h : subnet.IsFirst first) : first.number = value subnet.start * subnet.span := by
  rw [Ip4Addr.number, h, value_append, List.length_replicate, value_zeros, Nat.add_zero, span]

theorem length_start_le (h : subnet.noMaskBits < 32) : subnet.start.length ≤ 4 := by
  rw [length_start h]
  split <;> omega

/-- The last of them is an address. -/
theorem IsFirst.number_add_span_le (hlt : subnet.noMaskBits < 32) (h : subnet.IsFirst first) :
    first.number + subnet.span ≤ 256 ^ 4 := by
  have hprefix : value subnet.start + 1 ≤ 256 ^ subnet.start.length := value_lt subnet.start
  have hlen : subnet.start.length + (4 - subnet.start.length) = 4 := Nat.add_sub_of_le (length_start_le hlt)
  calc first.number + subnet.span = (value subnet.start + 1) * subnet.span := by rw [h.number_eq, Nat.add_mul, Nat.one_mul]
    _ ≤ 256 ^ subnet.start.length * subnet.span := Nat.mul_le_mul_right _ hprefix
    _ = 256 ^ 4 := by rw [span, ← pow_add, hlen]

/-- They are an interval. -/
theorem IsFirst.swept_iff_number (hlt : subnet.noMaskBits < 32) (h : subnet.IsFirst first) (addr : Ip4Addr) :
    subnet.Swept addr ↔ first.number ≤ addr.number ∧ addr.number < first.number + subnet.span := by
  have hlen : addr.octets.toList.length = subnet.start.length + (4 - subnet.start.length) := by
    rw [addr.length_octets, Nat.add_sub_of_le (length_start_le hlt)]
  rw [swept_iff_take hlt, take_eq_iff hlen, h.number_eq]
  rfl

theorem number_iterate_generateNextIp (addr : Ip4Addr) (k : Nat) :
    (generateNextIp^[k] addr).number = (addr.number + k) % 256 ^ 4 :=
  Sweep.number_iterate number_generateNextIp addr.number_lt k

/-- Of a mask that ends at a whole octet the address behind them is not inside, also when it is the first address of all. -/
theorem IsFirst.not_comparedAs_of_whole (hwhole : subnet.noMaskBits % 8 = 0) (hpos : 0 < subnet.noMaskBits)
    (hlt : subnet.noMaskBits < 32) (h : subnet.IsFirst first) : ¬subnet.ComparedAs (generateNextIp^[subnet.span] first) := by
  intro hcompared
  have hinside := (h.swept_iff_number hlt _).mp (swept_of_comparedAs hwhole hcompared)
  have hle := h.number_add_span_le hlt
  have hstart : 0 < subnet.start.length := by rw [length_start hlt]; omega
  have hspan : subnet.span < 256 ^ 4 := Nat.pow_lt_pow_right (by decide) (by omega)
  rw [number_iterate_generateNextIp] at hinside
  rcases Nat.lt_or_ge (first.number + subnet.span) (256 ^ 4) with hfits | hwraps
  · rw [Nat.mod_eq_of_lt hfits] at hinside
    omega
  · rw [Nat.le_antisymm hle hwraps, Nat.mod_self] at hinside
    omega

/-- Of a mask that splits an octet the address behind them is the one with the next split octet. -/
theorem IsFirst.iterate_span_of_split (hsplit : subnet.noMaskBits % 8 ≠ 0) (hlt : subnet.noMaskBits < 32)
    (h : subnet.IsFirst first) : (generateNextIp^[subnet.span] first).octets.toList =
      subnet.baseAddr.octets.toList.take (subnet.noMaskBits / 8) ++ [UInt8.ofNat (subnet.lowBits + 1)] ++
        List.replicate (4 - subnet.start.length) 0 := by
  have hstart := length_start hlt
  rw [if_neg hsplit] at hstart
  obtain ⟨past, hpast⟩ : ∃ past : Ip4Addr, past.octets.toList =
      subnet.baseAddr.octets.toList.take (subnet.noMaskBits / 8) ++ [UInt8.ofNat (subnet.lowBits + 1)] ++
        List.replicate (4 - subnet.start.length) 0 := by
    refine ⟨⟨⟨_, ?_⟩⟩, rfl⟩
    rw [List.length_append, List.length_append, length_wholeOctets hlt, List.length_singleton, List.length_replicate]
    omega
  have hoctet := subnet.toNat_ofNat_succ_lowBits hsplit
  have hnumber : past.number = first.number + subnet.span := by
    have hvalue : value subnet.start =
        value (subnet.baseAddr.octets.toList.take (subnet.noMaskBits / 8)) * 256 + subnet.lowBits := by
      rw [start, if_neg hsplit, value_concat, toNat_ofNat_lowBits]
    calc past.number =
        (value (subnet.baseAddr.octets.toList.take (subnet.noMaskBits / 8)) * 256 + (subnet.lowBits + 1)) * subnet.span := by
          rw [Ip4Addr.number, hpast, value_append, value_zeros, List.length_replicate, value_concat, hoctet, span, Nat.add_zero]
      _ = (value subnet.start + 1) * subnet.span := by rw [hvalue, Nat.add_assoc]
      _ = first.number + subnet.span := by rw [h.number_eq, Nat.add_mul, Nat.one_mul]
  rw [← hpast]
  apply congrArg fun addr : Ip4Addr => addr.octets.toList
  apply Ip4Addr.number_injective
  rw [number_iterate_generateNextIp, ← hnumber, Nat.mod_eq_of_lt past.number_lt]

/-- It is not inside, for its lower bits are others. -/
theorem IsFirst.not_comparedAs_of_split (hsplit : subnet.noMaskBits % 8 ≠ 0) (hlt : subnet.noMaskBits < 32)
    (h : subnet.IsFirst first) : ¬subnet.ComparedAs (generateNextIp^[subnet.span] first) := by
  intro hcompared
  obtain ⟨hpow, hlow, hseven⟩ := subnet.lowBits_lt hsplit
  have htake := length_wholeOctets hlt
  have hoctet : byteAt (generateNextIp^[subnet.span] first).octets.toList (subnet.noMaskBits / 8) =
      UInt8.ofNat (subnet.lowBits + 1) := by
    rw [h.iterate_span_of_split hsplit hlt, List.append_assoc, byteAt, List.getD_eq_getElem?_getD,
      List.getElem?_append_right (Nat.le_of_eq htake), htake, Nat.sub_self]
    rfl
  have hsame : subnet.lowBits = (subnet.lowBits + 1) % 2 ^ (subnet.noMaskBits % 8) := by
    have hlast : subnet.lowBits = _ := hcompared.2
    rwa [hoctet, subnet.toNat_ofNat_succ_lowBits hsplit, Nat.one_shiftLeft, Nat.and_two_pow_sub_one_eq_mod] at hlast
  rcases Nat.lt_or_ge (subnet.lowBits + 1) (2 ^ (subnet.noMaskBits % 8)) with hfits | hwraps
  · rw [Nat.mod_eq_of_lt hfits] at hsame
    omega
  · have htop : subnet.lowBits + 1 = 2 ^ (subnet.noMaskBits % 8) := Nat.le_antisymm hlow hwraps
    rw [htop, Nat.mod_self] at hsame
    omega

/-- A scan goes through its addresses, in increasing order, and stops. -/
theorem IsFirst.exists_sweep (hpos : 0 < subnet.noMaskBits) (hlt : subnet.noMaskBits < 32) (h : subnet.IsFirst first) :
    ∃ visited fuel, Sweep.sweep (fun addr => decide (subnet.ComparedAs addr)) generateNextIp fuel first = some visited ∧
      visited.Pairwise (fun a b => a.less b = true) ∧ ∀ addr, addr ∈ visited ↔ subnet.Swept addr := by
  have hle := h.number_add_span_le hlt
  have hrow : ∀ k < subnet.span, (generateNextIp^[k] first).number = first.number + k := by
    intro k hk
    rw [number_iterate_generateNextIp, Nat.mod_eq_of_lt (by omega)]
  have hinside : ∀ k < subnet.span, decide (subnet.ComparedAs (generateNextIp^[k] first)) = true := by
    intro k hk
    rw [decide_eq_true_iff]
    apply comparedAs_of_swept
    rw [h.swept_iff_number hlt, hrow k hk]
    omega
  have hout : decide (subnet.ComparedAs (generateNextIp^[subnet.span] first)) = false := by
    rw [decide_eq_false_iff_not]
    by_cases hwhole : subnet.noMaskBits % 8 = 0
    · exact h.not_comparedAs_of_whole hwhole hpos hlt
    · exact h.not_comparedAs_of_split hwhole hlt
  refine ⟨_, _, Sweep.sweep_eq_iterate _ _ hinside hout (Nat.lt_succ_self _), ?_, fun addr => ?_⟩
  · exact (Sweep.pairwise_iterate hrow).imp fun hless => (Ip4Addr.less_iff _ _).mpr hless
  · rw [Sweep.mem_iterate_iff Ip4Addr.number_injective hrow, h.swept_iff_number hlt]

end Ip4SubnetMask

/-- The block of a mask that ends at a whole octet is what a scan goes through. -/
theorem Ip4SubnetMask.swept_iff_contains (subnet : Ip4SubnetMask) (h : subnet.noMaskBits % 8 = 0) (addr : Ip4Addr) :
    subnet.Swept addr ↔ subnet.Contains addr := by
  rw [subnet.contains_iff_octets h, Swept]
  simp [h]

/-- The block of a mask that splits an octet has an address that a scan does not go through: the base address, or the one that
differs from it in the last bit of that octet. -/
theorem Ip4SubnetMask.exists_contains_not_swept {subnet : Ip4SubnetMask} (hsplit : subnet.noMaskBits % 8 ≠ 0)
    (hlt : subnet.noMaskBits < 32) : ∃ addr, subnet.Contains addr ∧ ¬subnet.Swept addr := by
  by_contra hall
  push Not at hall
  have hindex : subnet.noMaskBits / 8 < subnet.baseAddr.octets.toList.length := by
    rw [subnet.baseAddr.length_octets]
    omega
  have hset (k : Nat) (b : UInt8) : byteAt (subnet.baseAddr.setOctet (subnet.noMaskBits / 8) b).octets.toList k =
      if k = subnet.noMaskBits / 8 then b else byteAt subnet.baseAddr.octets.toList k := by
    have hlist : (subnet.baseAddr.setOctet (subnet.noMaskBits / 8) b).octets.toList =
        subnet.baseAddr.octets.toList.set (subnet.noMaskBits / 8) b := rfl
    rw [hlist, byteAt, List.getD_eq_getElem?_getD]
    by_cases hk : k = subnet.noMaskBits / 8
    · rw [if_pos hk, hk, List.getElem?_set_self hindex, Option.getD_some]
    · rw [if_neg hk, List.getElem?_set_ne (Ne.symm hk), byteAt, List.getD_eq_getElem?_getD]
  have hbase := (hall subnet.baseAddr fun _ _ => rfl).2 hsplit
  have hother := (hall (subnet.baseAddr.setOctet (subnet.noMaskBits / 8)
    (byteAt subnet.baseAddr.octets.toList (subnet.noMaskBits / 8) ^^^ 1)) ?_).2 hsplit
  · rw [hset, if_pos rfl, ← hbase, UInt8.toNat_xor] at hother
    have hne : ∀ b : Fin 256, b.val ^^^ 1 ≠ b.val := by decide +kernel
    exact hne ⟨_, UInt8.toNat_lt _⟩ hother
  · intro i hi
    rw [Ip4Addr.bit, Ip4Addr.bit, hset]
    split
    · rename_i hk
      have hone : Nat.testBit 1 (7 - i % 8) = false := by
        rw [← Bool.not_eq_true, Nat.testBit_one_eq_true_iff_self_eq_zero]
        omega
      rw [hk, UInt8.toNat_xor, Nat.testBit_xor, UInt8.toNat_one, hone, Bool.xor_false]
    · rfl

/-! ## What is sent -/

namespace ArpTool

/-- A datagram is an ARP request for an address. -/
def IsRequestFor (srcMac : MacAddr) (srcIp addr : Ip4Addr) (sent : Bytes) : Prop :=
  extractArpHeader.run sent 0 = .ok (request srcMac srcIp addr, 28)

theorem send_request (srcMac : MacAddr) (srcIp addr : Ip4Addr) :
    ∃ sent, ArpProtocol.send (request srcMac srcIp addr) = .ok sent ∧ IsRequestFor srcMac srcIp addr sent :=
  send_header arpOpRequest srcMac srcIp macAddrEmpty addr

/-- What is sent tells the addresses it was sent for. -/
theorem addrs_unique {srcMac : MacAddr} {srcIp : Ip4Addr} {as bs : List Ip4Addr} {sent : List Bytes}
    (ha : List.Forall₂ (IsRequestFor srcMac srcIp) as sent) (hb : List.Forall₂ (IsRequestFor srcMac srcIp) bs sent) :
    as = bs := by
  induction ha generalizing bs with
  | nil =>
    cases hb
    rfl
  | cons hfirst _ ih =>
    cases hb with
    | cons hfirst' hrest =>
      have hrequest := Except.ok.inj (hfirst.symm.trans hfirst')
      rw [request_inj (Prod.mk.inj hrequest).1, ih hrest]

section Sending

variable {mask : Ip4SubnetMask} (hlt : mask.noMaskBits < 32) (skipAddrs : Finset Ip4Addr) (srcMac : MacAddr) (srcIp : Ip4Addr)

include hlt

/-- The loop sweeps the addresses that are compared as inside, and sends a request for each that is not skipped. -/
theorem sendRequests_of_sweep {fuel : Nat} {currIp : Ip4Addr} {visited : List Ip4Addr}
    (h : Sweep.sweep (fun addr => decide (mask.ComparedAs addr)) generateNextIp fuel currIp = some visited) :
    ∃ sent, sendRequests mask skipAddrs srcMac srcIp fuel currIp = .ok sent ∧
      List.Forall₂ (IsRequestFor srcMac srcIp) (visited.filter (· ∉ skipAddrs)) sent := by
  induction fuel generalizing currIp visited with
  | zero => cases h
  | succ fuel ih =>
    unfold Sweep.sweep at h
    rw [sendRequests, isInsideIp4Subnet_eq hlt]
    by_cases hinside : mask.ComparedAs currIp
    · rw [if_pos (decide_eq_true hinside), Option.map_eq_some_iff] at h
      obtain ⟨rest, hrest, rfl⟩ := h
      obtain ⟨sent, hsent, hfor⟩ := ih hrest
      obtain ⟨first, hfirst, hfirstFor⟩ := send_request srcMac srcIp currIp
      by_cases hskip : currIp ∈ skipAddrs
      · refine ⟨sent, ?_, ?_⟩
        · simp [hinside, hskip, hsent]
        · simpa [hskip] using hfor
      · refine ⟨first :: sent, ?_, ?_⟩
        · simp [hinside, hskip, hsent, hfirst]
        · rw [List.filter_cons_of_pos (by simpa using hskip)]
          exact .cons hfirstFor hfor
    · rw [if_neg (by simpa using hinside)] at h
      obtain rfl := Option.some.inj h
      exact ⟨[], by simp [hinside], .nil⟩

/-- When the sweep does not stop, neither does the loop. -/
theorem sendRequests_of_sweep_none {fuel : Nat} {currIp : Ip4Addr}
    (h : Sweep.sweep (fun addr => decide (mask.ComparedAs addr)) generateNextIp fuel currIp = none) :
    sendRequests mask skipAddrs srcMac srcIp fuel currIp = .error .diverges := by
  induction fuel generalizing currIp with
  | zero => rfl
  | succ fuel ih =>
    unfold Sweep.sweep at h
    rw [sendRequests, isInsideIp4Subnet_eq hlt]
    by_cases hinside : mask.ComparedAs currIp
    · rw [if_pos (decide_eq_true hinside), Option.map_eq_none_iff] at h
      obtain ⟨first, hfirst, -⟩ := send_request srcMac srcIp currIp
      by_cases hskip : currIp ∈ skipAddrs
      · simp [hinside, hskip, ih h]
      · simp [hinside, hskip, hfirst, ih h]
    · rw [if_neg (by simpa using hinside)] at h
      cases h

end Sending

/-! ## What is found -/

/-- What may be found in a scan: each address once, and inside the subnet. -/
structure Found (mask : Ip4SubnetMask) (res : List (Ip4Addr × MacAddr)) : Prop where
  nodup : (res.map Prod.fst).Nodup
  inside : ∀ pair ∈ res, isInsideIp4Subnet mask pair.1 = .ok true

theorem Found.nil (mask : Ip4SubnetMask) : Found mask [] := ⟨List.nodup_nil, fun _ h => absurd h List.not_mem_nil⟩

/-- A new address that is inside is found too. -/
theorem Found.concat {mask : Ip4SubnetMask} {res : List (Ip4Addr × MacAddr)} (h : Found mask res) {ip : Ip4Addr}
    (hinside : isInsideIp4Subnet mask ip = .ok true) (hnew : ip ∉ res.map Prod.fst) (mac : MacAddr) :
    Found mask (res ++ [(ip, mac)]) := by
  refine ⟨?_, fun pair hpair => ?_⟩
  · rw [List.map_append, List.map_singleton, List.nodup_append]
    refine ⟨h.nodup, List.nodup_singleton _, ?_⟩
    intro a ha b hb hab
    obtain rfl := List.mem_singleton.mp hb
    exact hnew (hab ▸ ha)
  · rcases List.mem_append.mp hpair with hold | hlast
    · exact h.inside pair hold
    · obtain rfl := List.mem_singleton.mp hlast
      exact hinside

end ArpTool
end NetworkingFramework
