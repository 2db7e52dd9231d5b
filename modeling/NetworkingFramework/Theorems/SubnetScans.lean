import NetworkingFramework.Lemmas.SubnetScan

/-!
# Scanning a subnet

A scan requests each address of its subnet once, in order, when the mask ends at the first, second or third octet. Under a mask
that splits an octet it goes through the addresses that keep the wrong bits of that octet; with no mask at all it never ends, and
with a mask of 32 bits it starts behind the last octet.
-/

namespace NetworkingFramework

open Wire Wire.Decoder

namespace ArpTool

/-- The sending loop of a scan ends, having sent one request for each address of the subnet that is not skipped, in increasing
order, and no other; and the octets that were looked at are in the addresses. -/
structure ScansSubnet (mask : Ip4SubnetMask) (skipAddrs : Finset Ip4Addr) (srcMac : MacAddr) (srcIp : Ip4Addr) : Prop where
  inside : ∀ ip, ∃ b, isInsideIp4Subnet mask ip = .ok b
  sends : ∃ first fuel sent addrs, smallestIpAddrInSubnet mask = .ok first ∧
    sendRequests mask skipAddrs srcMac srcIp fuel first = .ok sent ∧
    List.Forall₂ (IsRequestFor srcMac srcIp) addrs sent ∧ addrs.Pairwise (fun a b => a.less b = true) ∧
    ∀ addr, addr ∈ addrs ↔ mask.Contains addr ∧ addr ∉ skipAddrs

/-- A scan of one to 31 bits requests what it goes through. -/
theorem scansSubnet_iff_swept {mask : Ip4SubnetMask} (hpos : 0 < mask.noMaskBits) (hlt : mask.noMaskBits < 32)
    (skipAddrs : Finset Ip4Addr) (srcMac : MacAddr) (srcIp : Ip4Addr) :
    ScansSubnet mask skipAddrs srcMac srcIp ↔ ∀ addr ∉ skipAddrs, (mask.Swept addr ↔ mask.Contains addr) := by
  obtain ⟨first, hfirst, hstart⟩ := smallestIpAddrInSubnet_eq hlt
  obtain ⟨visited, fuel, hsweep, hsorted, hvisited⟩ := Ip4SubnetMask.IsFirst.exists_sweep hpos hlt hstart
  have hmem (addr : Ip4Addr) : addr ∈ visited.filter (· ∉ skipAddrs) ↔ mask.Swept addr ∧ addr ∉ skipAddrs := by
    rw [List.mem_filter, hvisited, decide_eq_true_iff]
  constructor
  · intro hscans addr hskip
    obtain ⟨first', fuel', sent, addrs, hfirst', hsent, hfor, -, haddrs⟩ := hscans.sends
    obtain rfl : first = first' := Except.ok.inj (hfirst.symm.trans hfirst')
    -- the loop has ended, so it has gone through the same addresses
    cases hsweep' : Sweep.sweep (fun addr => decide (mask.ComparedAs addr)) generateNextIp fuel' first with
    | none =>
      rw [sendRequests_of_sweep_none hlt skipAddrs srcMac srcIp hsweep'] at hsent
      cases hsent
    | some visited' =>
      have hsame : visited = visited' := Option.some.inj
        ((Sweep.sweep_mono _ _ (Nat.le_max_left fuel fuel') hsweep).symm.trans
          (Sweep.sweep_mono _ _ (Nat.le_max_right fuel fuel') hsweep'))
      obtain ⟨sent', hsent', hfor'⟩ := sendRequests_of_sweep hlt skipAddrs srcMac srcIp hsweep'
      obtain rfl : sent' = sent := Except.ok.inj (hsent'.symm.trans hsent)
      rw [addrs_unique hfor hfor', ← hsame] at haddrs
      have hboth := (hmem addr).symm.trans (haddrs addr)
      simpa [hskip] using hboth
  · intro hswept
    obtain ⟨sent, hsent, hfor⟩ := sendRequests_of_sweep hlt skipAddrs srcMac srcIp hsweep
    refine ⟨fun ip => ⟨_, isInsideIp4Subnet_eq hlt ip⟩, first, fuel, sent, _, hfirst, hsent, hfor, ?_, fun addr => ?_⟩
    · exact hsorted.filter _
    · rw [hmem]
      by_cases hskip : addr ∈ skipAddrs
      · simp [hskip]
      · simp [hskip, hswept addr hskip]

/-- Without a mask the loop never ends: every address is inside. -/
theorem not_scansSubnet_of_empty {mask : Ip4SubnetMask} (h : mask.noMaskBits = 0) (skipAddrs : Finset Ip4Addr)
    (srcMac : MacAddr) (srcIp : Ip4Addr) : ¬ScansSubnet mask skipAddrs srcMac srcIp := by
  intro hscans
  obtain ⟨first, fuel, sent, -, -, hsent, -⟩ := hscans.sends
  have hinside : ∀ addr, decide (mask.ComparedAs addr) = true := by
    intro addr
    rw [decide_eq_true_iff]
    exact Ip4SubnetMask.comparedAs_of_swept ⟨fun k hk => by simp [h] at hk, fun hsplit => (hsplit (by rw [h])).elim⟩
  rw [sendRequests_of_sweep_none (by omega) skipAddrs srcMac srcIp (Sweep.sweep_eq_none _ _ hinside fuel first)] at hsent
  cases hsent

/-- A mask of 32 bits is compared in a fifth octet. -/
theorem not_scansSubnet_of_host {mask : Ip4SubnetMask} (h : mask.noMaskBits = 32) (skipAddrs : Finset Ip4Addr)
    (srcMac : MacAddr) (srcIp : Ip4Addr) : ¬ScansSubnet mask skipAddrs srcMac srcIp := by
  intro hscans
  obtain ⟨b, hb⟩ := hscans.inside ip4AddrEmpty
  obtain ⟨baseAddr, n⟩ := mask
  obtain rfl : n = 32 := h
  rw [isInsideIp4Subnet_host] at hb
  cases hb

/-- Of a mask that splits an octet some addresses have to be skipped, or the scan does not cover the subnet. -/
theorem not_scansSubnet_of_split {mask : Ip4SubnetMask} (hsplit : mask.noMaskBits % 8 ≠ 0) (hlt : mask.noMaskBits < 32)
    (srcMac : MacAddr) (srcIp : Ip4Addr) : ¬ScansSubnet mask ∅ srcMac srcIp := by
  rw [scansSubnet_iff_swept (by omega) hlt]
  intro h
  obtain ⟨addr, hcontains, hnot⟩ := Ip4SubnetMask.exists_contains_not_swept hsplit hlt
  exact hnot ((h addr (Finset.notMem_empty addr)).mpr hcontains)

/-- A scan covers its subnet when its mask ends at one of the first three octets; or else when it splits an octet, and all
addresses are skipped in which the block differs from what the scan goes through. -/
theorem scan_covers_subnet_iff (mask : Ip4SubnetMask) (skipAddrs : Finset Ip4Addr) (srcMac : MacAddr) (srcIp : Ip4Addr)
    (h : mask.noMaskBits ≤ 32) :
    ScansSubnet mask skipAddrs srcMac srcIp ↔
      (mask.noMaskBits = 8 ∨ mask.noMaskBits = 16 ∨ mask.noMaskBits = 24) ∨
        mask.noMaskBits % 8 ≠ 0 ∧ ∀ addr ∉ skipAddrs, (mask.Swept addr ↔ mask.Contains addr) := by
  by_cases hempty : mask.noMaskBits = 0
  · refine iff_of_false (not_scansSubnet_of_empty hempty skipAddrs srcMac srcIp) ?_
    rintro (hwhole | ⟨hsplit, -⟩) <;> omega
  by_cases hhost : mask.noMaskBits = 32
  · refine iff_of_false (not_scansSubnet_of_host hhost skipAddrs srcMac srcIp) ?_
    rintro (hwhole | ⟨hsplit, -⟩) <;> omega
  rw [scansSubnet_iff_swept (by omega) (by omega)]
  by_cases hwhole : mask.noMaskBits % 8 = 0
  · have hends : mask.noMaskBits = 8 ∨ mask.noMaskBits = 16 ∨ mask.noMaskBits = 24 := by omega
    exact iff_of_true (fun addr _ => mask.swept_iff_contains hwhole addr) (.inl hends)
  · have hends : ¬(mask.noMaskBits = 8 ∨ mask.noMaskBits = 16 ∨ mask.noMaskBits = 24) := by omega
    simp [hwhole, hends]

/-- Of the subnet 192.168.1.0/24. -/
theorem scan_covers_subnet_iff_whole :
    ScansSubnet ⟨⟨⟨[192, 168, 1, 0], rfl⟩⟩, 24⟩ ∅ macAddrEmpty ip4AddrEmpty :=
  (scan_covers_subnet_iff ⟨⟨⟨[192, 168, 1, 0], rfl⟩⟩, 24⟩ ∅ macAddrEmpty ip4AddrEmpty (by decide)).mpr
    (.inl (.inr (.inr rfl)))

/-- Of 192.168.1.64/28 the scan goes through 192.168.1.0 alone. -/
theorem scan_covers_subnet_counterexample :
    ¬ScansSubnet ⟨⟨⟨[192, 168, 1, 64], rfl⟩⟩, 28⟩ ∅ macAddrEmpty ip4AddrEmpty := by
  rw [scansSubnet_iff_swept (by decide) (by decide)]
  intro h
  have hcontains : Ip4SubnetMask.Contains ⟨⟨⟨[192, 168, 1, 64], rfl⟩⟩, 28⟩ ⟨⟨[192, 168, 1, 64], rfl⟩⟩ := fun _ _ => rfl
  have hoctet := ((h _ (Finset.notMem_empty _)).mpr hcontains).2 (by decide)
  exact absurd hoctet (by decide)

end ArpTool
end NetworkingFramework
