import NetworkingFramework.Lemmas.NetAnalyzer

/-!
# Analysing captured frames

A captured frame has any bytes. It is analysed without a byte being read that is not there exactly when its headers fit.
-/

namespace NetworkingFramework

open Wire Wire.Decoder

namespace NetAnalyzer

/-- An ARP packet is as long as the sizes of its addresses make it, and the addresses that are described are of sizes that they
are read in. -/
structure ArpFits (data : Bytes) : Prop where
  addrs : 8 + 2 * ((byteAt data 4).toNat + (byteAt data 5).toNat) ≤ data.length
  request : netU16At data 6 = arpOpRequest → netU16At data 2 = ethertypeIp4 → 4 ≤ (byteAt data 5).toNat
  reply : netU16At data 6 = arpOpReply →
    (netU16At data 2 = ethertypeIp4 → 4 ≤ (byteAt data 5).toNat) ∧ 6 ≤ (byteAt data 4).toNat

/-- A frame has an Ethernet header, and behind it what its type says. -/
structure FrameFits (data : Bytes) : Prop where
  header : 14 ≤ data.length
  arp : netU16At data 12 = ethertypeArp → ArpFits (data.drop 14)
  ip4 : netU16At data 12 = ethertypeIp4 → 34 ≤ data.length

/-- What becomes of the one thing that a receiver hands on. -/
theorem exists_handle_ok_iff {α β : Type} {x : Except Fault (List α)} {P : Prop} {a : α} (hx : ∀ r, x = .ok r ↔ P ∧ r = [a])
    (handle : β → α → Except Fault β) (res : β) :
    (∃ res', (x >>= fun r => r.foldlM handle res) = .ok res') ↔ P ∧ ∃ res', handle res a = .ok res' := by
  have hone : [a].foldlM handle res = handle res a := by rw [List.foldlM_cons]; simp only [List.foldlM_nil, bind_pure]
  rw [exists_bind_ok_iff]
  constructor
  · intro h
    obtain ⟨r, hr, hres⟩ := h
    obtain ⟨hP, rfl⟩ := (hx r).mp hr
    exact ⟨hP, hone ▸ hres⟩
  · intro h
    obtain ⟨hP, hres⟩ := h
    exact ⟨[a], (hx [a]).mpr ⟨hP, rfl⟩, hone.symm ▸ hres⟩

/-- What is handed on of an ARP packet is described when its addresses have the sizes they are read in. -/
theorem arpFits_iff (data : Bytes) (res : List ParsedProt) :
    (8 + 2 * ((byteAt data 4).toNat + (byteAt data 5).toNat) ≤ data.length ∧
      ∃ res', recvArp res (arpHeaderAt data 0) = .ok res') ↔ ArpFits data := by
  have hdescribe : (∃ res', recvArp res (arpHeaderAt data 0) = .ok res') ↔ ∃ desc, describeOp (arpHeaderAt data 0) = .ok desc :=
    exists_map_ok_iff _ _
  rw [hdescribe, describeOp_ok_iff]
  simp only [arpHeaderAt, List.Vector.toList_length, Nat.zero_add, Nat.reduceAdd]
  exact ⟨fun ⟨haddrs, hrequest, hreply⟩ => ⟨haddrs, hrequest, hreply⟩, fun h => ⟨h.addrs, h.request, h.reply⟩⟩

theorem recvEther2_ok_iff (res : List ParsedProt) (data : Ethernet2Header × Bytes) :
    (∃ res', recvEther2 res data = .ok res') ↔
      (data.1.prot = ethertypeArp → ArpFits data.2) ∧ (data.1.prot = ethertypeIp4 → 20 ≤ data.2.length) := by
  unfold recvEther2
  by_cases harp : data.1.prot = ethertypeArp
  · have hip4 : data.1.prot ≠ ethertypeIp4 := by
      rw [harp]
      decide
    rw [if_pos harp, exists_handle_ok_iff (ArpProtocol.connectRecv_ok_iff data.2), arpFits_iff,
      forall_prop_of_true harp]
    exact (and_iff_left fun h => absurd h hip4).symm
  · rw [if_neg harp, and_iff_right fun h => absurd h harp]
    by_cases hip4 : data.1.prot = ethertypeIp4
    · obtain ⟨header, hheader⟩ := Ip4Protocol.connectRecv_ok_iff
      rw [if_pos hip4, exists_handle_ok_iff (hheader data.2), forall_prop_of_true hip4]
      exact and_iff_left ⟨_, rfl⟩
    · rw [if_neg hip4]
      exact iff_of_true ⟨_, rfl⟩ fun h => absurd h hip4

/-- A captured frame is analysed within its bounds exactly when its headers fit. -/
theorem parseSniffedPacket_ok_iff (data : Bytes) : (∃ packet, parseSniffedPacket data = .ok packet) ↔ FrameFits data := by
  have hparse : (∃ packet, parseSniffedPacket data = .ok packet) ↔ ∃ prots, parseProts data = .ok prots :=
    exists_map_ok_iff _ _
  have hreceived := exists_handle_ok_iff (Ethernet2Protocol.connectRecv_ok_iff data) recvEther2 []
  rw [hparse]
  refine Iff.trans hreceived ?_
  rw [recvEther2_ok_iff, List.length_drop]
  have hprot : (ethernet2HeaderAt data 0).prot = netU16At data 12 := rfl
  rw [hprot]
  constructor
  · intro h
    obtain ⟨hheader, harp, hip4⟩ := h
    exact ⟨hheader, harp, fun h => by have := hip4 h; omega⟩
  · intro h
    obtain ⟨hheader, harp, hip4⟩ := h
    exact ⟨hheader, harp, fun h => by have := hip4 h; omega⟩

/-- Nothing is there of an empty frame; and an ARP reply whose addresses have no bytes is long enough for its header. -/
theorem parseSniffedPacket_outOfBounds : parseSniffedPacket [] = .error .outOfBounds ∧
    parseSniffedPacket (List.replicate 12 0 ++ [8, 6] ++ [0, 1, 8, 0, 0, 0, 0, 2]) = .error .outOfBounds := by
  decide

end NetAnalyzer
end NetworkingFramework
