import NetworkingFramework.ArpTool
import NetworkingFramework.Lemmas.HeaderCodecs

/-!
# ARP headers round trip

A header whose addresses are as long as it says is written, and read back. Those that the tool sends are such, and fit the
buffer they are sent in.
-/

namespace NetworkingFramework

open Wire Wire.Decoder

/-- The addresses are as long as the header says. -/
structure ArpHeader.SizesMatch (header : ArpHeader) : Prop where
  senderHard : header.senderHardAddr.length = header.hardAddrSz.toNat
  senderProt : header.senderProtAddr.length = header.protAddrSz.toNat
  targetHard : header.targetHardAddr.length = header.hardAddrSz.toNat
  targetProt : header.targetProtAddr.length = header.protAddrSz.toNat

/-- What a header is on the wire. -/
def ArpHeader.wire (header : ArpHeader) : Bytes :=
  storeU16 (htons header.hardType) ++ storeU16 (htons header.protType) ++ [header.hardAddrSz] ++ [header.protAddrSz] ++
    storeU16 (htons header.op) ++ header.senderHardAddr ++ header.senderProtAddr ++ header.targetHardAddr ++
    header.targetProtAddr

theorem writeArpAddr_ok {addr : Bytes} {addrSz : UInt8} (h : addr.length = addrSz.toNat) (written : Bytes) :
    writeArpAddr written addr addrSz = .ok (written ++ addr) := by
  rw [writeArpAddr, if_neg (not_not.mpr h)]

theorem writeArpHeader_ok {header : ArpHeader} (h : header.SizesMatch) : writeArpHeader header = .ok header.wire := by
  have hbind (written : Bytes) (f : Bytes → Except Bytes Bytes) : ((.ok written : Except Bytes Bytes) >>= f) = f written := rfl
  unfold writeArpHeader
  simp only [writeArpAddr_ok h.senderHard, writeArpAddr_ok h.senderProt, writeArpAddr_ok h.targetHard,
    writeArpAddr_ok h.targetProt, hbind]
  rfl

theorem ArpHeader.SizesMatch.length_wire {header : ArpHeader} (h : header.SizesMatch) : header.wire.length = header.calcSz := by
  simp only [ArpHeader.wire, List.length_append, h.senderHard, h.senderProt, h.targetHard, h.targetProt]
  rfl

/-- The fields before the addresses. -/
def ArpHeader.fixedPart (header : ArpHeader) : Bytes :=
  storeU16 (htons header.hardType) ++ storeU16 (htons header.protType) ++ [header.hardAddrSz] ++ [header.protAddrSz] ++
    storeU16 (htons header.op)

/-- The addresses in the order in which they are written, each with the size that the header gives for it. -/
def ArpHeader.addrs (header : ArpHeader) : List (Bytes × UInt8) :=
  [(header.senderHardAddr, header.hardAddrSz), (header.senderProtAddr, header.protAddrSz),
    (header.targetHardAddr, header.hardAddrSz), (header.targetProtAddr, header.protAddrSz)]

theorem ArpHeader.sizesMatch_iff (header : ArpHeader) :
    header.SizesMatch ↔ ∀ addr ∈ header.addrs, addr.1.length = addr.2.toNat := by
  simp only [ArpHeader.addrs, List.mem_cons, List.not_mem_nil, or_false, forall_eq_or_imp, forall_eq]
  exact ⟨fun h => ⟨h.senderHard, h.senderProt, h.targetHard, h.targetProt⟩, fun ⟨h₁, h₂, h₃, h₄⟩ => ⟨h₁, h₂, h₃, h₄⟩⟩

/-- The addresses are written one after another behind the other fields. -/
theorem writeArpHeader_eq (header : ArpHeader) :
    writeArpHeader header = header.addrs.foldlM (fun written addr => writeArpAddr written addr.1 addr.2) header.fixedPart := by
  simp only [ArpHeader.addrs, List.foldlM_cons, List.foldlM_nil, bind_pure]
  rfl

/-- Writing stops at the first address that is not as long as it should be, with the addresses before it written. -/
theorem writeArpAddrs_error {addrs : List (Bytes × UInt8)} (h : ¬∀ addr ∈ addrs, addr.1.length = addr.2.toNat)
    (written : Bytes) : ∃ before addr behind, addrs = before ++ addr :: behind ∧
      (∀ a ∈ before, a.1.length = a.2.toNat) ∧ addr.1.length ≠ addr.2.toNat ∧
      addrs.foldlM (fun written addr => writeArpAddr written addr.1 addr.2) written =
        .error (written ++ before.flatMap Prod.fst) := by
  induction addrs generalizing written with
  | nil => exact absurd (fun addr haddr => absurd haddr List.not_mem_nil) h
  | cons addr addrs ih =>
    rw [List.foldlM_cons]
    by_cases hfirst : addr.1.length = addr.2.toNat
    · have hrest : ¬∀ a ∈ addrs, a.1.length = a.2.toNat := fun hall => h (List.forall_mem_cons.mpr ⟨hfirst, hall⟩)
      obtain ⟨before, bad, behind, rfl, hbefore, hbad, hwrite⟩ := ih hrest (written ++ addr.1)
      refine ⟨addr :: before, bad, behind, rfl, List.forall_mem_cons.mpr ⟨hfirst, hbefore⟩, hbad, ?_⟩
      rw [writeArpAddr_ok hfirst, List.flatMap_cons, ← List.append_assoc]
      exact hwrite
    · refine ⟨[], addr, addrs, rfl, fun a ha => absurd ha List.not_mem_nil, hfirst, ?_⟩
      rw [writeArpAddr, if_pos hfirst, List.flatMap_nil, List.append_nil]
      rfl

/-- An address is read back with the length it has. -/
theorem roundTrips_arpAddr {addr : Bytes} {n : Nat} (h : addr.length = n) : RoundTrips (octets n) addr ⟨addr, h⟩ :=
  roundTrips_octets ⟨addr, h⟩

theorem roundTrips_arpHeader {header : ArpHeader} (h : header.SizesMatch) :
    RoundTrips extractArpHeader header.wire header := by
  simp only [ArpHeader.wire, List.append_assoc]
  refine (roundTrips_netU16 header.hardType).bind ?_
  refine (roundTrips_netU16 header.protType).bind ?_
  refine (roundTrips_byte header.hardAddrSz).bind ?_
  refine (roundTrips_byte header.protAddrSz).bind ?_
  refine (roundTrips_netU16 header.op).bind ?_
  refine (roundTrips_arpAddr h.senderHard).bind ?_
  refine (roundTrips_arpAddr h.senderProt).bind ?_
  refine (roundTrips_arpAddr h.targetHard).bind ?_
  exact (roundTrips_arpAddr h.targetProt).map _

/-- What `send` sends of a header that fits its buffer is read back as the header. -/
theorem ArpProtocol.send_eq {header : ArpHeader} (h : header.SizesMatch) (hfits : header.calcSz ≤ sizeofArpHeader) :
    ∃ sent, ArpProtocol.send header = .ok sent ∧ extractArpHeader.run sent 0 = .ok (header, header.calcSz) := by
  rw [← h.length_wire] at hfits ⊢
  refine ⟨header.wire ++ List.replicate (sizeofArpHeader - header.wire.length) 0, ?_, ?_⟩
  · rw [ArpProtocol.send, writeArpHeader_ok h]
    exact if_pos hfits
  · exact (roundTrips_arpHeader h).run_append _

namespace ArpTool

theorem header_sizesMatch (op : UInt16) (senderMac : MacAddr) (senderIp : Ip4Addr) (targetMac : MacAddr) (targetIp : Ip4Addr) :
    (header op senderMac senderIp targetMac targetIp).SizesMatch :=
  ⟨senderMac.octets.toList_length, senderIp.octets.toList_length, targetMac.octets.toList_length,
    targetIp.octets.toList_length⟩

/-- Every header of the tool is sent, and read back. -/
theorem send_header (op : UInt16) (senderMac : MacAddr) (senderIp : Ip4Addr) (targetMac : MacAddr) (targetIp : Ip4Addr) :
    ∃ sent, ArpProtocol.send (header op senderMac senderIp targetMac targetIp) = .ok sent ∧
      extractArpHeader.run sent 0 = .ok (header op senderMac senderIp targetMac targetIp, 28) := by
  have hsz : (header op senderMac senderIp targetMac targetIp).calcSz = 28 := rfl
  have hsend := ArpProtocol.send_eq (header_sizesMatch op senderMac senderIp targetMac targetIp) (by rw [hsz]; decide)
  rwa [hsz] at hsend

/-- The requests for different addresses are different. -/
theorem request_inj {srcMac : MacAddr} {srcIp a b : Ip4Addr} (h : request srcMac srcIp a = request srcMac srcIp b) : a = b :=
  Ip4Addr.ext_octets (congrArg ArpHeader.targetProtAddr h)

end ArpTool
end NetworkingFramework
