import NetworkingFramework.NetAnalyzer

/-!
# What the receivers of the analyzer read

The headers of a frame are where they should be when there are enough bytes; the sizes of an ARP packet's addresses are among
them.
-/

namespace NetworkingFramework

open Wire Wire.Decoder

/-- Two computations in sequence return when the first does, and the second on its result. -/
theorem exists_bind_ok_iff {α β : Type} (x : Except Fault α) (f : α → Except Fault β) :
    (∃ b, (x >>= f) = .ok b) ↔ ∃ a, x = .ok a ∧ ∃ b, f a = .ok b := by
  simp only [bind_eq_ok_iff]
  exact ⟨fun ⟨b, a, ha, hb⟩ => ⟨a, ha, b, hb⟩, fun ⟨a, ha, b, hb⟩ => ⟨b, a, ha, hb⟩⟩

/-- A function of the result returns when the computation does. -/
theorem exists_map_ok_iff {α β : Type} (x : Except Fault α) (f : α → β) :
    (∃ b, (x >>= fun a => pure (f a)) = .ok b) ↔ ∃ a, x = .ok a := by
  rw [exists_bind_ok_iff]
  exact exists_congr fun a => and_iff_left ⟨f a, rfl⟩

/-! ## Headers of a fixed size -/

theorem reads_macAddr : Reads extractMacAddr 6 fun p o => ⟨octetsAt 6 p o⟩ := (reads_octets 6).map MacAddr.mk

theorem reads_ip4Addr : Reads extractIp4Addr 4 fun p o => ⟨octetsAt 4 p o⟩ := (reads_octets 4).map Ip4Addr.mk

/-- The Ethernet header of a buffer. -/
def ethernet2HeaderAt (p : Bytes) (o : Nat) : Ethernet2Header :=
  ⟨⟨octetsAt 6 p (o + 6)⟩, ⟨octetsAt 6 p o⟩, netU16At p (o + 6 + 6)⟩

theorem reads_ethernet2Header : Reads extractEthernet2Header 14 ethernet2HeaderAt :=
  reads_macAddr.bind fun _ => reads_macAddr.bind fun _ => reads_netU16.map _

theorem reads_ip4Header : ∃ v, Reads extractIp4Header 20 v :=
  ⟨_, reads_byte.bind fun _ => reads_byte.bind fun _ => reads_netU16.bind fun _ => reads_netU16.bind fun _ =>
    reads_netU16.bind fun _ => reads_byte.bind fun _ => reads_byte.bind fun _ => reads_loadU16.bind fun _ =>
      reads_ip4Addr.bind fun _ => reads_ip4Addr.map _⟩

/-- The receiver of a `connect_recv` without filters needs the header. -/
theorem recvFiltered_ok_iff {H : Type} {extract : Decoder H} {size : Nat} {v : Bytes → Nat → H} (h : Reads extract size v)
    {accepts : H → Prop} [DecidablePred accepts] (haccepts : ∀ header, accepts header) (data : Bytes)
    (r : List (H × Bytes)) :
    recvFiltered extract accepts data = .ok r ↔ size ≤ data.length ∧ r = [(v data 0, data.drop size)] := by
  rw [recvFiltered, bind_eq_ok_iff]
  constructor
  · intro h
    obtain ⟨⟨header, n⟩, hrun, hr⟩ := h
    obtain ⟨hfits, rfl, rfl⟩ := (h data 0 header n (Nat.zero_le _)).mp hrun
    rw [Nat.zero_add] at hfits
    simp only [suffixFrom, if_pos hfits, ok_bind, haccepts, if_true, pure_eq_ok, Except.ok.injEq] at hr
    exact ⟨hfits, hr.symm⟩
  · intro h
    obtain ⟨hfits, rfl⟩ := h
    refine ⟨(v data 0, size), (h data 0 _ _ (Nat.zero_le _)).mpr ⟨by omega, rfl, rfl⟩, ?_⟩
    simp only [suffixFrom, if_pos hfits, ok_bind, haccepts, if_true, pure_eq_ok]

/-- Without filters, a frame's header and payload are handed on. -/
theorem Ethernet2Protocol.connectRecv_ok_iff (data : Bytes) (r : List (Ethernet2Header × Bytes)) :
    connectRecv none none none data = .ok r ↔ 14 ≤ data.length ∧ r = [(ethernet2HeaderAt data 0, data.drop 14)] :=
  recvFiltered_ok_iff reads_ethernet2Header (by simp) data r

/-- Without filters, a packet's header and payload are handed on. -/
theorem Ip4Protocol.connectRecv_ok_iff : ∃ header : Bytes → Ip4Header, ∀ data r,
    connectRecv none none none data = .ok r ↔ 20 ≤ data.length ∧ r = [(header data, data.drop 20)] := by
  obtain ⟨v, hv⟩ := reads_ip4Header
  exact ⟨fun data => v data 0, fun data r => recvFiltered_ok_iff hv (by simp) data r⟩

/-! ## ARP -/

/-- The ARP header of a buffer. -/
def arpHeaderAt (p : Bytes) (o : Nat) : ArpHeader :=
  let hardAddrSz := byteAt p (o + 2 + 2)
  let protAddrSz := byteAt p (o + 2 + 2 + 1)
  let addrs := o + 2 + 2 + 1 + 1 + 2
  { hardType := netU16At p o, protType := netU16At p (o + 2), hardAddrSz, protAddrSz, op := netU16At p (o + 2 + 2 + 1 + 1)
    senderHardAddr := (octetsAt hardAddrSz.toNat p addrs).toList
    senderProtAddr := (octetsAt protAddrSz.toNat p (addrs + hardAddrSz.toNat)).toList
    targetHardAddr := (octetsAt hardAddrSz.toNat p (addrs + hardAddrSz.toNat + protAddrSz.toNat)).toList
    targetProtAddr :=
      (octetsAt protAddrSz.toNat p (addrs + hardAddrSz.toNat + protAddrSz.toNat + hardAddrSz.toNat)).toList }

theorem readsSized_arpHeader : ReadsSized extractArpHeader
    (fun p o => 2 + (2 + (1 + (1 + (2 + ((byteAt p (o + 2 + 2)).toNat + ((byteAt p (o + 2 + 2 + 1)).toNat +
      ((byteAt p (o + 2 + 2)).toNat + (byteAt p (o + 2 + 2 + 1)).toNat))))))))
    arpHeaderAt :=
  reads_netU16.bind_sized fun _ => reads_netU16.bind_sized fun _ => reads_byte.bind_sized fun hardAddrSz =>
    reads_byte.bind_sized fun protAddrSz => reads_netU16.bind_sized fun _ => (reads_octets hardAddrSz.toNat).bind fun _ =>
      (reads_octets protAddrSz.toNat).bind fun _ => (reads_octets hardAddrSz.toNat).bind fun _ =>
        (reads_octets protAddrSz.toNat).map _

/-- A receiver without a filter is given the header of a packet that has the length its sizes make. -/
theorem ArpProtocol.connectRecv_ok_iff (data : Bytes) (r : List ArpHeader) : connectRecv none data = .ok r ↔
    8 + 2 * ((byteAt data 4).toNat + (byteAt data 5).toNat) ≤ data.length ∧ r = [arpHeaderAt data 0] := by
  rw [connectRecv, bind_eq_ok_iff]
  constructor
  · intro h
    obtain ⟨⟨header, n⟩, hrun, hr⟩ := h
    obtain ⟨hfits, rfl, -⟩ := (readsSized_arpHeader data 0 header n (Nat.zero_le _)).mp hrun
    simp only [Nat.zero_add, Nat.reduceAdd] at hfits
    exact ⟨by omega, (Except.ok.inj hr).symm⟩
  · intro h
    obtain ⟨hfits, rfl⟩ := h
    refine ⟨(arpHeaderAt data 0, _), (readsSized_arpHeader data 0 _ _ (Nat.zero_le _)).mpr ⟨?_, rfl, rfl⟩, rfl⟩
    simp only [Nat.zero_add, Nat.reduceAdd]
    omega

namespace NetAnalyzer

/-- An IPv4 address is described when the vector it is read from has its bytes. -/
theorem describeProtAddr_ok_iff (protType : UInt16) (protAddr : Bytes) :
    (∃ desc, describeProtAddr protType protAddr = .ok desc) ↔ (protType = ethertypeIp4 → 4 ≤ protAddr.length) := by
  unfold describeProtAddr
  by_cases hip4 : protType = ethertypeIp4
  · rw [if_pos hip4, exists_bind_ok_iff, forall_prop_of_true hip4]
    refine Iff.trans ?_ (ReadsSized.run_ok_iff reads_ip4Addr protAddr)
    exact exists_congr fun ⟨ip, _⟩ => and_iff_left ⟨_, rfl⟩
  · rw [if_neg hip4]
    exact iff_of_true ⟨_, rfl⟩ fun h => absurd h hip4

/-- What is read of the addresses of an ARP header. -/
theorem describeOp_ok_iff (data : ArpHeader) : (∃ desc, describeOp data = .ok desc) ↔
    (data.op = arpOpRequest → data.protType = ethertypeIp4 → 4 ≤ data.targetProtAddr.length) ∧
      (data.op = arpOpReply →
        (data.protType = ethertypeIp4 → 4 ≤ data.senderProtAddr.length) ∧ 6 ≤ data.senderHardAddr.length) := by
  unfold describeOp
  by_cases hrequest : data.op = arpOpRequest
  · have hreply : data.op ≠ arpOpReply := by
      rw [hrequest]
      decide
    rw [if_pos hrequest, exists_map_ok_iff, describeProtAddr_ok_iff, forall_prop_of_true hrequest]
    exact (and_iff_left fun h => absurd h hreply).symm
  · rw [if_neg hrequest, and_iff_right fun h => absurd h hrequest]
    by_cases hreply : data.op = arpOpReply
    · rw [if_pos hreply, exists_bind_ok_iff, forall_prop_of_true hreply, ← describeProtAddr_ok_iff]
      have hmac := ReadsSized.run_ok_iff reads_macAddr data.senderHardAddr
      rw [← hmac, ← exists_and_right]
      refine exists_congr fun replyIp => and_congr_right fun _ => ?_
      rw [exists_bind_ok_iff]
      exact exists_congr fun ⟨replyMac, _⟩ => and_iff_left ⟨_, rfl⟩
    · rw [if_neg hreply]
      exact iff_of_true ⟨_, rfl⟩ fun h => absurd h hreply

end NetAnalyzer
end NetworkingFramework
