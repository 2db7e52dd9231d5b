import NetworkingFramework.Lemmas.Ip4Packet

/-!
# IPv4 headers, payloads and checksums

The codec of the header is a bijection but for the three bits of the flags, which are read as zero. A receiver is given the
payload of a packet when the header has no options and nothing follows the packet on the link. The checksum is the one's
complement of the sum in one's complement, and what `send` emits checksums to zero.
-/

namespace NetworkingFramework

open Wire Wire.Decoder

/-- Twenty bytes survive reading and writing exactly when the upper three bits of the seventh, the flags, are zero; a header
survives writing and reading exactly when its flags are. -/
theorem ip4Header_bijective_iff (b : List.Vector UInt8 20) (h : Ip4Header) :
    ((∃ h', extractIp4Header.run b.toList 0 = .ok (h', 20) ∧ writeIp4Header h' = b.toList) ↔
        (byteAt b.toList 6).toNat < 32) ∧
      (extractIp4Header.run (writeIp4Header h) 0 = .ok (h, 20) ↔ h.flags = 0) :=
  ⟨writeIp4Header_eq_iff b, extractIp4Header_eq_iff h⟩

/-- A header that asks not to be fragmented comes back without the request, read and written or written and read. -/
theorem ip4Header_bijective_counterexample :
    (¬∃ h, extractIp4Header.run [69, 0, 0, 20, 28, 70, 64, 0, 64, 6, 177, 230, 172, 16, 10, 99, 172, 16, 10, 12] 0 =
        .ok (h, 20) ∧
      writeIp4Header h = [69, 0, 0, 20, 28, 70, 64, 0, 64, 6, 177, 230, 172, 16, 10, 99, 172, 16, 10, 12]) ∧
      extractIp4Header.run (writeIp4Header ⟨4, 5, 0, 20, 7238, 2, 0, 64, 6, 0, ⟨⟨[172, 16, 10, 99], rfl⟩⟩,
          ⟨⟨[172, 16, 10, 12], rfl⟩⟩⟩) 0 ≠
        .ok (⟨4, 5, 0, 20, 7238, 2, 0, 64, 6, 0, ⟨⟨[172, 16, 10, 99], rfl⟩⟩, ⟨⟨[172, 16, 10, 12], rfl⟩⟩⟩, 20) := by
  refine ⟨fun hback => ?_, fun hback => ?_⟩
  · have hzero := (writeIp4Header_eq_iff ⟨[69, 0, 0, 20, 28, 70, 64, 0, 64, 6, 177, 230, 172, 16, 10, 99, 172, 16, 10, 12],
      rfl⟩).mp hback
    exact absurd hzero (by decide)
  · have hzero := (extractIp4Header_eq_iff _).mp hback
    exact absurd hzero (by decide)

/-- A valid packet that passes the filters of `connect_recv` arrives with its payload exactly when its header is five words
long and nothing was received after its total length; and so a datagram sent through UDP and IPv4, in a packet that says its
own length, arrives with its payload exactly when the link does not pad it. -/
theorem ip4_payload_delimited_iff (srcAddr destAddr : Option Ip4Addr) (prot : Option UInt8)
    (srcPort destPort : Option UInt16) :
    (∀ (packet : Bytes) (header : Ip4Header), header.HeadsPacket packet → Accepts srcAddr header.srcAddr →
      Accepts destAddr header.destAddr → Accepts prot header.prot →
        (Ip4Protocol.connectRecv srcAddr destAddr prot packet = .ok [(header, header.payload packet)] ↔
          header.headerLen.toNat = 5 ∧ header.totalLen.toNat = packet.length)) ∧
      ∀ (ipHeader : Ip4Header) (udpHeader : UdpHeader) (payload padding : Bytes),
        ipHeader.headerLen = 5 → ipHeader.totalLen.toNat = 20 + (8 + payload.length) →
        Accepts srcAddr ipHeader.srcAddr → Accepts destAddr ipHeader.destAddr → Accepts prot ipHeader.prot →
        Accepts srcPort udpHeader.srcPort → Accepts destPort udpHeader.destPort →
          ((recvUdpOverIp4 srcAddr destAddr prot srcPort destPort
              (Ip4Protocol.send ipHeader (UdpProtocol.send udpHeader payload) ++ padding)).map (List.map Prod.snd) =
            .ok [payload] ↔ padding = []) := by
  refine ⟨fun packet header h hsrc hdest hprot => ?_, ?_⟩
  · have hlen : Ip4Protocol.headerSize ≤ packet.length := by
      obtain ⟨-, hfive, hcovered, hreceived⟩ := h
      unfold Ip4Protocol.headerSize
      omega
    rw [Ip4Protocol.connectRecv_eq h.extracted hlen hsrc hdest hprot, ← Ip4Protocol.drop_eq_payload_iff h]
    simp
  · intro ipHeader udpHeader payload padding _ _ hsrc hdest hprot hsrcPort hdestPort
    rw [Ip4Protocol.recvUdpOverIp4_send hsrc hdest hprot hsrcPort hdestPort]
    simp

/-- One byte of UDP in a packet of IPv4, 29 bytes. -/
def smallPacket : Bytes :=
  Ip4Protocol.send ⟨4, 5, 0, 29, 1234, 0, 0, 255, 17, 0, ⟨⟨[10, 0, 0, 1], rfl⟩⟩, ⟨⟨[10, 0, 0, 2], rfl⟩⟩⟩
    (UdpProtocol.send ⟨8, 9, 0, 0⟩ [65])

theorem ip4_payload_delimited_unpadded :
    (∃ header : Ip4Header, header.HeadsPacket smallPacket ∧
      Ip4Protocol.connectRecv none none (some 17) smallPacket = .ok [(header, header.payload smallPacket)]) ∧
      (recvUdpOverIp4 none none (some 17) none (some 9) (smallPacket ++ [])).map (List.map Prod.snd) = .ok [[65]] := by
  obtain ⟨hpacket, hdatagram⟩ := ip4_payload_delimited_iff none none (some 17) none (some 9)
  refine ⟨⟨_, ⟨rfl, by decide, by decide, by decide⟩, ?_⟩, ?_⟩
  · exact (hpacket smallPacket _ ⟨rfl, by decide, by decide, by decide⟩ (accepts_none _) (accepts_none _)
      ((accepts_some _ _).mpr rfl)).mpr ⟨by decide, by decide⟩
  · exact (hdatagram _ _ [65] [] rfl (by decide) (accepts_none _) (accepts_none _) ((accepts_some _ _).mpr rfl)
      (accepts_none _) ((accepts_some _ _).mpr rfl)).mpr rfl

/-- In an Ethernet frame of the smallest size the packet is followed by 17 bytes of padding, and these are delivered. -/
theorem ip4_payload_delimited_counterexample :
    (∃ header : Ip4Header, header.HeadsPacket (smallPacket ++ List.replicate 17 0) ∧
      Ip4Protocol.connectRecv none none none (smallPacket ++ List.replicate 17 0) ≠
        .ok [(header, header.payload (smallPacket ++ List.replicate 17 0))]) ∧
      (recvUdpOverIp4 none none none none none (smallPacket ++ List.replicate 17 0)).map (List.map Prod.snd) ≠
        .ok [[65]] := by
  refine ⟨⟨_, ⟨rfl, by decide, by decide, by decide⟩, ?_⟩, ?_⟩
  · rw [Ip4Protocol.connectRecv_eq rfl (by decide) (accepts_none _) (accepts_none _) (accepts_none _)]
    decide
  · rw [smallPacket, Ip4Protocol.recvUdpOverIp4_send (accepts_none _) (accepts_none _) (accepts_none _) (accepts_none _)
      (accepts_none _)]
    decide

/-- On buffers of at most 65535 bytes the accumulator does not overflow, and the checksum is the complement of the sum in one's
complement of the words; so the header that IPv4 emits and the message that ICMP emits checksum to zero. -/
theorem internetChecksum_verifies :
    (∀ buf : Bytes, buf.length ≤ 65535 → (internetChecksumSum buf 0).toNat = (hostWords buf).sum ∧
        (internetChecksum buf).toNat = 65535 - OnesComplement.sum 65536 (hostWords buf)) ∧
      (∀ (header : Ip4Header) (data : Bytes), internetChecksum ((Ip4Protocol.send header data).take 20) = 0) ∧
      ∀ (header : IcmpHeader) (data : Bytes), 8 + data.length ≤ 65535 →
        internetChecksum (IcmpProtocol.send header data) = 0 := by
  refine ⟨fun buf h => ?_, Ip4Protocol.internetChecksum_send, IcmpProtocol.internetChecksum_send⟩
  have hfit := hostWords_sum_lt h
  refine ⟨?_, toNat_internetChecksum buf hfit⟩
  rw [toNat_internetChecksumSum buf 0 (by simpa using hfit)]
  simp

/-- A buffer of three bytes, an empty payload and a payload of one byte. -/
theorem internetChecksum_verifies_small :
    (internetChecksum [1, 2, 255]).toNat = 65535 - OnesComplement.sum 65536 [513, 255] ∧
      internetChecksum ((Ip4Protocol.send ⟨4, 5, 0, 20, 1234, 2, 0, 255, 17, 0, ip4AddrEmpty, ip4AddrEmpty⟩ []).take 20) = 0 ∧
      internetChecksum (IcmpProtocol.send ⟨8, 0, 0, 65537⟩ [255]) = 0 := by
  obtain ⟨hbuf, hip, hicmp⟩ := internetChecksum_verifies
  exact ⟨(hbuf [1, 2, 255] (by decide)).2, hip _ _, hicmp _ _ (by decide)⟩

/-- A word of a header that IPv4 emits, or of a message that ICMP emits, is changed on the way: the checksum is zero still
exactly when one zero was put in the place of the other, beside a word that is not zero. -/
theorem internetChecksum_detects :
    (∀ (header : Ip4Header) (data pre post : Bytes) (w w' : UInt16), pre.length % 2 = 0 →
      (Ip4Protocol.send header data).take 20 = pre ++ (storeU16 w ++ post) →
      (internetChecksum (pre ++ (storeU16 w' ++ post)) = 0 ↔
        w' = w ∨ (∃ word ∈ hostWords pre ++ hostWords post, word ≠ 0) ∧ (w' = 0 ∧ w = 0xFFFF ∨ w' = 0xFFFF ∧ w = 0))) ∧
      ∀ (header : IcmpHeader) (data pre post : Bytes) (w w' : UInt16), 8 + data.length ≤ 65535 → pre.length % 2 = 0 →
        IcmpProtocol.send header data = pre ++ (storeU16 w ++ post) →
        (internetChecksum (pre ++ (storeU16 w' ++ post)) = 0 ↔
          w' = w ∨ (∃ word ∈ hostWords pre ++ hostWords post, word ≠ 0) ∧ (w' = 0 ∧ w = 0xFFFF ∨ w' = 0xFFFF ∧ w = 0)) := by
  have hreplaced {sent pre post : Bytes} {w : UInt16} (w' : UInt16) (hsent : internetChecksum sent = 0) (hlen : sent.length ≤ 65535)
      (hpre : pre.length % 2 = 0) (hword : sent = pre ++ (storeU16 w ++ post)) :
      internetChecksum (pre ++ (storeU16 w' ++ post)) = 0 ↔
        w' = w ∨ (∃ word ∈ hostWords pre ++ hostWords post, word ≠ 0) ∧ (w' = 0 ∧ w = 0xFFFF ∨ w' = 0xFFFF ∧ w = 0) := by
    subst hword
    rw [← internetChecksum_replace_iff hpre post w w', hsent]
    simp only [storeU16, List.length_append, List.length_cons, List.length_nil] at hlen
    omega
  constructor
  · intro header data pre post w w' hpre hword
    refine hreplaced w' (Ip4Protocol.internetChecksum_send header data) ?_ hpre hword
    exact Nat.le_trans (List.length_take_le _ _) (by decide)
  · intro header data pre post w w' hdata hpre hword
    refine hreplaced w' (IcmpProtocol.internetChecksum_send header data hdata) ?_ hpre hword
    simp only [IcmpProtocol.send, writeIcmpHeader, storeU16, storeU32, List.length_append, List.length_cons, List.length_nil]
    omega

/-- An echo request whose first word is another. -/
theorem internetChecksum_detects_echo : internetChecksum ([9, 0] ++ (IcmpProtocol.send ⟨8, 0, 0, 65537⟩ [255]).drop 2) ≠ 0 := by
  have hzero := internetChecksum_detects.2 ⟨8, 0, 0, 65537⟩ [255] []
    ((IcmpProtocol.send ⟨8, 0, 0, 65537⟩ [255]).drop 2) 8 9 (by decide)
    rfl rfl
  intro h
  rcases hzero.mp h with h | ⟨-, h | h⟩
  · exact absurd h (by decide)
  · exact absurd h.1 (by decide)
  · exact absurd h.1 (by decide)

end NetworkingFramework
