import NetworkingFramework.Lemmas.HeaderCodecs
import NetworkingFramework.Lemmas.Checksum

/-!
# IPv4 packets

Of twenty bytes that are read as a header and written back only the flags are lost. The receiver of `connect_recv` hands on
what follows the first twenty bytes of a packet, wherever its header says that the payload begins and ends. The header that
`send` writes carries its own checksum.
-/

namespace NetworkingFramework

open Wire Wire.Decoder

/-! ## The header -/

/-- An IPv4 header is written to twenty bytes. -/
@[simp] theorem length_writeIp4Header (h : Ip4Header) : (writeIp4Header h).length = 20 := by
  simp [writeIp4Header, storeU16]

/-- A byte is put together again from its two numbers of four bits. -/
theorem byte_of_nibbles (b : UInt8) :
    UInt8.ofNat ((BitVec.ofNat 4 (b.toNat / 16)).toNat * 16 + (BitVec.ofNat 4 (b.toNat % 16)).toNat) = b := by
  have hb : b.toNat < 256 := b.toNat_lt
  apply UInt8.toNat_inj.mp
  simp only [BitVec.toNat_ofNat, UInt8.toNat_ofNat']
  omega

/-- The flags read are zero, so the word written back keeps only the offset: its first byte loses the three upper bits. -/
theorem storeU16_of_fragOff (hi lo : UInt8) :
    storeU16 (htons (UInt16.ofNat
      ((BitVec.ofNat 3 ((ntohs (UInt16.ofNat (hi.toNat + lo.toNat * 256))).toNat / 8192 * 8192)).toNat * 8192 +
        (BitVec.ofNat 13 ((ntohs (UInt16.ofNat (hi.toNat + lo.toNat * 256))).toNat % 8192)).toNat))) =
      [UInt8.ofNat (hi.toNat % 32), lo] := by
  have hhi : hi.toNat < 256 := hi.toNat_lt
  have hlo : lo.toNat < 256 := lo.toNat_lt
  have hflags : (BitVec.ofNat 3 ((hi.toNat * 256 + lo.toNat) / 8192 * 8192)).toNat = 0 := by
    rw [BitVec.toNat_ofNat]
    omega
  have hoff : (BitVec.ofNat 13 ((hi.toNat * 256 + lo.toNat) % 8192)).toNat = hi.toNat % 32 * 256 + lo.toNat := by
    rw [BitVec.toNat_ofNat]
    omega
  rw [toNat_ntohs_ofNat, hflags, hoff, Nat.zero_mul, Nat.zero_add, storeU16_htons_ofNat (by omega) hlo,
    UInt8.ofNat_toNat]

/-- Writing the header that twenty bytes are read as gives the bytes back, but for the three bits of the flags. -/
theorem writeIp4Header_of_extract (b : List.Vector UInt8 20) :
    ∃ h, extractIp4Header.run b.toList 0 = .ok (h, 20) ∧
      writeIp4Header h = b.toList.set 6 (UInt8.ofNat ((byteAt b.toList 6).toNat % 32)) := by
  obtain ⟨l, hl⟩ := b
  match l, hl with
  | [b₀, b₁, b₂, b₃, b₄, b₅, b₆, b₇, b₈, b₉, b₁₀, b₁₁, b₁₂, b₁₃, b₁₄, b₁₅, b₁₆, b₁₇, b₁₈, b₁₉], _ =>
    refine ⟨_, rfl, ?_⟩
    simp only [writeIp4Header, byte_of_nibbles, htons_ntohs, storeU16_ofNat, storeU16_of_fragOff]
    rfl

/-- The header that twenty bytes are read as is written back as the same bytes exactly when the flags in them are zero. -/
theorem writeIp4Header_eq_iff (b : List.Vector UInt8 20) :
    (∃ h, extractIp4Header.run b.toList 0 = .ok (h, 20) ∧ writeIp4Header h = b.toList) ↔
      (byteAt b.toList 6).toNat < 32 := by
  obtain ⟨h, hrun, hwrite⟩ := writeIp4Header_of_extract b
  have hlen : 6 < b.toList.length := by simp
  have hget : byteAt b.toList 6 = b.toList[6] := by
    rw [byteAt, List.getD_eq_getElem?_getD, List.getElem?_eq_getElem hlen, Option.getD_some]
  refine ⟨fun hback => ?_, fun hzero => ⟨h, hrun, ?_⟩⟩
  · obtain ⟨h', hrun', hwrite'⟩ := hback
    obtain rfl : h' = h := (Prod.mk.inj (Except.ok.inj (hrun'.symm.trans hrun))).1
    have hset : b.toList.set 6 (UInt8.ofNat ((byteAt b.toList 6).toNat % 32)) = b.toList := hwrite.symm.trans hwrite'
    have hbyte : UInt8.ofNat ((byteAt b.toList 6).toNat % 32) = byteAt b.toList 6 := by
      have h6 := congrArg (fun l => l[6]?) hset
      rw [List.getElem?_set_self hlen, List.getElem?_eq_getElem hlen, ← hget] at h6
      exact Option.some.inj h6
    have hval := congrArg UInt8.toNat hbyte
    rw [UInt8.toNat_ofNat'] at hval
    omega
  · rw [hwrite, Nat.mod_eq_of_lt hzero, UInt8.ofNat_toNat, hget, List.set_getElem_self]

/-- The header that was written is read back exactly when its flags are zero. -/
theorem extractIp4Header_eq_iff (h : Ip4Header) :
    extractIp4Header.run (writeIp4Header h) 0 = .ok (h, 20) ↔ h.flags = 0 := by
  have hrun : extractIp4Header.run (writeIp4Header h) 0 = .ok ({ h with flags := 0 }, 20) := by
    rw [(roundTrips_ip4Header h).run_word, length_writeIp4Header]
  rw [hrun]
  refine ⟨fun hback => ?_, fun hzero => ?_⟩
  · exact (congrArg Ip4Header.flags (Prod.mk.inj (Except.ok.inj hback)).1).symm
  · exact congrArg (fun flags => Except.ok ({ h with flags := flags }, 20)) hzero.symm

/-! ## The payload -/

/-- A valid packet with its header: the header is at least five words long, the total length covers it, and all of the total
length was received. -/
structure Ip4Header.HeadsPacket (header : Ip4Header) (packet : Bytes) : Prop where
  extracted : extractIp4Header.run packet 0 = .ok (header, Ip4Protocol.headerSize)
  fiveWords : 5 ≤ header.headerLen.toNat
  covered : 4 * header.headerLen.toNat ≤ header.totalLen.toNat
  received : header.totalLen.toNat ≤ packet.length

/-- The payload of a packet: the bytes from the end of the header, options included, up to the total length. -/
def Ip4Header.payload (header : Ip4Header) (packet : Bytes) : Bytes :=
  (packet.take header.totalLen.toNat).drop (4 * header.headerLen.toNat)

namespace Ip4Protocol

/-- The receiver hands on whatever follows the first twenty bytes. -/
theorem connectRecv_eq {srcAddr destAddr : Option Ip4Addr} {prot : Option UInt8} {packet : Bytes} {header : Ip4Header}
    (hrun : extractIp4Header.run packet 0 = .ok (header, headerSize)) (hlen : headerSize ≤ packet.length)
    (hsrc : Accepts srcAddr header.srcAddr) (hdest : Accepts destAddr header.destAddr) (hprot : Accepts prot header.prot) :
    connectRecv srcAddr destAddr prot packet = .ok [(header, packet.drop headerSize)] := by
  rw [connectRecv, recvFiltered, hrun]
  simp [suffixFrom, hlen, hsrc, hdest, hprot]

/-- What follows the first twenty bytes of a valid packet is its payload exactly when the packet has no options and nothing
after its total length. -/
theorem drop_eq_payload_iff {header : Ip4Header} {packet : Bytes} (h : header.HeadsPacket packet) :
    packet.drop headerSize = header.payload packet ↔
      header.headerLen.toNat = 5 ∧ header.totalLen.toNat = packet.length := by
  obtain ⟨-, hfive, hcovered, hreceived⟩ := h
  refine ⟨fun heq => ?_, fun hexact => ?_⟩
  · have hlen := congrArg List.length heq
    rw [Ip4Header.payload, List.length_drop, List.length_drop, List.length_take, headerSize] at hlen
    omega
  · rw [Ip4Header.payload, hexact.1, hexact.2, List.take_length, headerSize]

/-- A datagram sent through UDP and IPv4 and padded on the link arrives with the padding behind its payload. -/
theorem recvUdpOverIp4_send {srcAddr destAddr : Option Ip4Addr} {prot : Option UInt8} {srcPort destPort : Option UInt16}
    {ipHeader : Ip4Header} {udpHeader : UdpHeader} (hsrc : Accepts srcAddr ipHeader.srcAddr)
    (hdest : Accepts destAddr ipHeader.destAddr) (hprot : Accepts prot ipHeader.prot)
    (hsrcPort : Accepts srcPort udpHeader.srcPort) (hdestPort : Accepts destPort udpHeader.destPort)
    (payload padding : Bytes) :
    (recvUdpOverIp4 srcAddr destAddr prot srcPort destPort
      (send ipHeader (UdpProtocol.send udpHeader payload) ++ padding)).map (List.map Prod.snd) =
      .ok [payload ++ padding] := by
  rw [recvUdpOverIp4, connectRecv, send]
  simp only [List.append_assoc, UdpProtocol.send]
  rw [recvFiltered_eq (roundTrips_ip4Header _), if_pos ⟨hsrc, hdest, hprot⟩, ok_bind, List.mapM_cons, List.mapM_nil,
    UdpProtocol.connectRecv, recvFiltered_eq (roundTrips_udpHeader _), if_pos ⟨hsrcPort, hdestPort⟩]
  rfl

/-! ## The checksum -/

/-- The checksum is the eleventh and the twelfth byte of a header. -/
theorem writeIp4Header_checksum (h : Ip4Header) (checksum : UInt16) : writeIp4Header { h with checksum } =
    (writeIp4Header h).take 10 ++ (storeU16 checksum ++ (h.srcAddr.octets.toList ++ h.destAddr.octets.toList)) := by
  simp [writeIp4Header, storeU16]

/-- The twenty bytes of header that `send` emits checksum to zero. -/
theorem internetChecksum_send (header : Ip4Header) (data : Bytes) :
    internetChecksum ((send header data).take headerSize) = 0 := by
  have htake : (send header data).take headerSize = writeIp4Header
      { header with checksum := internetChecksum (writeIp4Header { header with checksum := 0 }) } :=
    List.take_left' (length_writeIp4Header _)
  have hpre : ((writeIp4Header header).take 10).length = 10 := by simp
  rw [htake, writeIp4Header_checksum, writeIp4Header_checksum header 0]
  exact internetChecksum_insert (by rw [hpre]) _ (by simp [storeU16])

end Ip4Protocol

/-- The whole message that the `send` of ICMP emits checksums to zero. -/
theorem IcmpProtocol.internetChecksum_send (header : IcmpHeader) (data : Bytes) (h : 8 + data.length ≤ 65535) :
    internetChecksum (IcmpProtocol.send header data) = 0 := by
  have hsend (checksum : UInt16) : writeIcmpHeader { header with checksum } ++ data =
      [header.type, header.code] ++ (storeU16 checksum ++ (storeU32 (htonl header.content) ++ data)) := by
    simp [writeIcmpHeader, List.append_assoc]
  unfold IcmpProtocol.send
  simp only [hsend]
  exact internetChecksum_insert (by simp) _ (by simp [storeU16, storeU32]; omega)

end NetworkingFramework
