import NetworkingFramework.Icmp
import NetworkingFramework.Lemmas.VarLenInts
import NetworkingFramework.Stack

/-!
# Headers round trip

Each of the header codecs takes back what it wrote, except for the flags of an IPv4 header, which come back as zero. So
the receiver of a `connect_recv` gets what the `send` of the same protocol was given when its filters accept the header.
-/

namespace NetworkingFramework

open Wire Wire.Decoder

/-! ## Codecs -/

theorem roundTrips_macAddr (a : MacAddr) : RoundTrips extractMacAddr a.octets.toList a :=
  (roundTrips_octets a.octets).map MacAddr.mk

theorem roundTrips_ip4Addr (a : Ip4Addr) : RoundTrips extractIp4Addr a.octets.toList a :=
  (roundTrips_octets a.octets).map Ip4Addr.mk

/-- Addresses with the same octets are the same. -/
theorem Ip4Addr.ext_octets {a b : Ip4Addr} (h : a.octets.toList = b.octets.toList) : a = b := by
  obtain ⟨⟨octets, hlen⟩⟩ := a
  obtain ⟨⟨octets', hlen'⟩⟩ := b
  obtain rfl : octets = octets' := h
  rfl

theorem roundTrips_empPort {port : EmpPort} (h : (varLenEncodeBytes port.vals).length < 2 ^ 31) :
    RoundTrips extractEmpPort (varLenEncodeBytes port.vals) port :=
  (roundTrips_varLenDecodeBytesInt (varLenWord_encode port.vals) h).map EmpPort.mk

theorem roundTrips_ethernet2Header (h : Ethernet2Header) :
    RoundTrips extractEthernet2Header (writeEthernet2Header h) h := by
  rw [writeEthernet2Header, List.append_assoc]
  refine (roundTrips_macAddr h.destAddr).bind ?_
  refine (roundTrips_macAddr h.srcAddr).bind ?_
  exact (roundTrips_netU16 h.prot).map _

theorem roundTrips_udpHeader (h : UdpHeader) : RoundTrips extractUdpHeader (writeUdpHeader h) h := by
  rw [writeUdpHeader, List.append_assoc, List.append_assoc]
  refine (roundTrips_netU16 h.srcPort).bind ?_
  refine (roundTrips_netU16 h.destPort).bind ?_
  refine (roundTrips_netU16 h.len).bind ?_
  exact (roundTrips_netU16 h.checksum).map _

/-- A header of ports round trips when an `int` counts its bytes. -/
theorem roundTrips_empHeader {h : EmpHeader} (hlen : (writeEmpHeader h).length < 2 ^ 31) :
    extractEmpHeader.RoundTrips (writeEmpHeader h) h := by
  have hports : (varLenEncodeBytes h.srcPort.vals).length + (varLenEncodeBytes h.destPort.vals).length < 2 ^ 31 := by
    rwa [writeEmpHeader, List.length_append] at hlen
  refine Reader.RoundTrips.narrowed ?_ hlen
  refine (Reader.roundTrips_ofDecoder (roundTrips_empPort (by omega))).bind ?_
  exact (Reader.roundTrips_ofDecoder (roundTrips_empPort (by omega))).map _

theorem roundTrips_icmpHeader (h : IcmpHeader) : RoundTrips extractIcmpHeader (writeIcmpHeader h) h := by
  simp only [writeIcmpHeader, List.append_assoc]
  refine (roundTrips_byte h.type).bind ?_
  refine (roundTrips_byte h.code).bind ?_
  refine (roundTrips_loadU16 h.checksum).bind ?_
  have hcontent := (roundTrips_loadU32 (htonl h.content)).map fun content => IcmpHeader.mk h.type h.code h.checksum (ntohl content)
  rwa [ntohl_htonl] at hcontent

/-- The first byte of an IPv4 header holds two numbers of four bits. -/
theorem nibbles_of_byte (hi lo : BitVec 4) :
    BitVec.ofNat 4 ((UInt8.ofNat (hi.toNat * 16 + lo.toNat)).toNat / 16) = hi ∧
      BitVec.ofNat 4 ((UInt8.ofNat (hi.toNat * 16 + lo.toNat)).toNat % 16) = lo := by
  have hhi := hi.isLt
  have hlo := lo.isLt
  constructor <;> apply BitVec.eq_of_toNat_eq <;> simp only [BitVec.toNat_ofNat, UInt8.toNat_ofNat'] <;> omega

/-- The word of flags and fragment offset gives the offset back; of the flags nothing is left. -/
theorem fragOff_of_word (flags : BitVec 3) (fragOff : BitVec 13) :
    BitVec.ofNat 13 ((UInt16.ofNat (flags.toNat * 8192 + fragOff.toNat)).toNat % 8192) = fragOff ∧
      BitVec.ofNat 3 ((UInt16.ofNat (flags.toNat * 8192 + fragOff.toNat)).toNat / 8192 * 8192) = 0 := by
  have hflags := flags.isLt
  have hoff := fragOff.isLt
  constructor
  · apply BitVec.eq_of_toNat_eq
    simp only [BitVec.toNat_ofNat, UInt16.toNat_ofNat']
    omega
  · apply BitVec.eq_of_toNat_eq
    have hzero : (0 : BitVec 3).toNat = 0 := rfl
    rw [BitVec.toNat_ofNat, hzero]
    omega

/-- The codec of an IPv4 header keeps everything but the flags. -/
theorem roundTrips_ip4Header (h : Ip4Header) : RoundTrips extractIp4Header (writeIp4Header h) { h with flags := 0 } := by
  obtain ⟨hversion, hlen⟩ := nibbles_of_byte h.version h.headerLen
  obtain ⟨hoff, hflags⟩ := fragOff_of_word h.flags h.fragOff
  simp only [writeIp4Header, List.append_assoc]
  refine (roundTrips_byte _).bind ?_
  refine (roundTrips_byte h.typeOfService).bind ?_
  refine (roundTrips_netU16 h.totalLen).bind ?_
  refine (roundTrips_netU16 h.id).bind ?_
  refine (roundTrips_netU16 _).bind ?_
  refine (roundTrips_byte h.ttl).bind ?_
  refine (roundTrips_byte h.prot).bind ?_
  refine (roundTrips_loadU16 h.checksum).bind ?_
  refine (roundTrips_ip4Addr h.srcAddr).bind ?_
  rw [hversion, hlen, hoff, hflags]
  exact (roundTrips_ip4Addr h.destAddr).map _

/-! ## Receivers -/

namespace Layer

/-- A layer's receiver gets what the other host's layer of the same protocol sent, if it filters on what that one wrote. -/
theorem recv_of_sendData {a b : Layer} (hsame : a.SameProtocol b) {data packet : Bytes}
    (hsend : a.sendData data = .ok packet) : b.recv packet = .ok (if b.AcceptsFrom a then [data] else []) := by
  cases a <;> cases b <;> first | exact hsame.elim | skip
  · rename_i x y
    obtain rfl : x.sendData data = packet := Except.ok.inj hsend
    simp only [recv, Ethernet2Protocol.NetAccessSingle.recv, Ethernet2Protocol.NetAccessSingle.sendData,
      Ethernet2Protocol.send, Ethernet2Protocol.connectRecv, recvFiltered_eq (roundTrips_ethernet2Header x.header),
      AcceptsFrom, ok_bind, pure_eq_ok, apply_ite (List.map Prod.snd), List.map_cons, List.map_nil]
    rfl
  · rename_i x y
    obtain rfl : x.sendData data = packet := Except.ok.inj hsend
    simp only [recv, Ip4Protocol.NetAccessSingle.recv, Ip4Protocol.NetAccessSingle.sendData,
      Ip4Protocol.send, Ip4Protocol.connectRecv, recvFiltered_eq (roundTrips_ip4Header _),
      AcceptsFrom, ok_bind, pure_eq_ok, apply_ite (List.map Prod.snd), List.map_cons, List.map_nil]
    rfl
  · rename_i x y
    obtain rfl : x.sendData data = packet := Except.ok.inj hsend
    simp only [recv, UdpProtocol.NetAccessSingle.recv, UdpProtocol.NetAccessSingle.sendData,
      UdpProtocol.send, UdpProtocol.connectRecv, recvFiltered_eq (roundTrips_udpHeader _),
      AcceptsFrom, ok_bind, pure_eq_ok, apply_ite (List.map Prod.snd), List.map_cons, List.map_nil]
    rfl
  · rename_i x y
    obtain ⟨hfit, hpacket⟩ : (writeEmpHeader x.header ++ data).length ≤ EmpProtocol.buffSize ∧
        writeEmpHeader x.header ++ data = packet := by
      simp only [sendData, EmpProtocol.NetAccessSingle.sendData, EmpProtocol.send] at hsend
      split at hsend
      · rename_i hfit
        exact ⟨hfit, Except.ok.inj hsend⟩
      · cases hsend
    subst hpacket
    have hlen : (writeEmpHeader x.header).length < 2 ^ 31 := by
      have hsize : EmpProtocol.buffSize < 2 ^ 31 := by decide
      rw [List.length_append] at hfit
      omega
    simp only [recv, EmpProtocol.NetAccessSingle.recv, EmpProtocol.connectRecv,
      recvFilteredInt_eq (roundTrips_empHeader hlen), AcceptsFrom, ok_bind, pure_eq_ok, apply_ite (List.map Prod.snd),
      List.map_cons, List.map_nil]
    rfl

/-- A layer that has room for the data sends it. -/
theorem sendData_of_hasRoom {layer : Layer} {data : Bytes} (h : layer.HasRoom data) :
    ∃ packet, layer.sendData data = .ok packet := by
  cases layer with
  | ether2 x => exact ⟨_, rfl⟩
  | ip4 x => exact ⟨_, rfl⟩
  | udp x => exact ⟨_, rfl⟩
  | emp x =>
    have hfit : (writeEmpHeader x.header ++ data).length ≤ EmpProtocol.buffSize := by
      rw [List.length_append]
      exact h
    exact ⟨_, if_pos hfit⟩

/-- Of two mirrored layers each filters on what the other writes. -/
theorem Mirrored.acceptsFrom {a b : Layer} (h : a.Mirrored b) : b.AcceptsFrom a := by
  cases a <;> cases b <;> first | exact h.elim | skip
  · rename_i x y
    obtain ⟨hdest, hdest', hprot⟩ := h
    refine ⟨?_, ?_, ?_⟩
    · simp [Ethernet2Protocol.NetAccessSingle.header, hdest]
    · simp [Ethernet2Protocol.NetAccessSingle.header, hdest']
    · intro t ht
      simp [Ethernet2Protocol.NetAccessSingle.header, hprot, Option.mem_def.mp ht]
  · rename_i x y
    obtain ⟨hdest, hdest', hprot⟩ := h
    refine ⟨?_, ?_, ?_⟩
    · simp [Ip4Protocol.NetAccessSingle.header, hdest]
    · simp [Ip4Protocol.NetAccessSingle.header, hdest']
    · intro t ht
      simp [Ip4Protocol.NetAccessSingle.header, hprot, Option.mem_def.mp ht]
  · rename_i x y
    obtain ⟨hsrc, hsrc'⟩ := h
    exact ⟨by simp [UdpProtocol.NetAccessSingle.header, hsrc'], by simp [UdpProtocol.NetAccessSingle.header, hsrc]⟩
  · rename_i x y
    obtain ⟨hsrc, hsrc'⟩ := h
    exact ⟨by simp [EmpProtocol.NetAccessSingle.header, hsrc'], by simp [EmpProtocol.NetAccessSingle.header, hsrc]⟩

end Layer

/-! ## Stacks -/

/-- A stack that has room for the data sends it. -/
theorem stackSend_of_hasRoom {layers : List Layer} {data : Bytes} (h : StackHasRoom layers data) :
    ∃ frame, stackSend layers data = .ok frame := by
  induction layers generalizing data with
  | nil => exact ⟨data, rfl⟩
  | cons layer below ih =>
    obtain ⟨packet, hpacket⟩ := Layer.sendData_of_hasRoom h.1
    obtain ⟨frame, hframe⟩ := ih (h.2 packet hpacket)
    exact ⟨frame, by rw [stackSend, hpacket, ok_bind, hframe]⟩

/-- What one stack sent, the other host's stack of the same protocols delivers if each of its layers filters on what the other
host's layer wrote, and drops otherwise. -/
theorem stackRecv_of_stackSend {as bs : List Layer} (hsame : List.Forall₂ Layer.SameProtocol as bs) {data frame : Bytes}
    (hsend : stackSend as data = .ok frame) :
    stackRecv bs frame = .ok (if ∀ ab ∈ as.zip bs, ab.2.AcceptsFrom ab.1 then [data] else []) := by
  induction hsame generalizing data with
  | nil =>
    obtain rfl : data = frame := Except.ok.inj hsend
    simp [stackRecv]
  | @cons a b as bs hab _ ih =>
    obtain ⟨packet, hpacket, hbelow⟩ := (bind_eq_ok_iff _ _ _).mp hsend
    have hrecv := Layer.recv_of_sendData hab hpacket
    have hboth : (∀ ab ∈ (a :: as).zip (b :: bs), ab.2.AcceptsFrom ab.1) ↔
        b.AcceptsFrom a ∧ ∀ ab ∈ as.zip bs, ab.2.AcceptsFrom ab.1 := by
      rw [List.zip_cons_cons, List.forall_mem_cons]
    rw [stackRecv, ih hbelow, ok_bind]
    simp only [hboth]
    by_cases hall : ∀ ab ∈ as.zip bs, ab.2.AcceptsFrom ab.1
    · rw [if_pos hall, List.mapM_cons, List.mapM_nil, hrecv]
      by_cases htop : b.AcceptsFrom a
      · rw [if_pos htop, if_pos ⟨htop, hall⟩]
        rfl
      · rw [if_neg htop, if_neg fun h => htop h.1]
        rfl
    · rw [if_neg hall, if_neg fun h => hall h.2]
      rfl

end NetworkingFramework
