import NetworkingFramework.Lemmas.DnsCodec
import NetworkingFramework.Lemmas.DnsCompression

/-!
# DNS messages on the wire

The two directions of the codec: which messages come back as they were written, and which packets the receiver decodes at all.
-/

namespace NetworkingFramework

open Wire Wire.Decoder

/-! ## Writing and extracting -/

/-- The message is written, and extracting what was written, whatever follows it, returns the message and the number of bytes
written. -/
def DnsMessage.RoundTrips (msg : DnsMessage) : Prop :=
  ∃ w, writeDnsMessage msg = .ok w ∧ ∀ post, extractDnsMessage.Returns (w ++ post) 0 msg w.length

/-- A message round trips when it can be written, an `int` counts its bytes, and it comes back as it is. -/
theorem DnsMessage.roundTrips_iff_received {msg : DnsMessage} (h : msg.Encodable Plain) :
    msg.RoundTrips ↔ msg.header.opcode.toNat < 4 ∧ msg.header.ra = false ∧ msg.received = msg ∧ msg.size < 2 ^ 31 := by
  constructor
  · rintro ⟨w, hw, hreturns⟩
    obtain ⟨header, hheader, -⟩ := (writeDnsMessage_ok_iff ..).mp hw
    obtain ⟨hop, hra⟩ := of_writeDnsHeader_ok hheader
    have hback := extractDnsMessage_written hw h.queryNames h.recordNames []
    obtain ⟨hrec, hcount⟩ := hback.unique (hreturns [])
    exact ⟨hop, hra, hrec, length_of_writeDnsMessage hw ▸ (narrow_eq_iff w.length).mp hcount⟩
  · rintro ⟨hop, hra, hrec, hsize⟩
    obtain ⟨header, hheader, -⟩ := writeDnsHeader_ok hop hra
    have hw := (writeDnsMessage_ok_iff msg _).mpr ⟨header, hheader, h.writable hsize, rfl⟩
    refine ⟨_, hw, fun post => ?_⟩
    have hback := extractDnsMessage_written hw h.queryNames h.recordNames post
    rwa [hrec, narrow_of_lt (length_of_writeDnsMessage hw ▸ hsize)] at hback

/-- A message whose counts are right, whose names are made of labels over letters, digits, `-` and `_`, and whose records carry
the data they count, round trips exactly when its opcode is zero, `ra` is not set, every TTL fits in 16 bits, and an `int` counts
its bytes. -/
theorem dnsMessage_roundTrips_iff {msg : DnsMessage} (h : msg.Encodable HostByte)
    (hdata : ∀ a ∈ msg.records, a.dataLen.toNat = a.rdata.length) :
    msg.RoundTrips ↔ msg.header.opcode = 0 ∧ msg.header.ra = false ∧ (∀ a ∈ msg.records, a.ttl.toNat < 65536) ∧
      msg.size < 2 ^ 31 := by
  rw [DnsMessage.roundTrips_iff_received (h.mono fun b hb => hb.ascii.plain), DnsMessage.received_eq_iff hdata]
  constructor
  · rintro ⟨-, hra, ⟨hop, -, httl⟩, hsize⟩
    exact ⟨hop, hra, httl, hsize⟩
  · rintro ⟨hop, hra, httl, hsize⟩
    exact ⟨by rw [hop]; decide, hra, ⟨hop, hra, httl⟩, hsize⟩

/-- An answer for `a`, with a TTL. -/
def answerFor (ttl : UInt32) : DnsMessage where
  header := {
    id := 7, rd := true, tc := false, aa := true, opcode := 0, qr := true, rcode := 0, cd := false, ad := true, ra := false
    queryCount := 1, ansCount := 1, authCount := 0, addCount := 0 }
  queries := [⟨[97, 0], dnsRecordTypeA, dnsRecordClassIn⟩]
  ans := [⟨[97, 0], dnsRecordTypeA, dnsRecordClassIn, ttl, 4, [10, 0, 0, 1]⟩]
  ansAuth := []
  ansAddit := []

theorem nameOver_a : NameOver HostByte [97, 0] :=
  ⟨[[97]], by simp, fun l hl => by
    obtain rfl : l = [97] := List.mem_singleton.mp hl
    exact ⟨by decide, by decide, fun b hb => by rw [List.mem_singleton.mp hb]; exact .inl ⟨by decide, by decide⟩⟩, rfl⟩

theorem answerFor_encodable (ttl : UInt32) : (answerFor ttl).Encodable HostByte where
  queryCount := rfl
  ansCount := rfl
  authCount := rfl
  addCount := rfl
  queryNames q hq := by
    rw [List.mem_singleton.mp hq]
    exact nameOver_a
  recordNames a ha := by
    rw [List.mem_singleton.mp ha]
    exact nameOver_a
  recordData a ha := by
    rw [List.mem_singleton.mp ha]
    exact Nat.le_refl 4

theorem answerFor_dataLen (ttl : UInt32) : ∀ a ∈ (answerFor ttl).records, a.dataLen.toNat = a.rdata.length := by
  intro a ha
  rw [List.mem_singleton.mp ha]
  rfl

/-- An answer with a TTL of an hour round trips. -/
theorem dnsMessage_roundTrips_hour : (answerFor 3600).RoundTrips := by
  refine (dnsMessage_roundTrips_iff (answerFor_encodable 3600) (answerFor_dataLen 3600)).mpr ⟨rfl, rfl, fun a ha => ?_, ?_⟩
  · rw [List.mem_singleton.mp ha]
    decide
  · decide

/-- An answer with a TTL of a day is decodable, but does not round trip: 86400 comes back as 20864. -/
theorem dnsMessage_roundTrips_counterexample :
    (answerFor 86400).Encodable HostByte ∧ (∀ a ∈ (answerFor 86400).records, a.dataLen.toNat = a.rdata.length) ∧
      ¬(answerFor 86400).RoundTrips := by
  refine ⟨answerFor_encodable 86400, answerFor_dataLen 86400, fun hrt => ?_⟩
  have hplain := (answerFor_encodable 86400).mono fun b hb => hb.ascii.plain
  obtain ⟨-, -, hrec, -⟩ := (DnsMessage.roundTrips_iff_received hplain).mp hrt
  have hne : (answerFor 86400).received ≠ answerFor 86400 := by decide
  exact hne hrec

/-! ## Names -/

/-- The name is encoded, and comes back of its encoded form with the number of bytes that this has, wherever it lies and whatever
follows. -/
def NameReturns (name pre post : Bytes) : Prop :=
  ∃ encoded, encodeDnsName name = .ok encoded ∧
    extractDnsName.Returns (pre ++ encoded ++ post) pre.length name encoded.length

/-- A name of whole labels comes back of its encoded form exactly when it has a label and no byte that looks like a jump, and an
`int` counts the bytes of its encoded form. -/
theorem dnsName_returns_iff (labels : List Bytes) (pre post : Bytes)
    (h : ∀ l ∈ labels, 1 ≤ l.length ∧ l.length ≤ 63 ∧ ∀ b ∈ l, b ≠ 0 ∧ b ≠ dot) :
    NameReturns (joinLabels labels ++ [0]) pre post ↔
      labels ≠ [] ∧ (∀ l ∈ labels, ∀ b ∈ l, b &&& jumpMask ≠ jumpMask) ∧ (joinLabels labels ++ [0]).length + 1 < 2 ^ 31 := by
  constructor
  · rintro ⟨encoded, hencode, hreturns⟩
    obtain ⟨hlen, rfl⟩ := (encodeDnsName_ok_iff ..).mp hencode
    refine ⟨?_, fun l hl b hb => ?_, ?_⟩
    · intro hroot
      subst hroot
      -- two bytes are written for the root, and one is counted
      have hcount := (hreturns.unique (extractDnsName_root pre post)).2
      exact absurd hcount (by decide)
    · refine not_jump_of_extractDnsName hreturns b (List.mem_append_left _ ?_)
      exact mem_joinLabels_of_mem hl hb
    · obtain ⟨_, n, _, -, hn, -, hlt, -⟩ := (extractDnsName_returns_iff_decoded ..).mp hreturns
      rw [length_nameBytes] at hn
      omega
  · rintro ⟨hne, hjump, hlt⟩
    have hname : NameOver Plain (joinLabels labels ++ [0]) := by
      refine ⟨labels, hne, fun l hl => ⟨(h l hl).1, (h l hl).2.1, fun b hb => ?_⟩, rfl⟩
      exact ⟨((h l hl).2.2 b hb).1, ((h l hl).2.2 b hb).2, hjump l hl b hb⟩
    exact ⟨_, encodeDnsName_of_lt (by omega), roundTrips_dnsName hname hlt pre post⟩

/-- The name `ab.c`. -/
theorem dnsName_returns_iff_labels : NameReturns (joinLabels [[97, 98], [99]] ++ [0]) [] [] := by
  have hbytes : ∀ l ∈ [[97, 98], [99]], ∀ b ∈ l, HostByte b := by simp [HostByte]
  have hjump : ∀ l ∈ [[97, 98], [99]], ∀ b ∈ l, b &&& jumpMask ≠ jumpMask :=
    fun l hl b hb => (hbytes l hl b hb).ascii.plain.2.2
  exact (dnsName_returns_iff [[97, 98], [99]] [] [] (by simp [dot])).mpr ⟨List.cons_ne_nil _ _, hjump, by decide⟩

/-- Neither `é` in UTF-8 nor the root comes back of its encoded form. -/
theorem dnsName_returns_counterexample :
    ¬NameReturns (joinLabels [[0xC3, 0xA9]] ++ [0]) [] [] ∧ ¬NameReturns (joinLabels [] ++ [0]) [] [] := by
  constructor
  · rintro ⟨_, -, h⟩
    exact not_jump_of_extractDnsName h 0xC3 (by decide) (by decide)
  · rintro ⟨encoded, hencode, h⟩
    obtain ⟨-, rfl⟩ := (encodeDnsName_ok_iff ..).mp hencode
    exact absurd (h.unique (extractDnsName_root [] [])).2 (by decide)

/-! ## Extracting anything -/

/-- The receiver decodes a packet, without reading outside of it and in finitely many steps, exactly when the packet has a
layout: 12 bytes of header, and as many queries and records in a row as it counts, each of them inside the packet, their names
ended by a null byte after finitely many jumps, made of labels as long as they say, and counted by an `int`. -/
theorem DnsProtocol.receives_iff_layout (data : Bytes) : (∃ msg, DnsProtocol.Receives data msg) ↔ DnsLayout data :=
  extractDnsMessage_returns_iff data

/-- A jump to itself names nothing. -/
theorem NameAt.not_self_jump {p enc : Bytes} {o n : Nat} {b c : UInt8} (hb : p[o]? = some b) (hjump : b &&& jumpMask = jumpMask)
    (hc : p[o + 1]? = some c) (hself : jumpOffset b c = o) : ¬NameAt p o enc n := by
  intro h
  induction h with
  | stop hb' =>
    obtain rfl : b = 0 := Option.some.inj (hb.symm.trans hb')
    exact ne_zero_of_jump hjump rfl
  | jump hb' _ hc' _ ih =>
    obtain rfl : b = _ := Option.some.inj (hb.symm.trans hb')
    obtain rfl : c = _ := Option.some.inj (hc.symm.trans hc')
    exact ih (by rwa [hself]) (by rwa [hself]) (by rw [hself])
  | byte hb' _ hjump' _ _ =>
    obtain rfl : b = _ := Option.some.inj (hb.symm.trans hb')
    exact hjump' hjump

/-- A packet with one query, whose name is a jump to itself. -/
def selfJump : Bytes := [0, 7, 1, 0, 0, 1, 0, 0, 0, 0, 0, 0, 0xC0, 12, 0, 1, 0, 1]

/-- The receiver does not return on a name that jumps to itself, nor on an empty packet. -/
theorem DnsProtocol.receives_counterexample :
    (¬∃ msg, DnsProtocol.Receives selfJump msg) ∧ ¬∃ msg, DnsProtocol.Receives [] msg := by
  refine ⟨fun h => ?_, fun h => ?_⟩
  · obtain ⟨-, _, _, _, _, hqueries, -⟩ := (extractDnsMessage_returns_iff selfJump).mp h
    have hcount : (netU16At selfJump 4).toNat = 1 := by decide
    rw [hcount] at hqueries
    cases hqueries with
    | succ hquery _ =>
      obtain ⟨_, ⟨i, n, enc, m, hi, -, hname, -⟩, -⟩ := hquery
      obtain rfl : 12 = i := Int.ofNat_inj.mp hi
      exact NameAt.not_self_jump (b := 0xC0) (c := 12) rfl rfl rfl rfl hname
  · obtain ⟨hlen, -⟩ := (extractDnsMessage_returns_iff []).mp h
    exact absurd hlen (by decide)

/-! ## Compressed names -/

/-- Extracting a compressed name and decoding it gives the labels met along its pointers, joined by dots and closed by a null
byte, and the number of bytes the name takes where it starts, exactly when an `int` counts these bytes, and those of the labels
behind their lengths; nothing else is ever returned. -/
theorem compressedName_decompresses_iff {p : Bytes} {o n : Nat} {labels : List Bytes} (h : CompressedName p o labels n) :
    ((∃ enc, extractEncodedName.Returns p o enc n ∧ decodeDnsName enc = .ok (joinLabels labels ++ [0])) ↔
        n < 2 ^ 31 ∧ (encodeLabels labels).length < 2 ^ 31) ∧
      ∀ enc m name, extractEncodedName.Returns p o enc m → decodeDnsName enc = .ok name →
        m = n ∧ name = joinLabels labels ++ [0] := by
  have hcollected {enc : Bytes} {m : Int} (hreturns : extractEncodedName.Returns p o enc m) :
      enc = encodeLabels labels ++ [0] ∧ m = n ∧ n < 2 ^ 31 := by
    obtain ⟨i, k, hi, rfl, hname, hlt⟩ := (extractEncodedName_returns_iff ..).mp hreturns
    obtain rfl : o = i := Int.ofNat_inj.mp hi
    obtain ⟨rfl, rfl⟩ := hname.unique h.nameAt
    exact ⟨rfl, rfl, hlt⟩
  refine ⟨⟨?_, ?_⟩, ?_⟩
  · rintro ⟨enc, hreturns, hdecode⟩
    obtain ⟨rfl, -, hlt⟩ := hcollected hreturns
    exact ⟨hlt, ((decodeDnsName_labels_iff h.length_labels _).mp hdecode).1⟩
  · rintro ⟨hlt, hlabels⟩
    refine ⟨_, (extractEncodedName_returns_iff ..).mpr ⟨o, n, rfl, rfl, h.nameAt, hlt⟩, ?_⟩
    exact (decodeDnsName_labels_iff h.length_labels _).mpr ⟨hlabels, rfl⟩
  · intro enc m name hreturns hdecode
    obtain ⟨rfl, hm, -⟩ := hcollected hreturns
    exact ⟨hm, ((decodeDnsName_labels_iff h.length_labels name).mp hdecode).2⟩

/-- The name `b.a`, its last label behind a pointer. -/
theorem compressedName_decompresses_iff_pointer :
    ∃ enc, extractEncodedName.Returns [1, 97, 0, 1, 98, 0xC0, 0] 3 enc 4 ∧ decodeDnsName enc = .ok [98, 46, 97, 0] := by
  have hroot : CompressedName [1, 97, 0, 1, 98, 0xC0, 0] 0 [[97]] 3 :=
    @CompressedName.label _ 0 _ 1 _ rfl (by decide) (by decide) (by decide) (by decide +kernel) (.root rfl)
  have hname : CompressedName [1, 97, 0, 1, 98, 0xC0, 0] 3 [[98], [97]] 4 :=
    @CompressedName.label _ 3 _ 1 _ rfl (by decide) (by decide) (by decide) (by decide +kernel)
      (.pointer (b := 0xC0) (c := 0) rfl (by decide) rfl hroot)
  exact (compressedName_decompresses_iff hname).1.mpr ⟨by decide, by decide⟩

/-- The label `a`, so many times. -/
def labelsOfA (k : Nat) : List Bytes := List.replicate k [97]

theorem length_encodeLabels_labelsOfA (k : Nat) : (encodeLabels (labelsOfA k)).length = k * 2 := by
  rw [encodeLabels, labelsOfA, List.length_flatMap, List.map_replicate, List.sum_replicate_nat]
  rfl

theorem compressedName_labelsOfA (k : Nat) :
    CompressedName (encodeLabels (labelsOfA k) ++ [0]) 0 (labelsOfA k) ((encodeLabels (labelsOfA k)).length + 1) := by
  refine compressedName_encodeLabels (fun l hl => ?_) []
  obtain rfl := List.eq_of_mem_replicate hl
  decide +kernel

/-- Nothing is returned of more such labels than `int count` can count. -/
theorem labelsOfA_not_extracted {k : Nat} (h : 2 ^ 31 ≤ k * 2 + 1) :
    ¬∃ enc n, extractEncodedName.Returns (encodeLabels (labelsOfA k) ++ [0]) 0 enc n := by
  rintro ⟨enc, n, hreturns⟩
  obtain ⟨i, m, hi, -, hname, hlt⟩ := (extractEncodedName_returns_iff ..).mp hreturns
  obtain rfl : 0 = i := Int.ofNat_inj.mp hi
  obtain ⟨-, rfl⟩ := hname.unique (compressedName_labelsOfA k).nameAt
  rw [length_encodeLabels_labelsOfA] at hlt
  omega

/-- The name of 2^30 labels is one of them. -/
theorem compressedName_decompresses_counterexample :
    CompressedName (encodeLabels (labelsOfA (2 ^ 30)) ++ [0]) 0 (labelsOfA (2 ^ 30))
        ((encodeLabels (labelsOfA (2 ^ 30))).length + 1) ∧
      ¬∃ enc n, extractEncodedName.Returns (encodeLabels (labelsOfA (2 ^ 30)) ++ [0]) 0 enc n :=
  ⟨compressedName_labelsOfA (2 ^ 30), labelsOfA_not_extracted (by decide)⟩

end NetworkingFramework
