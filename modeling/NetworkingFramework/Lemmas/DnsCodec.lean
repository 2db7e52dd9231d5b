import Mathlib.Algebra.GroupWithZero.Nat
import Mathlib.Algebra.Order.BigOperators.Group.List
import Mathlib.Algebra.Order.Group.Nat
import NetworkingFramework.Dns
import NetworkingFramework.Lemmas.DnsNames

/-!
# What comes back of a DNS message

A message that can be written comes back as `DnsMessage.received`: the opcode as zero, the authoritative bit only when the
opcode was zero, and every TTL reduced to its low 16 bits (`extractDnsMessage_written`). It can be written when the opcode is below
4, `ra` is not set, the header counts the sections, and every query and record has its data and as many bytes as an `int` counts
(`writeDnsMessage_ok_iff`).
-/

namespace NetworkingFramework

open Wire Wire.Decoder

/-! ## The header -/

/-- The header as it comes back. -/
def DnsHeader.received (h : DnsHeader) : DnsHeader := { h with opcode := 0, aa := h.aa && h.opcode.toNat == 0, ra := false }

/-- The first byte of the flags, the opcode being below 4: its bits come back, but the opcode as zero. -/
theorem flags_of_firstByte (rd tc aa qr : Bool) (opcode : Nat) (hop : opcode < 4) :
    let b := (UInt8.ofNat (rd.toNat ||| tc.toNat <<< 1 ||| aa.toNat <<< 2 <<< (opcode <<< 3) ||| qr.toNat <<< 7)).toNat
    b.testBit 7 = qr ∧ BitVec.ofNat 4 ((b &&& 0b1111 <<< 3) >>> 3) = 0 ∧ b.testBit 2 = (aa && opcode == 0) ∧
      b.testBit 1 = tc ∧ b.testBit 0 = rd := by
  have hall : ∀ (rd tc aa qr : Bool) (opcode : Fin 4),
      let b := (UInt8.ofNat (rd.toNat ||| tc.toNat <<< 1 ||| aa.toNat <<< 2 <<< (opcode.val <<< 3) |||
        qr.toNat <<< 7)).toNat
      b.testBit 7 = qr ∧ BitVec.ofNat 4 ((b &&& 0b1111 <<< 3) >>> 3) = 0 ∧ b.testBit 2 = (aa && opcode.val == 0) ∧
        b.testBit 1 = tc ∧ b.testBit 0 = rd := by decide
  exact hall rd tc aa qr ⟨opcode, hop⟩

/-- The second byte of the flags, without `ra`: its bits come back. -/
theorem flags_of_secondByte (rcode : BitVec 4) (cd ad : Bool) :
    let c := (UInt8.ofNat (rcode.toNat ||| cd.toNat <<< 4 ||| ad.toNat <<< 5)).toNat
    c.testBit 7 = false ∧ c.testBit 5 = ad ∧ c.testBit 4 = cd ∧ BitVec.ofNat 4 (c &&& 0b1111) = rcode := by
  have hall : ∀ (rcode : Fin 16) (cd ad : Bool),
      let c := (UInt8.ofNat (rcode.val ||| cd.toNat <<< 4 ||| ad.toNat <<< 5)).toNat
      c.testBit 7 = false ∧ c.testBit 5 = ad ∧ c.testBit 4 = cd ∧ BitVec.ofNat 4 (c &&& 0b1111) = BitVec.ofNat 4 rcode.val := by
    decide
  have h := hall ⟨rcode.toNat, rcode.isLt⟩ cd ad
  rwa [BitVec.ofNat_toNat, BitVec.setWidth_eq] at h

/-- The header can only be written when no shift is too wide. -/
theorem of_writeDnsHeader_ok {h : DnsHeader} {w : Bytes} (hw : writeDnsHeader h = .ok w) : h.opcode.toNat < 4 ∧ h.ra = false := by
  obtain ⟨aa, haa, hw⟩ := (bind_eq_ok_iff _ _ _).mp hw
  obtain ⟨ad, had, -⟩ := (bind_eq_ok_iff _ _ _).mp hw
  refine ⟨?_, ?_⟩
  · by_contra hop
    have hwide : ¬h.opcode.toNat <<< 3 < 32 := by rw [Nat.shiftLeft_eq]; omega
    rw [shiftLeft, if_neg hwide] at haa
    nomatch haa
  · cases hra : h.ra with
    | false => rfl
    | true => rw [shiftLeft, hra] at had; nomatch had

/-- Then it is, and comes back as `received`. -/
theorem writeDnsHeader_ok {h : DnsHeader} (hop : h.opcode.toNat < 4) (hra : h.ra = false) :
    ∃ w, writeDnsHeader h = .ok w ∧ w.length = 12 ∧ RoundTrips extractDnsHeader w h.received := by
  have haa : shiftLeft (h.aa.toNat <<< 2) (h.opcode.toNat <<< 3) = .ok (h.aa.toNat <<< 2 <<< (h.opcode.toNat <<< 3)) :=
    if_pos (by rw [Nat.shiftLeft_eq]; omega)
  have had : shiftLeft (h.ad.toNat <<< 5) (h.ra.toNat <<< 7) = .ok (h.ad.toNat <<< 5) := by rw [hra]; rfl
  obtain ⟨hqr, hopcode, haa', htc, hrd⟩ := flags_of_firstByte h.rd h.tc h.aa h.qr h.opcode.toNat hop
  obtain ⟨hra', had', hcd, hrcode⟩ := flags_of_secondByte h.rcode h.cd h.ad
  have hw : writeDnsHeader h = .ok (storeU16 (htons h.id) ++
      [UInt8.ofNat (h.rd.toNat ||| h.tc.toNat <<< 1 ||| h.aa.toNat <<< 2 <<< (h.opcode.toNat <<< 3) ||| h.qr.toNat <<< 7)] ++
      [UInt8.ofNat (h.rcode.toNat ||| h.cd.toNat <<< 4 ||| h.ad.toNat <<< 5)] ++
      storeU16 (htons h.queryCount) ++ storeU16 (htons h.ansCount) ++ storeU16 (htons h.authCount) ++
      storeU16 (htons h.addCount)) := by
    simp only [writeDnsHeader, haa, had, ok_bind, pure_eq_ok]
  refine ⟨_, hw, rfl, ?_⟩
  simp only [List.append_assoc]
  refine (roundTrips_netU16 h.id).bind ?_
  refine (roundTrips_byte _).bind ?_
  refine (roundTrips_byte _).bind ?_
  refine (roundTrips_netU16 h.queryCount).bind ?_
  refine (roundTrips_netU16 h.ansCount).bind ?_
  refine (roundTrips_netU16 h.authCount).bind ?_
  rw [hqr, hopcode, haa', htc, hrd, hra', had', hcd, hrcode]
  exact (roundTrips_netU16 h.addCount).map _

/-! ## Queries and records -/

/-- A record as it comes back. -/
def DnsAnswer.received (a : DnsAnswer) : DnsAnswer :=
  { a with ttl := UInt32.ofNat (a.ttl.toNat % 65536), rdata := a.rdata.take a.dataLen.toNat }

/-- The number of bytes that a query is written to. -/
def DnsQuery.size (q : DnsQuery) : Nat := q.qName.length + 5

/-- The number of bytes that a record is written to. -/
def DnsAnswer.size (a : DnsAnswer) : Nat := a.name.length + 11 + a.dataLen.toNat

/-- The bytes written for a query. -/
def dnsQueryBytes (q : DnsQuery) : Bytes := nameBytes q.qName ++ storeU16 (htons q.qType) ++ storeU16 (htons q.qClass)

/-- The bytes written for a record whose data is there. -/
def dnsAnswerBytes (a : DnsAnswer) : Bytes :=
  nameBytes a.name ++ storeU16 (htons a.type) ++ storeU16 (htons a.class_) ++
    storeU32 (UInt32.ofNat (htons (UInt16.ofNat a.ttl.toNat)).toNat) ++ storeU16 (htons a.dataLen) ++
    a.rdata.take a.dataLen.toNat

theorem length_dnsQueryBytes (q : DnsQuery) : (dnsQueryBytes q).length = q.size := by
  rw [dnsQueryBytes, List.length_append, List.length_append, length_nameBytes]
  rfl

theorem length_dnsAnswerBytes {a : DnsAnswer} (h : a.dataLen.toNat ≤ a.rdata.length) : (dnsAnswerBytes a).length = a.size := by
  simp only [dnsAnswerBytes, List.length_append, length_nameBytes, List.length_take_of_le h]
  rfl

theorem countWritten_ok_iff (w w' : Bytes) : countWritten w = .ok w' ↔ w.length < 2 ^ 31 ∧ w' = w := by
  unfold countWritten
  split
  · rename_i h
    rw [Except.ok.injEq]
    exact ⟨fun heq => ⟨h, heq.symm⟩, fun heq => heq.2.symm⟩
  · rename_i h
    exact ⟨fun heq => (nomatch heq), fun heq => absurd heq.1 h⟩

/-- A query is written when an `int` counts its bytes. -/
theorem writeDnsQuery_ok_iff (q : DnsQuery) (w : Bytes) : writeDnsQuery q = .ok w ↔ q.size < 2 ^ 31 ∧ w = dnsQueryBytes q := by
  simp only [writeDnsQuery, bind_eq_ok_iff, encodeDnsName_ok_iff, countWritten_ok_iff]
  have hsize : q.qName.length + 5 = q.size := rfl
  constructor
  · rintro ⟨_, ⟨-, rfl⟩, hlt, rfl⟩
    exact ⟨length_dnsQueryBytes q ▸ hlt, rfl⟩
  · rintro ⟨hlt, rfl⟩
    exact ⟨_, ⟨by omega, rfl⟩, (length_dnsQueryBytes q).symm ▸ hlt, rfl⟩

/-- A record is written when its data is there, and an `int` counts its bytes. -/
theorem writeDnsAnswer_ok_iff (a : DnsAnswer) (w : Bytes) :
    writeDnsAnswer a = .ok w ↔ (a.dataLen.toNat ≤ a.rdata.length ∧ a.size < 2 ^ 31) ∧ w = dnsAnswerBytes a := by
  rw [writeDnsAnswer, bind_eq_ok_iff]
  by_cases hdata : a.dataLen.toNat ≤ a.rdata.length
  · simp only [encodeDnsName_ok_iff, if_neg (Nat.not_lt.mpr hdata), countWritten_ok_iff]
    have hsize : a.name.length + 11 + a.dataLen.toNat = a.size := rfl
    have hlen := length_dnsAnswerBytes hdata
    constructor
    · rintro ⟨_, ⟨-, rfl⟩, hlt, rfl⟩
      exact ⟨⟨hdata, hlen ▸ hlt⟩, rfl⟩
    · rintro ⟨⟨-, hlt⟩, rfl⟩
      exact ⟨_, ⟨by omega, rfl⟩, hlen.symm ▸ hlt, rfl⟩
  · simp [if_pos (Nat.not_le.mp hdata), hdata]

/-- A count that an `int` holds. -/
theorem narrow_eq {n : Int} {m : Nat} (hn : n = m) (hm : m < 2 ^ 31) : narrow n = m := by
  rw [hn, narrow_of_lt hm]

theorem length_storeU16 (x : UInt16) : (storeU16 x).length = 2 := rfl

theorem length_storeU32 (x : UInt32) : (storeU32 x).length = 4 := rfl

theorem roundTrips_dnsQuery {q : DnsQuery} (h : NameOver Plain q.qName) (hlt : q.size < 2 ^ 31) :
    extractDnsQuery.RoundTrips (dnsQueryBytes q) q := by
  intro pre post
  have hsize : q.qName.length + 5 = q.size := rfl
  have hname := length_nameBytes q.qName
  have h₀ := roundTrips_dnsName h (by omega)
  have h₁ := Fueled.roundTrips_ofDecoder (roundTrips_netU16 q.qType)
  have h₂ := Fueled.roundTrips_ofDecoder (roundTrips_netU16 q.qClass)
  simp only [extractDnsQuery, narrow_narrow_add]
  refine h₀.peek_bind pre [] (storeU16 (htons q.qType) ++ storeU16 (htons q.qClass) ++ post) (by simp [dnsQueryBytes]) rfl rfl ?_
  refine h₁.peek_bind pre (nameBytes q.qName) (storeU16 (htons q.qClass) ++ post) (by simp [dnsQueryBytes]) rfl rfl ?_
  refine h₂.peek_bind pre (nameBytes q.qName ++ storeU16 (htons q.qType)) post (by simp [dnsQueryBytes]) rfl ?_ ?_
  · refine narrow_eq (by simp [length_storeU16]) ?_
    rw [List.length_append, length_storeU16]
    omega
  · refine (Fueled.returns_move_pure_iff ..).mpr ⟨rfl, (narrow_eq ?_ ?_).symm⟩
    · simp [dnsQueryBytes, length_storeU16, Int.add_assoc]
    · rwa [length_dnsQueryBytes]

/-- A word of 32 bits whose low half was swapped when it was stored. -/
theorem roundTrips_netLowHalfU32 (t : UInt32) :
    RoundTrips netLowHalfU32 (storeU32 (UInt32.ofNat (htons (UInt16.ofNat t.toNat)).toNat)) (UInt32.ofNat (t.toNat % 65536)) := by
  have hload := (roundTrips_loadU32 (UInt32.ofNat (htons (UInt16.ofNat t.toNat)).toNat)).map
    fun x => UInt32.ofNat (ntohs (UInt16.ofNat x.toNat)).toNat
  have hsmall : (htons (UInt16.ofNat t.toNat)).toNat < 65536 := UInt16.toNat_lt _
  have hback : UInt16.ofNat (UInt32.ofNat (htons (UInt16.ofNat t.toNat)).toNat).toNat = htons (UInt16.ofNat t.toNat) := by
    rw [UInt32.toNat_ofNat', Nat.mod_eq_of_lt (by omega), UInt16.ofNat_toNat]
  rwa [hback, ntohs_htons, UInt16.toNat_ofNat'] at hload

/-- Bytes pushed one by one. -/
theorem roundTrips_bytes (l : Bytes) : ((Fueled.ofDecoder byte).times l.length).RoundTrips l l := by
  have h : ((Fueled.ofDecoder byte).times l.length).RoundTrips (l.flatMap fun b => [b]) (l.map id) :=
    Fueled.RoundTrips.times fun b _ => Fueled.roundTrips_ofDecoder (roundTrips_byte b)
  rwa [List.flatMap_singleton', List.map_id] at h

theorem roundTrips_dnsAnswer {a : DnsAnswer} (h : NameOver Plain a.name) (hdata : a.dataLen.toNat ≤ a.rdata.length)
    (hlt : a.size < 2 ^ 31) : extractDnsAnswer.RoundTrips (dnsAnswerBytes a) a.received := by
  intro pre post
  have hsize : a.name.length + 11 + a.dataLen.toNat = a.size := rfl
  have hname := length_nameBytes a.name
  have htake : (a.rdata.take a.dataLen.toNat).length = a.dataLen.toNat := List.length_take_of_le hdata
  have hbytes := length_dnsAnswerBytes hdata
  have h₀ := roundTrips_dnsName h (by omega)
  have h₁ := Fueled.roundTrips_ofDecoder (roundTrips_netU16 a.type)
  have h₂ := Fueled.roundTrips_ofDecoder (roundTrips_netU16 a.class_)
  have h₃ := Fueled.roundTrips_ofDecoder (roundTrips_netLowHalfU32 a.ttl)
  have h₄ := Fueled.roundTrips_ofDecoder (roundTrips_netU16 a.dataLen)
  have h₅ := roundTrips_bytes (a.rdata.take a.dataLen.toNat)
  rw [htake] at h₅
  simp only [extractDnsAnswer, narrow_narrow_add, Int.add_assoc]
  unfold dnsAnswerBytes at hbytes ⊢
  -- each part lies behind the parts before it, and the counter, which does not wrap, is at their end
  refine h₀.peek_bind pre [] _ (by simp only [List.append_assoc, List.append_nil]; rfl) rfl rfl ?_
  refine h₁.peek_bind pre (nameBytes a.name) _ (by simp only [List.append_assoc]; rfl) rfl rfl ?_
  refine h₂.peek_bind pre (nameBytes a.name ++ storeU16 (htons a.type)) _ (by simp only [List.append_assoc]; rfl) rfl
    (narrow_eq ?_ ?_) ?_
  · simp [length_storeU16]
  · simp only [List.length_append, length_storeU16]
    omega
  refine h₃.peek_bind pre (nameBytes a.name ++ storeU16 (htons a.type) ++ storeU16 (htons a.class_)) _
    (by simp only [List.append_assoc]; rfl) rfl (narrow_eq ?_ ?_) ?_
  · simp [length_storeU16]
  · simp only [List.length_append, length_storeU16]
    omega
  refine h₄.peek_bind pre (nameBytes a.name ++ storeU16 (htons a.type) ++ storeU16 (htons a.class_) ++
    storeU32 (UInt32.ofNat (htons (UInt16.ofNat a.ttl.toNat)).toNat)) _ (by simp only [List.append_assoc]; rfl) rfl
    (narrow_eq ?_ ?_) ?_
  · simp [length_storeU16, length_storeU32]
  · simp only [List.length_append, length_storeU16, length_storeU32]
    omega
  refine h₅.peek_bind pre (nameBytes a.name ++ storeU16 (htons a.type) ++ storeU16 (htons a.class_) ++
    storeU32 (UInt32.ofNat (htons (UInt16.ofNat a.ttl.toNat)).toNat) ++ storeU16 (htons a.dataLen)) post
    (by simp only [List.append_assoc]) rfl (narrow_eq ?_ ?_) ?_
  · simp [length_storeU16, length_storeU32]
  · simp only [List.length_append, length_storeU16, length_storeU32]
    omega
  have hcnt : narrow ((nameBytes a.name).length + (2 + (2 + (4 + 2)))) = ((nameBytes a.name).length + 10 : Nat) :=
    narrow_eq rfl (by omega)
  refine (Fueled.returns_lift_bind_iff ..).mpr ⟨a.size, (addInts_ok_iff ..).mpr ?_, ?_⟩
  · simp only [hcnt]
    omega
  · exact (Fueled.returns_move_pure_iff ..).mpr ⟨rfl, congrArg Nat.cast hbytes⟩

/-! ## Messages -/

/-- All records of a message. -/
def DnsMessage.records (msg : DnsMessage) : List DnsAnswer := msg.ans ++ msg.ansAuth ++ msg.ansAddit

/-- The counts of the header are the sizes of the sections, the names are made of labels over a set of bytes, and every record
has the data it counts. -/
structure DnsMessage.Encodable (ok : UInt8 → Prop) (msg : DnsMessage) : Prop where
  queryCount : msg.header.queryCount.toNat = msg.queries.length
  ansCount : msg.header.ansCount.toNat = msg.ans.length
  authCount : msg.header.authCount.toNat = msg.ansAuth.length
  addCount : msg.header.addCount.toNat = msg.ansAddit.length
  queryNames : ∀ q ∈ msg.queries, NameOver ok q.qName
  recordNames : ∀ a ∈ msg.records, NameOver ok a.name
  recordData : ∀ a ∈ msg.records, a.dataLen.toNat ≤ a.rdata.length

/-- A message as it comes back. -/
def DnsMessage.received (msg : DnsMessage) : DnsMessage where
  header := msg.header.received
  queries := msg.queries
  ans := msg.ans.map DnsAnswer.received
  ansAuth := msg.ansAuth.map DnsAnswer.received
  ansAddit := msg.ansAddit.map DnsAnswer.received

/-- A header comes back as it is when its opcode is zero and `ra` is not set. -/
theorem DnsHeader.received_eq_iff (h : DnsHeader) : h.received = h ↔ h.opcode = 0 ∧ h.ra = false := by
  unfold DnsHeader.received
  refine ⟨fun heq => ?_, fun ⟨hop, hra⟩ => ?_⟩
  · exact ⟨(congrArg DnsHeader.opcode heq).symm, (congrArg DnsHeader.ra heq).symm⟩
  · have haa : (h.aa && h.opcode.toNat == 0) = h.aa := by rw [hop]; exact Bool.and_true h.aa
    rw [haa, ← hop, ← hra]

/-- A record comes back as it is when its TTL fits in 16 bits. -/
theorem DnsAnswer.received_eq_iff {a : DnsAnswer} (hdata : a.dataLen.toNat = a.rdata.length) :
    a.received = a ↔ a.ttl.toNat < 65536 := by
  have htake : a.rdata.take a.dataLen.toNat = a.rdata := by rw [hdata, List.take_length]
  unfold DnsAnswer.received
  rw [htake]
  refine ⟨fun heq => ?_, fun hlt => ?_⟩
  · have httl := congrArg (UInt32.toNat ∘ DnsAnswer.ttl) heq
    simp only [Function.comp_apply, UInt32.toNat_ofNat'] at httl
    omega
  · rw [Nat.mod_eq_of_lt hlt, UInt32.ofNat_toNat]

/-- What comes back of a message is the message when every part of it comes back. -/
theorem DnsMessage.received_eq_iff {msg : DnsMessage} (hdata : ∀ a ∈ msg.records, a.dataLen.toNat = a.rdata.length) :
    msg.received = msg ↔ msg.header.opcode = 0 ∧ msg.header.ra = false ∧ ∀ a ∈ msg.records, a.ttl.toNat < 65536 := by
  have hsplit : msg.received = msg ↔ msg.header.received = msg.header ∧ msg.records.map DnsAnswer.received = msg.records := by
    obtain ⟨header, queries, ans, ansAuth, ansAddit⟩ := msg
    simp only [DnsMessage.received, DnsMessage.records, DnsMessage.mk.injEq, true_and, List.map_append]
    refine and_congr_right fun _ => ⟨fun ⟨h₁, h₂, h₃⟩ => by rw [h₁, h₂, h₃], fun h => ?_⟩
    obtain ⟨h, h₃⟩ := List.append_inj h (by simp)
    obtain ⟨h₁, h₂⟩ := List.append_inj h (by simp)
    exact ⟨h₁, h₂, h₃⟩
  have hrecords : msg.records.map DnsAnswer.received = msg.records ↔ ∀ a ∈ msg.records, a.ttl.toNat < 65536 := by
    have hmap := List.map_inj_left (l := msg.records) (f := DnsAnswer.received) (g := id)
    rw [List.map_id] at hmap
    exact hmap.trans (forall₂_congr fun a ha => DnsAnswer.received_eq_iff (hdata a ha))
  rw [hsplit, DnsHeader.received_eq_iff, hrecords, and_assoc]

theorem DnsMessage.mem_records (msg : DnsMessage) (a : DnsAnswer) :
    a ∈ msg.records ↔ a ∈ msg.ans ∨ a ∈ msg.ansAuth ∨ a ∈ msg.ansAddit := by
  rw [DnsMessage.records, List.mem_append, List.mem_append, or_assoc]

/-- The header counts the sections, and every query and every record can be written. -/
structure DnsMessage.Writable (msg : DnsMessage) : Prop where
  queryCount : msg.header.queryCount.toNat = msg.queries.length
  ansCount : msg.header.ansCount.toNat = msg.ans.length
  authCount : msg.header.authCount.toNat = msg.ansAuth.length
  addCount : msg.header.addCount.toNat = msg.ansAddit.length
  queries : ∀ q ∈ msg.queries, q.size < 2 ^ 31
  records : ∀ a ∈ msg.records, a.dataLen.toNat ≤ a.rdata.length ∧ a.size < 2 ^ 31

/-- The bytes behind the header of a message that can be written. -/
def dnsSectionBytes (msg : DnsMessage) : Bytes :=
  msg.queries.flatMap dnsQueryBytes ++ (msg.ans.flatMap dnsAnswerBytes ++ (msg.ansAuth.flatMap dnsAnswerBytes ++
    msg.ansAddit.flatMap dnsAnswerBytes))

theorem writeDnsAnswers_ok_iff (count : UInt16) (answers : List DnsAnswer) (w : Bytes) :
    writeDnsAnswers count answers = .ok w ↔ count.toNat = answers.length ∧
      (∀ a ∈ answers, a.dataLen.toNat ≤ a.rdata.length ∧ a.size < 2 ^ 31) ∧ w = answers.flatMap dnsAnswerBytes := by
  unfold writeDnsAnswers
  by_cases hcount : count.toNat = answers.length
  · rw [if_neg (not_not.mpr hcount), bind_eq_ok_iff]
    simp only [mapM_ok_iff writeDnsAnswer_ok_iff]
    constructor
    · rintro ⟨_, ⟨hall, rfl⟩, hok⟩
      exact ⟨hcount, hall, (Except.ok.inj hok).symm⟩
    · rintro ⟨-, hall, rfl⟩
      exact ⟨_, ⟨hall, rfl⟩, rfl⟩
  · rw [if_pos hcount]
    exact ⟨fun h => (nomatch h), fun h => absurd h.1 hcount⟩

/-- A message is written when its header is and it can be: the header, and its queries and records in a row. -/
theorem writeDnsMessage_ok_iff (msg : DnsMessage) (w : Bytes) :
    writeDnsMessage msg = .ok w ↔
      ∃ header, writeDnsHeader msg.header = .ok header ∧ msg.Writable ∧ w = header ++ dnsSectionBytes msg := by
  unfold writeDnsMessage
  rw [bind_eq_ok_iff]
  refine exists_congr fun header => and_congr_right fun _ => ?_
  by_cases hcount : msg.header.queryCount.toNat = msg.queries.length
  · rw [if_neg (not_not.mpr hcount)]
    simp only [bind_eq_ok_iff, mapM_ok_iff writeDnsQuery_ok_iff, writeDnsAnswers_ok_iff]
    constructor
    · rintro ⟨_, ⟨hqueries, rfl⟩, _, ⟨hans, hansData, rfl⟩, _, ⟨hauth, hauthData, rfl⟩, _, ⟨haddit, hadditData, rfl⟩, hok⟩
      refine ⟨⟨hcount, hans, hauth, haddit, hqueries, fun a ha => ?_⟩, ?_⟩
      · rcases (msg.mem_records a).mp ha with ha | ha | ha
        · exact hansData a ha
        · exact hauthData a ha
        · exact hadditData a ha
      · rw [← Except.ok.inj hok]
        simp [dnsSectionBytes, List.flatMap_def]
    · rintro ⟨hw, rfl⟩
      refine ⟨_, ⟨hw.queries, rfl⟩, _, ⟨hw.ansCount, fun a ha => hw.records a ((msg.mem_records a).mpr (.inl ha)), rfl⟩, _,
        ⟨hw.authCount, fun a ha => hw.records a ((msg.mem_records a).mpr (.inr (.inl ha))), rfl⟩, _,
        ⟨hw.addCount, fun a ha => hw.records a ((msg.mem_records a).mpr (.inr (.inr ha))), rfl⟩, ?_⟩
      simp [dnsSectionBytes, List.flatMap_def]
  · rw [if_pos hcount]
    exact ⟨fun h => (nomatch h), fun h => absurd h.1.queryCount hcount⟩

/-- The number of bytes that a message is written to. -/
def DnsMessage.size (msg : DnsMessage) : Nat :=
  12 + (msg.queries.map DnsQuery.size).sum + (msg.records.map DnsAnswer.size).sum

/-- A message that counts its sections and has its data can be written when an `int` counts its bytes. -/
theorem DnsMessage.writable_of_size {msg : DnsMessage} (hquery : msg.header.queryCount.toNat = msg.queries.length)
    (hans : msg.header.ansCount.toNat = msg.ans.length) (hauth : msg.header.authCount.toNat = msg.ansAuth.length)
    (haddit : msg.header.addCount.toNat = msg.ansAddit.length) (hdata : ∀ a ∈ msg.records, a.dataLen.toNat ≤ a.rdata.length)
    (hsize : msg.size < 2 ^ 31) : msg.Writable := by
  unfold DnsMessage.size at hsize
  refine ⟨hquery, hans, hauth, haddit, fun q hq => ?_, fun a ha => ⟨hdata a ha, ?_⟩⟩
  · have hle := List.le_sum_of_mem (List.mem_map_of_mem (f := DnsQuery.size) hq)
    omega
  · have hle := List.le_sum_of_mem (List.mem_map_of_mem (f := DnsAnswer.size) ha)
    omega

theorem DnsMessage.Encodable.writable {ok : UInt8 → Prop} {msg : DnsMessage} (h : msg.Encodable ok) (hsize : msg.size < 2 ^ 31) :
    msg.Writable :=
  DnsMessage.writable_of_size h.queryCount h.ansCount h.authCount h.addCount h.recordData hsize

theorem length_dnsSectionBytes {msg : DnsMessage} (hdata : ∀ a ∈ msg.records, a.dataLen.toNat ≤ a.rdata.length) :
    12 + (dnsSectionBytes msg).length = msg.size := by
  have hquery : (msg.queries.flatMap dnsQueryBytes).length = (msg.queries.map DnsQuery.size).sum := by
    rw [List.length_flatMap, List.map_congr_left fun q _ => length_dnsQueryBytes q]
  have hrecords : (msg.records.flatMap dnsAnswerBytes).length = (msg.records.map DnsAnswer.size).sum := by
    rw [List.length_flatMap, List.map_congr_left fun a ha => length_dnsAnswerBytes (hdata a ha)]
  have hsplit : (dnsSectionBytes msg).length = (msg.queries.flatMap dnsQueryBytes).length +
      (msg.records.flatMap dnsAnswerBytes).length := by
    simp [dnsSectionBytes, DnsMessage.records, List.flatMap_append]
  rw [hsplit, hquery, hrecords, DnsMessage.size, Nat.add_assoc]

theorem length_of_writeDnsMessage {msg : DnsMessage} {w : Bytes} (h : writeDnsMessage msg = .ok w) : w.length = msg.size := by
  obtain ⟨header, hheader, hwritable, rfl⟩ := (writeDnsMessage_ok_iff ..).mp h
  obtain ⟨hop, hra⟩ := of_writeDnsHeader_ok hheader
  obtain ⟨header', hheader', hlen, -⟩ := writeDnsHeader_ok hop hra
  obtain rfl : header = header' := Except.ok.inj (hheader.symm.trans hheader')
  rw [List.length_append, hlen, length_dnsSectionBytes fun a ha => (hwritable.records a ha).1]

/-- A message that is written for plain names comes back as `received`, whatever follows, with its length as an `int`. -/
theorem extractDnsMessage_written {msg : DnsMessage} {w : Bytes} (hw : writeDnsMessage msg = .ok w)
    (hqueries : ∀ q ∈ msg.queries, NameOver Plain q.qName) (hrecords : ∀ a ∈ msg.records, NameOver Plain a.name) (post : Bytes) :
    extractDnsMessage.Returns (w ++ post) 0 msg.received (narrow w.length) := by
  obtain ⟨header, hheader, hwritable, rfl⟩ := (writeDnsMessage_ok_iff ..).mp hw
  obtain ⟨hop, hra⟩ := of_writeDnsHeader_ok hheader
  obtain ⟨header', hheader', -, hrt⟩ := writeDnsHeader_ok hop hra
  obtain rfl : header = header' := Except.ok.inj (hheader.symm.trans hheader')
  have hq : (extractDnsQuery.times msg.header.queryCount.toNat).RoundTrips (msg.queries.flatMap dnsQueryBytes) msg.queries := by
    have hrow := Fueled.RoundTrips.times (g := id) fun q hq => roundTrips_dnsQuery (hqueries q hq) (hwritable.queries q hq)
    rwa [List.map_id, ← hwritable.queryCount] at hrow
  have hsection {count : UInt16} {answers : List DnsAnswer} (hcount : count.toNat = answers.length)
      (hsub : ∀ a ∈ answers, a ∈ msg.records) :
      (extractDnsAnswer.times count.toNat).RoundTrips (answers.flatMap dnsAnswerBytes) (answers.map DnsAnswer.received) := by
    rw [hcount]
    refine Fueled.RoundTrips.times fun a ha => ?_
    obtain ⟨hdata, hsize⟩ := hwritable.records a (hsub a ha)
    exact roundTrips_dnsAnswer (hrecords a (hsub a ha)) hdata hsize
  refine (Fueled.returns_narrowed_iff ..).mpr ⟨_, ?_, rfl⟩
  refine Fueled.RoundTrips.returns_append ?_ post
  refine (Fueled.roundTrips_ofDecoder hrt).bind ?_
  refine Fueled.RoundTrips.bind hq ?_
  refine Fueled.RoundTrips.bind (hsection hwritable.ansCount fun a ha => (msg.mem_records a).mpr (.inl ha)) ?_
  refine Fueled.RoundTrips.bind (hsection hwritable.authCount fun a ha => (msg.mem_records a).mpr (.inr (.inl ha))) ?_
  exact (hsection hwritable.addCount fun a ha => (msg.mem_records a).mpr (.inr (.inr ha))).map _

theorem DnsMessage.Encodable.mono {ok ok' : UInt8 → Prop} {msg : DnsMessage} (h : msg.Encodable ok)
    (hok : ∀ b, ok b → ok' b) : msg.Encodable ok' :=
  ⟨h.queryCount, h.ansCount, h.authCount, h.addCount, fun q hq => (h.queryNames q hq).mono hok,
    fun a ha => (h.recordNames a ha).mono hok, h.recordData⟩

end NetworkingFramework
