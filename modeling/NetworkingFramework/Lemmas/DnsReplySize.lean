import NetworkingFramework.Lemmas.DnsCodec
import NetworkingFramework.Lemmas.DnsTool

/-!
# How long a reply is

Each query of a message adds to the reply: itself, with its name written out, and a record, whose size depends on what the
database holds for the query. The reply is the header and what the queries add (`written_of_handleQuery`).
-/

namespace NetworkingFramework

open Wire Wire.Decoder

namespace DnsTool

/-- The bytes that the record of authority takes when it is made in a frame. -/
def authoritySize (frame : SoaFrame) : Nat := 33 + (12 + frame.wordsLength) % 65536

/-- The bytes that the record for a query takes: an address or a mail server that the database holds for it, or the record of
authority. -/
def recordSize (database : DnsDatabase) (frame : SoaFrame) (query : DnsQuery) : Nat :=
  if query.qType = dnsRecordTypeA then
    match cString query.qName >>= database.searchRecordA with
    | .ok (some _) => query.qName.length + 15
    | _ => authoritySize frame
  else if query.qType = dnsRecordTypeMx then
    match cString query.qName >>= database.searchRecordMx with
    | .ok (some res) => query.qName.length + 11 + (res.length + 3) % 65536
    | _ => authoritySize frame
  else authoritySize frame

/-- A sum over queries, the record for each of which would be made in a frame of its own. -/
def sumOver (size : SoaFrame → DnsQuery → Nat) : (Nat → SoaFrame) → List DnsQuery → Nat
  | _, [] => 0
  | frames, query :: queries => size (frames 0) query + sumOver size (fun i => frames (i + 1)) queries

/-- The bytes of a reply: 12, and for each query itself and its record. -/
def replySize (database : DnsDatabase) (frames : Nat → SoaFrame) (queries : List DnsQuery) : Nat :=
  12 + sumOver (fun frame query => query.qName.length + 5 + recordSize database frame query) frames queries

/-- So many records, of so many bytes in all, each with the data it counts. -/
structure Takes (count size : Nat) (answers authAns : List DnsAnswer) : Prop where
  count : answers.length + authAns.length = count
  data : ∀ a, a ∈ answers ∨ a ∈ authAns → a.dataLen.toNat ≤ a.rdata.length
  size : (answers.flatMap dnsAnswerBytes).length + (authAns.flatMap dnsAnswerBytes).length = size

theorem Takes.nil : Takes 0 0 [] [] := ⟨rfl, fun a ha => by simp at ha, rfl⟩

theorem Takes.append {n m size size' : Nat} {answers answers' authAns authAns' : List DnsAnswer}
    (h : Takes n size answers authAns) (h' : Takes m size' answers' authAns') :
    Takes (n + m) (size + size') (answers ++ answers') (authAns ++ authAns') := by
  refine ⟨?_, fun a ha => ?_, ?_⟩
  · rw [List.length_append, List.length_append, ← h.count, ← h'.count]
    omega
  · rw [List.mem_append, List.mem_append, or_or_or_comm] at ha
    rcases ha with ha | ha
    · exact h.data a ha
    · exact h'.data a ha
  · rw [List.flatMap_append, List.flatMap_append, List.length_append, List.length_append, ← h.size, ← h'.size]
    omega

/-- One record among the answers. -/
theorem takes_answer {a : DnsAnswer} (h : a.dataLen.toNat ≤ a.rdata.length) :
    Takes 1 a.size [a] [] := by
  refine ⟨rfl, fun b hb => ?_, ?_⟩
  · obtain rfl : b = a := by simpa using hb
    exact h
  · rw [List.flatMap_singleton, length_dnsAnswerBytes h]
    rfl

/-- The record of authority. -/
theorem takes_startOfAuthority {frame : SoaFrame} {a : DnsAnswer} (ha : getMyStartOfAuthority frame = .ok a) :
    Takes 1 (authoritySize frame) [] [a] := by
  obtain ⟨hname, -, hdata⟩ := IsStartOfAuthority.fields ⟨frame, ha⟩
  have hlen : a.dataLen.toNat = (12 + frame.wordsLength) % 65536 := by
    obtain ⟨rdata, hrdata, heq⟩ := (bind_eq_ok_iff _ _ _).mp ha
    obtain rfl := Except.ok.inj heq
    obtain ⟨words, hwords, rfl⟩ := convertSoaToRdata_eq hrdata
    have hnone : (nameBytes (chars "none" ++ [0])).length = 6 := by decide
    simp only [UInt16.toNat_ofNat', List.length_append, myStartOfAuthority, hnone, hwords]
  refine ⟨rfl, fun b hb => ?_, ?_⟩
  · obtain rfl : b = a := by simpa using hb
    exact hdata
  · have hnameLen : a.name.length = 22 := by
      rw [hname]
      decide
    rw [List.flatMap_nil, List.flatMap_singleton, length_dnsAnswerBytes hdata, DnsAnswer.size, hnameLen, hlen]
    exact Nat.zero_add _

/-- What the loop adds for a query takes the bytes of its record. -/
theorem answerQuery_takes {database : DnsDatabase} {frame : SoaFrame} {query : DnsQuery} {answers authAns : List DnsAnswer}
    (h : answerQuery database frame query = .ok (answers, authAns)) :
    Takes 1 (recordSize database frame query) answers authAns := by
  rcases answerQuery_cases h with ⟨addr, hA, hfound, rfl, rfl⟩ | ⟨v, hMx, hfound, -, rfl, rfl⟩ |
      ⟨hA, hMx, a, ha, rfl, rfl⟩
  · rw [recordSize, if_pos hA, hfound]
    exact takes_answer (Nat.le_of_eq (addressAnswer_dataLen query addr))
  · have hne : query.qType ≠ dnsRecordTypeA := by
      rw [hMx]
      decide
    have htakes := takes_answer (mxAnswer_dataLen_le query v)
    rw [DnsAnswer.size, mxAnswer_dataLen, length_mxRdataBytes] at htakes
    rw [recordSize, if_neg hne, if_pos hMx, hfound]
    exact htakes
  · have hsize : recordSize database frame query = authoritySize frame := by
      unfold recordSize
      split
      · rename_i htype
        rw [hA htype]
      · split
        · rename_i htype
          rw [hMx htype]
        · rfl
    rw [hsize]
    exact takes_startOfAuthority ha

/-! ## Messages -/

/-- The loop adds a record for each query. -/
theorem answerQueries_takes {database : DnsDatabase} {frames : Nat → SoaFrame} {queries : List DnsQuery}
    {answers authAns : List DnsAnswer} (h : answerQueries database frames queries queries.length 0 = .ok (answers, authAns)) :
    Takes queries.length (sumOver (recordSize database) frames queries) answers authAns := by
  induction queries generalizing frames answers authAns with
  | nil =>
    obtain ⟨rfl, rfl⟩ := Prod.mk.inj (Except.ok.inj h)
    exact .nil
  | cons query queries ih =>
    obtain ⟨first, answers₁, authAns₁, answers₂, authAns₂, hquery, h₁, h₂, rfl, rfl⟩ := answerQueries_succ h
    obtain rfl : query = first := Option.some.inj hquery
    rw [answerQueries_cons] at h₂
    rw [sumOver, List.length_cons, Nat.add_comm queries.length]
    exact (answerQuery_takes h₁).append (ih h₂)

/-- A message that was decoded counts its queries. -/
theorem queryCount_of_receives {data : Bytes} {msg : DnsMessage} (h : DnsProtocol.Receives data msg) :
    msg.header.queryCount.toNat = msg.queries.length := by
  obtain ⟨n, h⟩ := h
  obtain ⟨_, _, _, _, _, -, hqueries, -⟩ := (extractDnsMessage_returns_iff_parts ..).mp h
  exact (Fueled.length_of_returns_times hqueries).symm

/-- The queries, written out, and their records. -/
theorem replySize_eq (database : DnsDatabase) (frames : Nat → SoaFrame) (queries : List DnsQuery) :
    replySize database frames queries =
      12 + (queries.flatMap dnsQueryBytes).length + sumOver (recordSize database) frames queries := by
  rw [replySize, Nat.add_assoc]
  apply congrArg (12 + ·)
  induction queries generalizing frames with
  | nil => rfl
  | cons query queries ih =>
    rw [sumOver, sumOver, List.flatMap_cons, List.length_append, length_dnsQueryBytes, DnsQuery.size, ih]
    omega

/-- The reply to a message that counts its queries has the bytes that the queries add, and can be written when an `int` counts
them. -/
theorem size_of_handleQuery {database : DnsDatabase} {frames : Nat → SoaFrame} {cd ad : Bool} {msg reply : DnsMessage}
    (hcount : msg.header.queryCount.toNat = msg.queries.length) (h : handleQuery database frames cd ad msg = .ok reply) :
    reply.size = replySize database frames msg.queries ∧
      (reply.size < 2 ^ 31 → ∃ written, writeDnsMessage reply = .ok written) := by
  obtain ⟨⟨answers, authAns⟩, hloop, heq⟩ := (bind_eq_ok_iff _ _ _).mp h
  obtain rfl := Except.ok.inj heq
  rw [hcount] at hloop
  have htakes := answerQueries_takes hloop
  have hmax : msg.header.queryCount.toNat < 65536 := UInt16.toNat_lt _
  have hsum := htakes.count
  have hrecords : ∀ a ∈ (replyTo cd ad msg answers authAns).records, a.dataLen.toNat ≤ a.rdata.length := by
    intro a ha
    refine htakes.data a ?_
    simpa [DnsMessage.records, replyTo] using ha
  have hsize : (replyTo cd ad msg answers authAns).size = replySize database frames msg.queries := by
    have hbytes := htakes.size
    rw [← length_dnsSectionBytes hrecords, replySize_eq]
    simp only [dnsSectionBytes, replyTo, List.length_append, List.flatMap_nil, List.length_nil]
    omega
  refine ⟨hsize, fun hlt => ?_⟩
  have hop : (0 : BitVec 4).toNat < 4 := by decide
  obtain ⟨header, hheader, -⟩ := @writeDnsHeader_ok (replyTo cd ad msg answers authAns).header hop rfl
  have hwritable : (replyTo cd ad msg answers authAns).Writable := by
    refine DnsMessage.writable_of_size hcount (UInt16.toNat_ofNat_of_lt' (by change answers.length < 65536; omega))
      (UInt16.toNat_ofNat_of_lt' (by change authAns.length < 65536; omega)) rfl hrecords hlt
  exact ⟨_, (writeDnsMessage_ok_iff ..).mpr ⟨header, hheader, hwritable, rfl⟩⟩

end DnsTool
end NetworkingFramework
