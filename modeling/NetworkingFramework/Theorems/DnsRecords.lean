import NetworkingFramework.Lemmas.DnsRdata
import NetworkingFramework.Lemmas.DnsTool

/-!
# The data of records

The answer to a query for a mail server never carries the one that was stored: it is encoded without its null byte, and its last
byte is taken for that. The data of an SOA record is never read back with the length it has.
-/

namespace NetworkingFramework

open Wire

/-! ## MX -/

/-- The answer counts its data, and the data is read back as the mail server with preference 10, all of it. -/
structure DnsAnswer.CarriesMx (answer : DnsAnswer) (v : Bytes) : Prop where
  dataLen : answer.dataLen.toNat = answer.rdata.length
  returns : extractMxRdata.Returns answer.rdata 0 ⟨10, v ++ [0]⟩ answer.dataLen.toNat

/-- A query for a mail server that was stored is answered when an `int` counts the bytes of the mail server. -/
theorem answerQuery_mx_ok_iff {database : DnsDatabase} (frame : SoaFrame) {query : DnsQuery} (htype : query.qType = dnsRecordTypeMx)
    {name v : Bytes} (hname : cString query.qName = .ok name) (hrecord : database.searchRecordMx name = .ok (some v))
    (r : List DnsAnswer × List DnsAnswer) :
    DnsTool.answerQuery database frame query = .ok r ↔ v.length < 2 ^ 31 ∧ r = ([mxAnswer query v], []) := by
  have hA : query.qType ≠ dnsRecordTypeA := by
    rw [htype]
    decide
  unfold DnsTool.answerQuery
  rw [if_neg hA, if_pos htype, hname, ok_bind, hrecord, ok_bind]
  simp only [bind_eq_ok_iff, convertMxToRdata_ok_iff, pure_eq_ok, Except.ok.injEq]
  constructor
  · rintro ⟨_, ⟨hlt, rfl⟩, rfl⟩
    exact ⟨hlt, rfl⟩
  · rintro ⟨hlt, rfl⟩
    exact ⟨_, ⟨hlt, rfl⟩, rfl⟩

theorem not_carriesMx {query : DnsQuery} {v : Bytes} (hv : NameOver Plain (v ++ [0])) : ¬(mxAnswer query v).CarriesMx v :=
  fun h => not_extractMxRdata_unterminated hv 10 10 _ h.returns

/-- Of a message with a query for a mail server that was stored, whatever else it asks for: the query is answered when an `int`
counts the bytes of the mail server, and the answer that is added for it, and is in the reply when there is one, does not carry
the mail server. -/
theorem mxAnswer_never_carries {database : DnsDatabase} {frames : Nat → SoaFrame} {cd ad : Bool} {msg : DnsMessage} {i : Nat}
    {query : DnsQuery} {name v : Bytes} (hi : i < msg.header.queryCount.toNat) (hquery : msg.queries[i]? = some query)
    (htype : query.qType = dnsRecordTypeMx) (hname : cString query.qName = .ok name)
    (hrecord : database.searchRecordMx name = .ok (some v)) (hv : NameOver Plain (v ++ [0])) :
    ((∃ r, DnsTool.answerQuery database (frames i) query = .ok r) ↔ v.length < 2 ^ 31) ∧
      ∀ answers authAns, DnsTool.answerQuery database (frames i) query = .ok (answers, authAns) →
        ∃ answer, answers = [answer] ∧ authAns = [] ∧ ¬answer.CarriesMx v ∧
          ∀ reply, DnsTool.handleQuery database frames cd ad msg = .ok reply → answer ∈ reply.ans := by
  have hok := answerQuery_mx_ok_iff (frames i) htype hname hrecord
  constructor
  · constructor
    · rintro ⟨r, hr⟩
      exact ((hok r).mp hr).1
    · intro hlt
      exact ⟨_, (hok _).mpr ⟨hlt, rfl⟩⟩
  · intro answers authAns hanswer
    obtain ⟨rfl, rfl⟩ := Prod.mk.inj ((hok _).mp hanswer).2
    refine ⟨mxAnswer query v, rfl, rfl, not_carriesMx hv, fun reply hreply => ?_⟩
    obtain ⟨⟨answers, authAns⟩, hloop, heq⟩ := (bind_eq_ok_iff _ _ _).mp hreply
    obtain rfl := Except.ok.inj heq
    exact (DnsTool.mem_answerQueries hloop (Nat.zero_le i) (by omega) hquery hanswer).1 List.mem_cons_self

/-- A query for the mail server of `a`. -/
def mxQueryForA : DnsQuery := ⟨[97, 0], dnsRecordTypeMx, dnsRecordClassIn⟩

/-- The name `mx.b` of a mail server. -/
def mailServer : Bytes := [109, 120, 46, 98]

theorem nameOver_mailServer : NameOver Plain (mailServer ++ [0]) := by
  have hname : NameOver HostByte (mailServer ++ [0]) := ⟨[[109, 120], [98]], by simp, by simp [HostByte], rfl⟩
  exact hname.mono fun b hb => hb.ascii.plain

/-- A database in which `mx.b` is the mail server of `a`. -/
theorem exists_mailDatabase : ∃ database, DnsDatabase.empty.addRecordMx [97] mailServer = .ok database ∧
    database.searchRecordMx [97] = .ok (some mailServer) := by
  obtain ⟨mappings, hadd, hsearch, -⟩ :=
    @addRecord_spec _ _ DnsDatabase.empty.mappingsMx [97] (by decide) (fun b hb => by
      obtain rfl := List.mem_singleton.mp hb
      decide) mailServer
  refine ⟨{ DnsDatabase.empty with mappingsMx := mappings }, ?_, hsearch⟩
  rw [DnsDatabase.addRecordMx, hadd]
  rfl

/-- A request with that query. -/
def mxRequestForA : DnsMessage where
  header := {
    id := 7, rd := true, tc := false, aa := false, opcode := 0, qr := false, rcode := 0, cd := false, ad := false, ra := false
    queryCount := 1, ansCount := 0, authCount := 0, addCount := 0 }
  queries := [mxQueryForA]
  ans := []
  ansAuth := []
  ansAddit := []

/-- A frame with the words one after another from `serial_num` down. -/
def descendingFrame : SoaFrame where
  serialNum := 16
  refreshInterval := 12
  retryInterval := 8
  expireLimit := 4
  maxTtl := 0
  stack := fun _ _ => 0
  disjoint := by decide

theorem mxAnswer_never_carries_stored : ∃ database, DnsDatabase.empty.addRecordMx [97] mailServer = .ok database ∧
    ∃ answer, DnsTool.answerQuery database descendingFrame mxQueryForA = .ok ([answer], []) ∧
      ¬answer.CarriesMx mailServer ∧
      ∀ reply, DnsTool.handleQuery database (fun _ => descendingFrame) false false mxRequestForA = .ok reply →
        answer ∈ reply.ans := by
  obtain ⟨database, hadd, hsearch⟩ := exists_mailDatabase
  have hcount : 0 < mxRequestForA.header.queryCount.toNat := by decide
  obtain ⟨hok, hanswers⟩ := @mxAnswer_never_carries database (fun _ => descendingFrame) false false mxRequestForA 0 mxQueryForA
    [97] mailServer hcount rfl rfl rfl hsearch nameOver_mailServer
  obtain ⟨⟨answers, authAns⟩, hr⟩ := hok.mpr (by decide)
  obtain ⟨answer, rfl, rfl, hcarries, hmem⟩ := hanswers answers authAns hr
  exact ⟨database, hadd, answer, hr, hcarries, hmem⟩

/-- Asked for the mail server of `a`, a server answers `mx.` instead of `mx.b`. -/
theorem mxAnswer_carries_counterexample : ∃ database, DnsDatabase.empty.addRecordMx [97] mailServer = .ok database ∧
    database.searchRecordMx [97] = .ok (some mailServer) ∧
    ¬∃ answer, DnsTool.answerQuery database descendingFrame mxQueryForA = .ok ([answer], []) ∧
      answer.CarriesMx mailServer := by
  obtain ⟨database, hadd, hsearch⟩ := exists_mailDatabase
  refine ⟨database, hadd, hsearch, fun h => ?_⟩
  obtain ⟨answer, hanswer, hcarries⟩ := h
  obtain ⟨-, heq⟩ := (answerQuery_mx_ok_iff descendingFrame rfl rfl hsearch _).mp hanswer
  obtain rfl := List.head_eq_of_cons_eq (Prod.mk.inj heq).1
  exact not_carriesMx nameOver_mailServer hcarries

/-! ## SOA -/

/-- The data made in a frame is read back as what it was made of, all of it. -/
def SoaRdata.RoundTrips (frame : SoaFrame) (source : SoaRdata) : Prop :=
  ∃ rdata, convertSoaToRdata frame source = .ok rdata ∧ extractSoaRdata.Returns rdata 0 source rdata.length

/-- Whatever is read back of the data, it takes another number of bytes than the data has. -/
theorem consumed_ne_length {frame : SoaFrame} {source source' : SoaRdata} (hprimary : NameOver Plain source.primaryServer)
    (hadmin : NameOver Plain source.adminMailServer) {rdata : Bytes} (hrdata : convertSoaToRdata frame source = .ok rdata)
    {k : Int} (h : extractSoaRdata.Returns rdata 0 source' k) : k ≠ rdata.length := by
  obtain ⟨-, -, hforward⟩ := (convertSoaToRdata_ok_iff frame source).mp ⟨rdata, hrdata⟩
  obtain ⟨words, hwords, rfl⟩ := convertSoaToRdata_eq hrdata
  have hconsumed := consumed_of_extractSoaRdata hprimary hadmin h
  have hwordsLength := SoaFrame.wordsLength_ne hforward
  rw [narrow, Int.bmod_def] at hconsumed
  rw [List.length_append, List.length_append]
  split at hconsumed <;> omega

/-- In no frame does the data of an SOA record round trip. -/
theorem soaRdata_never_roundTrips {frame : SoaFrame} {source : SoaRdata} (hprimary : NameOver Plain source.primaryServer)
    (hadmin : NameOver Plain source.adminMailServer) : ¬source.RoundTrips frame := by
  intro h
  obtain ⟨rdata, hrdata, hreturns⟩ := h
  exact consumed_ne_length hprimary hadmin hrdata hreturns rfl

theorem nameOver_none : NameOver Plain (chars "none" ++ [0]) := by
  have hname : NameOver HostByte (chars "none" ++ [0]) := ⟨[[110, 111, 110, 101]], by simp, by simp [HostByte], rfl⟩
  exact hname.mono fun b hb => hb.ascii.plain

theorem soaRdata_never_roundTrips_myStartOfAuthority : ¬DnsTool.myStartOfAuthority.RoundTrips descendingFrame :=
  soaRdata_never_roundTrips nameOver_none nameOver_none

/-- The server's own record of authority, in a frame that is laid out forward, has 60 bytes behind its names. -/
theorem soaRdata_roundTrips_counterexample :
    (∃ rdata, convertSoaToRdata descendingFrame DnsTool.myStartOfAuthority = .ok rdata ∧ rdata.length = 72) ∧
      ¬DnsTool.myStartOfAuthority.RoundTrips descendingFrame := by
  obtain ⟨rdata, hrdata⟩ := (DnsTool.convertMyStartOfAuthority_ok_iff descendingFrame).mpr (by
    unfold SoaFrame.Forward
    decide)
  refine ⟨⟨rdata, hrdata, ?_⟩, fun h => ?_⟩
  · obtain ⟨words, hwords, rfl⟩ := convertSoaToRdata_eq hrdata
    rw [List.length_append, hwords]
    decide
  · obtain ⟨rdata', hrdata', hreturns⟩ := h
    exact consumed_ne_length nameOver_none nameOver_none hrdata' hreturns rfl

end NetworkingFramework
