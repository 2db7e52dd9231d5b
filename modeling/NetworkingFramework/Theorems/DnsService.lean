import NetworkingFramework.Lemmas.DnsCodec
import NetworkingFramework.Lemmas.DnsServer
import NetworkingFramework.Lemmas.DnsTool
import NetworkingFramework.Theorems.DnsRecords

/-!
# A DNS server answers its clients

A request that travels to a server, is answered from its database and travels back, agrees with the database: exactly when the
record of authority, where one is needed, is made in a stack frame laid out forward, and an `int` counts the bytes of every
query and its answer (`exchange_agrees_iff`). A server answers replies as it answers requests, so two of them answer each other
without end (`dnsServers_answer_replies`).
-/

namespace NetworkingFramework

open Wire

namespace DnsTool

/-- A request of the kind that a client sends: queries and nothing else, for names of ASCII labels, none of them for a mail
server. -/
structure IsRequest (request : DnsMessage) : Prop where
  qr : request.header.qr = false
  opcode : request.header.opcode = 0
  ra : request.header.ra = false
  queryCount : request.header.queryCount.toNat = request.queries.length
  ansCount : request.header.ansCount = 0
  authCount : request.header.authCount = 0
  addCount : request.header.addCount = 0
  ans : request.ans = []
  ansAuth : request.ansAuth = []
  ansAddit : request.ansAddit = []
  queries : ∀ query ∈ request.queries, Plausible query

/-- The calls that fill a database: the names are ASCII and not empty. -/
def Fillable (adds : List DnsAdd) : Prop := ∀ op ∈ adds, op.name ≠ [] ∧ AsciiName op.name

/-- A request travels to a server that was filled by some calls, is answered, and the reply travels back. -/
def Exchange (adds : List DnsAdd) (frames : Nat → SoaFrame) (cd ad : Bool) (request reply : DnsMessage) : Prop :=
  ∃ db sent received answer returned n m, DnsDatabase.empty.addAll adds = .ok db ∧ writeDnsMessage request = .ok sent ∧
    extractDnsMessage.Returns sent 0 received n ∧ handleQuery db frames cd ad received = .ok answer ∧
    writeDnsMessage answer = .ok returned ∧ extractDnsMessage.Returns returned 0 reply m

/-- The reply repeats the request's id and queries, has in query order the address that was added last under each name asked
for, and one record of authority for every other query. -/
structure Agrees (adds : List DnsAdd) (request reply : DnsMessage) : Prop where
  id : reply.header.id = request.header.id
  qr : reply.header.qr = true
  queries : reply.queries = request.queries
  ans : reply.ans = addressAnswers (lastA adds) request.queries
  ansAuth : reply.ansAuth.length = (unanswered (lastA adds) request.queries).length
  ansAuthType : ∀ a ∈ reply.ansAuth, a.type = dnsRecordTypeSoa
  counts : reply.header.ansCount.toNat + reply.header.authCount.toNat = reply.header.queryCount.toNat
  queryCount : reply.header.queryCount = request.header.queryCount
  addCount : reply.header.addCount = 0
  ansAddit : reply.ansAddit = []

/-! ## The request -/

theorem IsRequest.records_eq_nil {request : DnsMessage} (h : IsRequest request) : request.records = [] := by
  rw [DnsMessage.records, h.ans, h.ansAuth, h.ansAddit]
  rfl

theorem IsRequest.not_mem_records {request : DnsMessage} (h : IsRequest request) (a : DnsAnswer) : a ∉ request.records := by
  rw [h.records_eq_nil]
  exact List.not_mem_nil

theorem IsRequest.encodable {request : DnsMessage} (h : IsRequest request) : request.Encodable Plain where
  queryCount := h.queryCount
  ansCount := by rw [h.ansCount, h.ans]; rfl
  authCount := by rw [h.authCount, h.ansAuth]; rfl
  addCount := by rw [h.addCount, h.ansAddit]; rfl
  queryNames q hq := (h.queries q hq).1.mono fun _ hb => hb.plain
  recordNames a ha := absurd ha (h.not_mem_records a)
  recordData a ha := absurd ha (h.not_mem_records a)

/-- An `int` counts the bytes of every query, and of the answer to it when there is one. -/
def ExchangeCounted (records : Bytes → Option Ip4Addr) (queries : List DnsQuery) : Prop :=
  ∀ query ∈ queries, query.qName.length + 5 < 2 ^ 31 ∧
    (addressFor records query ≠ none → query.qName.length + 15 < 2 ^ 31)

/-- A request comes to the server as it was sent. -/
theorem IsRequest.travels {request : DnsMessage} (h : IsRequest request) (hsize : ∀ query ∈ request.queries, query.size < 2 ^ 31) :
    ∃ sent, writeDnsMessage request = .ok sent ∧ extractDnsMessage.Returns sent 0 request (narrow sent.length) := by
  have hop : request.header.opcode.toNat < 4 := by rw [h.opcode]; decide
  have hrec : request.received = request :=
    (DnsMessage.received_eq_iff fun a ha => absurd ha (h.not_mem_records a)).mpr
      ⟨h.opcode, h.ra, fun a ha => absurd ha (h.not_mem_records a)⟩
  have hencodable := h.encodable
  obtain ⟨header, hheader, -⟩ := writeDnsHeader_ok hop h.ra
  have hwritable : request.Writable :=
    ⟨hencodable.queryCount, hencodable.ansCount, hencodable.authCount, hencodable.addCount, hsize,
      fun a ha => absurd ha (h.not_mem_records a)⟩
  have hsent := (writeDnsMessage_ok_iff ..).mpr ⟨header, hheader, hwritable, rfl⟩
  have hback := extractDnsMessage_written hsent hencodable.queryNames hencodable.recordNames []
  rw [hrec, List.append_nil] at hback
  exact ⟨_, hsent, hback⟩

/-! ## The reply -/

section Reply

variable {records : Bytes → Option Ip4Addr} {request : DnsMessage} {answers authAns : List DnsAnswer}

/-- The counts of the reply are not truncated. -/
theorem toNat_counts (hreq : IsRequest request) (h : Answers records request.queries answers authAns) :
    (UInt16.ofNat answers.length).toNat = answers.length ∧ (UInt16.ofNat authAns.length).toNat = authAns.length ∧
      answers.length + authAns.length = request.header.queryCount.toNat := by
  obtain ⟨rfl, hlen, -⟩ := h
  have hsum := length_addressAnswers_add records request.queries
  have hmax : request.header.queryCount.toNat < 65536 := UInt16.toNat_lt _
  rw [hreq.queryCount] at hmax ⊢
  refine ⟨?_, ?_, by omega⟩
  · rw [UInt16.toNat_ofNat']
    exact Nat.mod_eq_of_lt (by omega)
  · rw [UInt16.toNat_ofNat']
    exact Nat.mod_eq_of_lt (by omega)

theorem replyTo_encodable (hreq : IsRequest request) (h : Answers records request.queries answers authAns) (cd ad : Bool) :
    (replyTo cd ad request answers authAns).Encodable Plain := by
  obtain ⟨hans, hauth, -⟩ := toNat_counts hreq h
  obtain ⟨hanswers, -, hsoa⟩ := h
  have hmem : ∀ a ∈ (replyTo cd ad request answers authAns).records, a ∈ answers ∨ a ∈ authAns := by
    intro a ha
    simpa [DnsMessage.records, replyTo] using ha
  refine ⟨hreq.queryCount, hans, hauth, rfl, fun q hq => (hreq.queries q hq).1.mono fun _ hb => hb.plain, ?_, ?_⟩
  · intro a ha
    rcases hmem a ha with ha | ha
    · rw [hanswers] at ha
      obtain ⟨query, hquery, addr, rfl⟩ := mem_addressAnswers ha
      exact (hreq.queries query hquery).1.mono fun _ hb => hb.plain
    · rw [(hsoa a ha).fields.1]
      exact nameOver_startOfAuthority
  · intro a ha
    rcases hmem a ha with ha | ha
    · rw [hanswers] at ha
      obtain ⟨query, -, addr, rfl⟩ := mem_addressAnswers ha
      exact Nat.le_of_eq (addressAnswer_dataLen query addr)
    · exact (hsoa a ha).fields.2.2

/-- The answers with addresses come back as they are. -/
theorem received_addressAnswers (records : Bytes → Option Ip4Addr) (queries : List DnsQuery) :
    (addressAnswers records queries).map DnsAnswer.received = addressAnswers records queries := by
  have hsame : ∀ a ∈ addressAnswers records queries, a.received = id a := by
    intro a ha
    obtain ⟨query, -, addr, rfl⟩ := mem_addressAnswers ha
    have httl : (3600 : UInt32).toNat < 65536 := by decide
    exact (DnsAnswer.received_eq_iff (addressAnswer_dataLen query addr)).mpr httl
  rw [List.map_congr_left hsame, List.map_id]

/-- The record of authority is short. -/
theorem IsStartOfAuthority.size_lt {a : DnsAnswer} (h : IsStartOfAuthority a) : a.size < 2 ^ 31 := by
  have hlen : a.dataLen.toNat < 65536 := UInt16.toNat_lt _
  have hname : (chars "some local dns server" ++ [0]).length = 22 := by decide
  rw [DnsAnswer.size, h.fields.1, hname]
  omega

theorem replyTo_writable (hreq : IsRequest request) (h : Answers records request.queries answers authAns) (cd ad : Bool)
    (hcounted : ExchangeCounted records request.queries) : (replyTo cd ad request answers authAns).Writable := by
  have hencodable := replyTo_encodable hreq h cd ad
  refine ⟨hencodable.queryCount, hencodable.ansCount, hencodable.authCount, hencodable.addCount,
    fun query hquery => (hcounted query hquery).1, fun a ha => ⟨hencodable.recordData a ha, ?_⟩⟩
  obtain ⟨rfl, -, hsoa⟩ := h
  have hmem : a ∈ addressAnswers records request.queries ∨ a ∈ authAns := by
    simpa [DnsMessage.records, replyTo] using ha
  rcases hmem with hmem | hmem
  · obtain ⟨query, hquery, hsome⟩ := List.mem_filterMap.mp hmem
    obtain ⟨addr, haddr, rfl⟩ := Option.map_eq_some_iff.mp hsome
    exact (hcounted query hquery).2 (haddr ▸ Option.some_ne_none addr)
  · exact (hsoa a hmem).size_lt

/-- The reply comes back to the client, and agrees with the records. -/
theorem replyTo_travels {adds : List DnsAdd} (hreq : IsRequest request)
    (h : Answers (lastA adds) request.queries answers authAns) (cd ad : Bool)
    (hcounted : ExchangeCounted (lastA adds) request.queries) :
    ∃ returned reply m, writeDnsMessage (replyTo cd ad request answers authAns) = .ok returned ∧
      extractDnsMessage.Returns returned 0 reply m ∧ Agrees adds request reply := by
  have hop : (0 : BitVec 4).toNat < 4 := by decide
  have hencodable := replyTo_encodable hreq h cd ad
  obtain ⟨header, hheader, -⟩ := @writeDnsHeader_ok (replyTo cd ad request answers authAns).header hop rfl
  have hwrite := (writeDnsMessage_ok_iff ..).mpr ⟨header, hheader, replyTo_writable hreq h cd ad hcounted, rfl⟩
  have hback := extractDnsMessage_written hwrite hencodable.queryNames hencodable.recordNames []
  rw [List.append_nil] at hback
  obtain ⟨hans, hauth, hcounts⟩ := toNat_counts hreq h
  obtain ⟨hanswers, hlen, hsoa⟩ := h
  refine ⟨_, _, _, hwrite, hback, ?_⟩
  exact {
    id := rfl
    qr := rfl
    queries := rfl
    ans := by
      show answers.map DnsAnswer.received = addressAnswers (lastA adds) request.queries
      rw [hanswers, received_addressAnswers]
    ansAuth := (List.length_map DnsAnswer.received).trans hlen
    ansAuthType := fun a ha => by
      obtain ⟨b, hb, rfl⟩ := List.mem_map.mp ha
      exact (hsoa b hb).fields.2.1
    counts := by
      show (UInt16.ofNat answers.length).toNat + (UInt16.ofNat authAns.length).toNat = request.header.queryCount.toNat
      rw [hans, hauth, hcounts]
    queryCount := rfl
    addCount := rfl
    ansAddit := rfl }

end Reply

/-! ## The exchange -/

/-- A database filled by calls holds what was added last. -/
theorem Fillable.holdsA {adds : List DnsAdd} (h : Fillable adds) :
    ∃ db, DnsDatabase.empty.addAll adds = .ok db ∧ db.HoldsA (lastA adds) := by
  obtain ⟨db, hall, hholds⟩ := DnsDatabase.addAll_holdsA h DnsDatabase.empty_holdsA
  simp only [Option.or_none] at hholds
  exact ⟨db, hall, hholds⟩

/-- Only requests whose records of authority are made in frames laid out forward, and whose queries and answers an `int` counts, are
answered at all. -/
theorem of_exchange {adds : List DnsAdd} (hadds : Fillable adds) {request reply : DnsMessage} (hreq : IsRequest request)
    {frames : Nat → SoaFrame} {cd ad : Bool} (h : Exchange adds frames cd ad request reply) :
    FramesForward (lastA adds) frames request.queries ∧ ExchangeCounted (lastA adds) request.queries := by
  obtain ⟨db, hall, hholds⟩ := hadds.holdsA
  obtain ⟨db', sent, received, answer, returned, n, m, hall', hsent, hreceived, hanswer, hreturned, -⟩ := h
  obtain rfl : db = db' := Except.ok.inj (hall.symm.trans hall')
  obtain ⟨-, -, hwritable, -⟩ := (writeDnsMessage_ok_iff ..).mp hsent
  obtain ⟨sent', hsent', hreturns⟩ := hreq.travels hwritable.queries
  obtain rfl : sent = sent' := Except.ok.inj (hsent.symm.trans hsent')
  obtain ⟨rfl, -⟩ := hreturns.unique hreceived
  obtain ⟨⟨answers, authAns⟩, hloop, heq⟩ := (bind_eq_ok_iff _ _ _).mp hanswer
  obtain rfl := Except.ok.inj heq
  rw [hreq.queryCount] at hloop
  refine ⟨(answerQueries_ok_iff hholds frames hreq.queries).mp ⟨_, hloop⟩, fun query hquery => ⟨hwritable.queries query hquery, ?_⟩⟩
  intro hsome
  obtain ⟨addr, haddr⟩ := Option.ne_none_iff_exists'.mp hsome
  obtain ⟨-, -, hreply, -⟩ := (writeDnsMessage_ok_iff ..).mp hreturned
  obtain ⟨hanswers, -⟩ := answerQueries_answers hholds hreq.queries hloop
  have hmem : addressAnswer query addr ∈ answers := by
    rw [hanswers]
    exact List.mem_filterMap.mpr ⟨query, hquery, by rw [haddr]; rfl⟩
  exact (hreply.records _ ((DnsMessage.mem_records ..).mpr (.inl hmem))).2

/-- A request gets the reply that agrees with the database exactly when every query has an address or the record of authority
made for it is made in a frame laid out forward, and an `int` counts the bytes of every query and its answer. -/
theorem exchange_agrees_iff {adds : List DnsAdd} (hadds : Fillable adds) {request : DnsMessage} (hreq : IsRequest request)
    (frames : Nat → SoaFrame) (cd ad : Bool) :
    (∃ reply, Exchange adds frames cd ad request reply ∧ Agrees adds request reply) ↔
      FramesForward (lastA adds) frames request.queries ∧ ExchangeCounted (lastA adds) request.queries := by
  constructor
  · rintro ⟨reply, hexchange, -⟩
    exact of_exchange hadds hreq hexchange
  · rintro ⟨hframes, hcounted⟩
    obtain ⟨db, hall, hholds⟩ := hadds.holdsA
    obtain ⟨sent, hsent, hreturns⟩ := hreq.travels fun query hquery => (hcounted query hquery).1
    obtain ⟨⟨answers, authAns⟩, hloop⟩ := (answerQueries_ok_iff hholds frames hreq.queries).mpr hframes
    obtain ⟨returned, reply, m, hwrite, hback, hagrees⟩ :=
      replyTo_travels hreq (answerQueries_answers hholds hreq.queries hloop) cd ad hcounted
    have hanswer : handleQuery db frames cd ad request = .ok (replyTo cd ad request answers authAns) := by
      rw [handleQuery, hreq.queryCount, hloop]
      rfl
    exact ⟨reply, ⟨db, sent, request, _, returned, _, m, hall, hsent, hreturns, hanswer, hwrite, hback⟩, hagrees⟩

/-- A frame with the words one after another from `serial_num` up. -/
def ascendingFrame : SoaFrame where
  serialNum := 0
  refreshInterval := 4
  retryInterval := 8
  expireLimit := 12
  maxTtl := 16
  stack := fun _ _ => 0
  disjoint := by decide

/-- A request for the address of `a`. -/
def requestForA : DnsMessage where
  header := {
    id := 7, rd := true, tc := false, aa := false, opcode := 0, qr := false, rcode := 0, cd := false, ad := false, ra := false
    queryCount := 1, ansCount := 0, authCount := 0, addCount := 0 }
  queries := [⟨[97, 0], dnsRecordTypeA, dnsRecordClassIn⟩]
  ans := []
  ansAuth := []
  ansAddit := []

theorem requestForA_isRequest : IsRequest requestForA := by
  refine ⟨rfl, rfl, rfl, rfl, rfl, rfl, rfl, rfl, rfl, rfl, fun query hquery => ?_⟩
  obtain rfl := List.mem_singleton.mp hquery
  refine ⟨⟨[[97]], by simp, fun l hl => ?_, rfl⟩, by decide⟩
  obtain rfl := List.mem_singleton.mp hl
  refine ⟨by decide, by decide, fun b hb => ?_⟩
  obtain rfl := List.mem_singleton.mp hb
  exact ⟨by decide, by decide, by decide⟩

theorem fillable_a (addr : Ip4Addr) : Fillable [.a [97] addr] := by
  intro op hop
  obtain rfl := List.mem_singleton.mp hop
  refine ⟨List.cons_ne_nil 97 [], fun b hb => ?_⟩
  obtain rfl := List.mem_singleton.mp hb
  decide

/-- With an address for `a`, the request is answered, whatever the frame. -/
theorem exchange_agrees_address :
    ∃ reply, Exchange [.a [97] ip4AddrEmpty] (fun _ => ascendingFrame) false false requestForA reply ∧
      Agrees [.a [97] ip4AddrEmpty] requestForA reply := by
  refine (exchange_agrees_iff (fillable_a ip4AddrEmpty) requestForA_isRequest _ false false).mpr
    ⟨fun i query hquery hnone => ?_, fun query hquery => ?_⟩
  · cases i with
    | zero =>
      obtain rfl := Option.some.inj hquery
      nomatch hnone
    | succ i => nomatch hquery
  · obtain rfl := List.mem_singleton.mp hquery
    decide

/-- Without one, and with the words in ascending order, there is no reply: the third vector has a negative length. -/
theorem exchange_agrees_counterexample :
    Fillable [] ∧ IsRequest requestForA ∧
      ¬∃ reply, Exchange [] (fun _ => ascendingFrame) false false requestForA reply ∧ Agrees [] requestForA reply := by
  have hadds : Fillable [] := fun op hop => absurd hop List.not_mem_nil
  refine ⟨hadds, requestForA_isRequest, fun h => ?_⟩
  obtain ⟨reply, hexchange, -⟩ := h
  have hforward : ascendingFrame.Forward := (of_exchange hadds requestForA_isRequest hexchange).1 0 _ rfl rfl
  have hlate : 8 ≤ 0 + 4 := hforward 8 (by decide)
  exact absurd hlate (by decide)

end DnsTool

/-! ## Two servers -/

open Runs

/-- Whatever is in flight between two servers, and in whatever order it is delivered: every delivery that the handler returns
from sends one message, a reply with the id of a message that was in flight at first, and as many messages stay in flight. A
message for plain names that both servers can answer, be it a request or a reply, is answered back and forth for any number of
deliveries. -/
theorem dnsServers_answer_replies (database : DnsHost → DnsDatabase) (inFlight : List DnsDatagram) :
    (∀ deliveries s, run DnsHosts.step (.start database inFlight) deliveries = some s →
      s.sent.length = deliveries.length ∧ s.inFlight.length = inFlight.length ∧
        ∀ reply ∈ s.sent, ∃ header, packetHeader reply.data = .ok header ∧ header.qr = true ∧
          ∃ request ∈ inFlight, (packetHeader request.data).map DnsHeader.id = .ok header.id) ∧
      ∀ packet ∈ inFlight, ∀ msg, DnsProtocol.Receives packet.data msg → (∀ query ∈ msg.queries, NameOver Plain query.qName) →
        (∀ host, ∃ stack data, DnsServer.handleRecv (database host) stack msg = .ok data) →
          ∀ n, ∃ deliveries s, deliveries.length = n ∧ run DnsHosts.step (.start database inFlight) deliveries = some s := by
  refine ⟨fun deliveries s hrun => ?_, fun packet hpacket msg hmsg hnames hanswered n => ?_⟩
  · have hanswers : s.AnswersOnly inFlight :=
      invariant_of_run (fun _ _ _ _ hs hstep => hs.step hstep) hrun (DnsHosts.start_answersOnly database inFlight)
    have hcount := count_of_run (f := fun s => s.sent.length) (fun _ _ _ hstep => DnsHosts.length_sent_of_step hstep) hrun
    refine ⟨?_, hanswers.length, hanswers.sent⟩
    rw [hcount]
    exact Nat.zero_add _
  · have hasked : (DnsHosts.start database inFlight).Asked database msg := ⟨rfl, packet, hpacket, msg, hmsg, rfl, rfl, rfl⟩
    obtain ⟨deliveries, s, hlen, hrun, -⟩ :=
      exists_run_of_length (fun s hs => DnsHosts.Asked.exists_step hnames hanswered s hs) hasked n
    exact ⟨deliveries, s, hlen, hrun⟩

/-- A reply to a query for an address of `a`, without an answer. -/
def replyForA : Bytes := [0, 0, 128, 0, 0, 1, 0, 0, 0, 0, 0, 0, 1, 97, 0, 0, 1, 0, 1]

/-- The two bytes of its name are a label and a null character. -/
theorem nameOver_replyForA : NameOver Plain [97, 0] := by
  refine ⟨[[97]], List.cons_ne_nil _ _, ?_, rfl⟩
  intro l hl
  obtain rfl := List.mem_singleton.mp hl
  refine ⟨by decide, by decide, ?_⟩
  intro b hb
  obtain rfl := List.mem_singleton.mp hb
  exact ⟨by decide, by decide, by decide⟩

/-- A server that knows no name answers it with its record of authority. -/
theorem replyForA_receives : ∃ msg,
    DnsProtocol.Receives replyForA msg ∧ msg.queries = [⟨[97, 0], dnsRecordTypeA, dnsRecordClassIn⟩] ∧
    ∃ data, DnsServer.handleRecv .empty ⟨fun _ => descendingFrame, false, false⟩ msg = .ok data := by
  refine ⟨_, ⟨19, 4, rfl⟩, rfl, ?_⟩
  have hlength : (DnsServer.handleRecv .empty ⟨fun _ => descendingFrame, false, false⟩
      ⟨⟨0, false, false, false, 0, true, 0, false, false, false, 1, 0, 0, 0⟩,
        [⟨[97, 0], dnsRecordTypeA, dnsRecordClassIn⟩], [], [], []⟩).map List.length = .ok 124 := by
    decide +kernel
  obtain ⟨data, hdata, -⟩ := (map_eq_ok_iff _ _ _).mp hlength
  exact ⟨data, hdata⟩

/-- That reply in flight, and servers that know no name: a run with a thousand messages. -/
theorem dnsServers_answer_replies_query :
    ∃ deliveries s, run DnsHosts.step (.start (fun _ => .empty) [⟨.first, replyForA⟩]) deliveries = some s ∧
      s.sent.length = 1000 := by
  obtain ⟨msg, hreceives, hqueries, data, hanswered⟩ := replyForA_receives
  have hnames : ∀ query ∈ msg.queries, NameOver Plain query.qName := by
    intro query hquery
    rw [hqueries] at hquery
    obtain rfl := List.mem_singleton.mp hquery
    exact nameOver_replyForA
  have h := dnsServers_answer_replies (fun _ => .empty) [⟨.first, replyForA⟩]
  obtain ⟨deliveries, s, hlen, hrun⟩ := h.2 _ List.mem_cons_self msg hreceives hnames (fun _ => ⟨_, data, hanswered⟩) 1000
  exact ⟨deliveries, s, hrun, (h.1 deliveries s hrun).1.trans hlen⟩

/-- Whether a packet carries a reply. -/
def isReply (data : Bytes) : Bool :=
  match packetHeader data with
  | .ok header => header.qr
  | .error _ => false

/-- A reply without queries and records. -/
def emptyReply : Bytes := [0, 0, 128, 0, 0, 0, 0, 0, 0, 0, 0, 0]

/-- With the empty reply in flight and no request, a message is sent. -/
theorem dnsServers_answer_counterexample :
    ¬∀ (database : DnsHost → DnsDatabase) (inFlight : List DnsDatagram), (∀ p ∈ inFlight, ∃ msg, DnsProtocol.Receives p.data msg) →
      ∀ deliveries s, run DnsHosts.step (.start database inFlight) deliveries = some s →
        s.sent.length ≤ inFlight.countP fun p => !isReply p.data := by
  intro h
  have hdecoded : ∀ p ∈ [(⟨.first, emptyReply⟩ : DnsDatagram)], ∃ msg, DnsProtocol.Receives p.data msg := by
    intro p hp
    obtain rfl := List.mem_singleton.mp hp
    exact ⟨_, 12, 0, rfl⟩
  have hle := h (fun _ => .empty) [⟨.first, emptyReply⟩] hdecoded [⟨0, 0, ⟨fun _ => DnsTool.ascendingFrame, false, false⟩⟩] _ rfl
  exact absurd hle (by decide)

end NetworkingFramework
