import NetworkingFramework.DnsServer
import NetworkingFramework.Lemmas.DnsCodec
import NetworkingFramework.Lemmas.DnsTool
import NetworkingFramework.Lib.Runs

/-!
# What a server sends

The packet that the handler sends begins with the header of a reply. When the names asked for are plain, the packet is decoded to
a message with the same id and queries, and what the handler sends for that is what it sends for the message it got.
-/

namespace NetworkingFramework

open Wire Runs

/-! ## Headers -/

/-- The header that a packet begins with. -/
def packetHeader (data : Bytes) : Except Fault DnsHeader := (extractDnsHeader.run data 0).map Prod.fst

/-- A message is decoded from a packet with the header of the message. -/
theorem packetHeader_of_receives {data : Bytes} {msg : DnsMessage} (h : DnsProtocol.Receives data msg) :
    packetHeader data = .ok msg.header := by
  obtain ⟨n, h⟩ := h
  obtain ⟨k, _, _, _, _, hheader, -⟩ := (extractDnsMessage_returns_iff_parts ..).mp h
  obtain ⟨i, _, hi, -, hrun⟩ := (Fueled.returns_ofDecoder_iff ..).mp hheader
  obtain rfl : 0 = i := Int.ofNat_inj.mp hi
  unfold packetHeader
  rw [hrun]
  rfl

/-- A message is written to a packet with the header of the message. -/
theorem packetHeader_of_writeDnsMessage {msg : DnsMessage} {data : Bytes} (h : writeDnsMessage msg = .ok data) :
    packetHeader data = .ok msg.header.received := by
  obtain ⟨header, hheader, -, rfl⟩ := (writeDnsMessage_ok_iff ..).mp h
  obtain ⟨hop, hra⟩ := of_writeDnsHeader_ok hheader
  obtain ⟨header', hheader', -, hback⟩ := writeDnsHeader_ok hop hra
  obtain rfl : header = header' := Except.ok.inj (hheader.symm.trans hheader')
  unfold packetHeader
  rw [hback.run_append]
  rfl

namespace DnsServer

/-! ## The handler -/

/-- What the handler does to send a packet. -/
theorem handleRecv_eq_ok_iff (database : DnsDatabase) (stack : StackContents) (msg : DnsMessage) (data : Bytes) :
    handleRecv database stack msg = .ok data ↔ ∃ answers authAns,
      DnsTool.answerQueries database stack.frames msg.queries msg.header.queryCount.toNat 0 = .ok (answers, authAns) ∧
        writeDnsMessage (DnsTool.replyTo stack.cd stack.ad msg answers authAns) = .ok data ∧ data.length ≤ tmpBuffSize := by
  unfold handleRecv DnsTool.handleQuery
  constructor
  · intro h
    obtain ⟨reply, hreply, h⟩ := (bind_eq_ok_iff _ _ _).mp h
    obtain ⟨⟨answers, authAns⟩, hanswers, heq⟩ := (bind_eq_ok_iff _ _ _).mp hreply
    obtain rfl := Except.ok.inj heq
    obtain ⟨buff, hwrite, h⟩ := (bind_eq_ok_iff _ _ _).mp h
    by_cases hfits : tmpBuffSize < buff.length
    · rw [if_pos hfits] at h
      cases h
    · rw [if_neg hfits] at h
      obtain rfl := Except.ok.inj h
      exact ⟨answers, authAns, hanswers, hwrite, Nat.le_of_not_lt hfits⟩
  · intro ⟨answers, authAns, hanswers, hwrite, hfits⟩
    simp only [hanswers, ok_bind, pure_eq_ok, hwrite, if_neg (Nat.not_lt.mpr hfits)]

/-- The handler reads the id and the queries of a message, and nothing else. -/
structure SameQuestion (msg msg' : DnsMessage) : Prop where
  id : msg'.header.id = msg.header.id
  queryCount : msg'.header.queryCount = msg.header.queryCount
  queries : msg'.queries = msg.queries

theorem SameQuestion.handleRecv_eq {msg msg' : DnsMessage} (h : SameQuestion msg msg') (database : DnsDatabase)
    (stack : StackContents) : handleRecv database stack msg' = handleRecv database stack msg := by
  have hreply : ∀ answers authAns, DnsTool.replyTo stack.cd stack.ad msg' answers authAns =
      DnsTool.replyTo stack.cd stack.ad msg answers authAns := by
    intro answers authAns
    unfold DnsTool.replyTo
    rw [h.id, h.queryCount, h.queries]
  unfold handleRecv DnsTool.handleQuery
  simp only [h.queries, h.queryCount, hreply]

/-- The packet that is sent begins with the header of a reply, with the id of the message. -/
theorem packetHeader_of_handleRecv {database : DnsDatabase} {stack : StackContents} {msg : DnsMessage} {data : Bytes}
    (h : handleRecv database stack msg = .ok data) : ∃ header, packetHeader data = .ok header ∧ header.qr = true ∧
      header.id = msg.header.id := by
  obtain ⟨answers, authAns, -, hwrite, -⟩ := (handleRecv_eq_ok_iff ..).mp h
  exact ⟨_, packetHeader_of_writeDnsMessage hwrite, rfl, rfl⟩

/-- The receiver decodes a message and calls the handler. -/
theorem receive_eq_ok_iff (fuel : Nat) (database : DnsDatabase) (stack : StackContents) (data reply : Bytes) :
    receive fuel database stack data = .ok reply ↔
      ∃ msg n, (extractDnsMessage.run fuel).run data 0 = .ok (msg, n) ∧ handleRecv database stack msg = .ok reply := by
  unfold receive
  rw [bind_eq_ok_iff]
  exact Prod.exists

/-! ## The reply -/

/-- The names of all records are plain. -/
def PlainNames (answers authAns : List DnsAnswer) : Prop := ∀ a, a ∈ answers ∨ a ∈ authAns → NameOver Plain a.name

theorem PlainNames.append {answers answers' authAns authAns' : List DnsAnswer} (h : PlainNames answers authAns)
    (h' : PlainNames answers' authAns') : PlainNames (answers ++ answers') (authAns ++ authAns') := by
  intro a ha
  rw [List.mem_append, List.mem_append, or_or_or_comm] at ha
  rcases ha with ha | ha
  · exact h a ha
  · exact h' a ha

/-- A query for a plain name is answered by a record with a plain name. -/
theorem answerQuery_plainNames {database : DnsDatabase} {frame : SoaFrame} {query : DnsQuery} (hname : NameOver Plain query.qName)
    {answers authAns : List DnsAnswer} (h : DnsTool.answerQuery database frame query = .ok (answers, authAns)) :
    PlainNames answers authAns := by
  rcases DnsTool.answerQuery_cases h with ⟨addr, -, -, rfl, rfl⟩ | ⟨v, -, -, -, rfl, rfl⟩ | ⟨-, -, a, ha, rfl, rfl⟩
  · intro b hb
    obtain rfl : b = DnsTool.addressAnswer query addr := by simpa using hb
    exact hname
  · intro b hb
    obtain rfl : b = mxAnswer query v := by simpa using hb
    exact hname
  · intro b hb
    obtain rfl : b = a := by simpa using hb
    exact (DnsTool.IsStartOfAuthority.fields ⟨frame, ha⟩).1 ▸ DnsTool.nameOver_startOfAuthority

theorem answerQueries_plainNames {database : DnsDatabase} {frames : Nat → SoaFrame} {queries : List DnsQuery}
    (hnames : ∀ query ∈ queries, NameOver Plain query.qName) {count i : Nat} {answers authAns : List DnsAnswer}
    (h : DnsTool.answerQueries database frames queries count i = .ok (answers, authAns)) : PlainNames answers authAns := by
  induction count generalizing i answers authAns with
  | zero =>
    obtain ⟨rfl, rfl⟩ := Prod.mk.inj (Except.ok.inj h)
    intro a ha
    simp at ha
  | succ count ih =>
    obtain ⟨query, answers₁, authAns₁, answers₂, authAns₂, hquery, h₁, h₂, rfl, rfl⟩ := DnsTool.answerQueries_succ h
    exact (answerQuery_plainNames (hnames query (List.mem_of_getElem? hquery)) h₁).append (ih h₂)

/-- The reply to a message that asks for plain names arrives, with what was pushed for its queries. -/
theorem receives_of_handleRecv {database : DnsDatabase} {stack : StackContents} {msg : DnsMessage} {data : Bytes}
    (hnames : ∀ query ∈ msg.queries, NameOver Plain query.qName) (h : handleRecv database stack msg = .ok data) :
    ∃ answers authAns,
      DnsTool.answerQueries database stack.frames msg.queries msg.header.queryCount.toNat 0 = .ok (answers, authAns) ∧
        DnsProtocol.Receives data (DnsTool.replyTo stack.cd stack.ad msg answers authAns).received := by
  obtain ⟨answers, authAns, hanswers, hwrite, -⟩ := (handleRecv_eq_ok_iff ..).mp h
  have hrecords := answerQueries_plainNames hnames hanswers
  have hback := extractDnsMessage_written hwrite hnames (fun a ha => hrecords a ?_) []
  · rw [List.append_nil] at hback
    exact ⟨answers, authAns, hanswers, _, hback⟩
  · simpa [DnsMessage.records, DnsTool.replyTo] using ha

/-- The reply to a message that asks for plain names asks the same question, when it arrives. -/
theorem handleRecv_sameQuestion {database : DnsDatabase} {stack : StackContents} {msg : DnsMessage} {data : Bytes}
    (hnames : ∀ query ∈ msg.queries, NameOver Plain query.qName) (h : handleRecv database stack msg = .ok data) :
    ∃ reply, DnsProtocol.Receives data reply ∧ SameQuestion msg reply := by
  obtain ⟨answers, authAns, -, hreceives⟩ := receives_of_handleRecv hnames h
  exact ⟨_, hreceives, rfl, rfl, rfl⟩

end DnsServer

/-! ## Deliveries -/

namespace DnsHosts

/-- A step answers a message that is in flight. -/
theorem step_eq_some_iff (s s' : DnsHosts) (d : DnsDelivery) :
    s.step d = some s' ↔ ∃ packet data, s.inFlight[d.index]? = some packet ∧
      DnsServer.receive d.fuel (s.database packet.dest) d.stack packet.data = .ok data ∧
      s' = { s with
        inFlight := s.inFlight.eraseIdx d.index ++ [⟨packet.dest.other, data⟩]
        sent := s.sent ++ [⟨packet.dest.other, data⟩] } := by
  unfold step
  cases hpacket : s.inFlight[d.index]? with
  | none => simp
  | some packet =>
    cases hreceive : DnsServer.receive d.fuel (s.database packet.dest) d.stack packet.data with
    | error e => simp [hreceive]
    | ok data => simp [hreceive, eq_comm]

/-- What is in flight or was sent after some messages were in flight at first. -/
structure AnswersOnly (inFlight : List DnsDatagram) (s : DnsHosts) : Prop where
  length : s.inFlight.length = inFlight.length
  ids : ∀ packet ∈ s.inFlight, ∃ request ∈ inFlight,
    (packetHeader packet.data).map DnsHeader.id = (packetHeader request.data).map DnsHeader.id
  sent : ∀ reply ∈ s.sent, ∃ header, packetHeader reply.data = .ok header ∧ header.qr = true ∧
    ∃ request ∈ inFlight, (packetHeader request.data).map DnsHeader.id = .ok header.id

theorem start_answersOnly (database : DnsHost → DnsDatabase) (inFlight : List DnsDatagram) :
    AnswersOnly inFlight (start database inFlight) :=
  ⟨rfl, fun packet hpacket => ⟨packet, hpacket, rfl⟩, fun _ hreply => absurd hreply List.not_mem_nil⟩

/-- A delivery takes one message out of flight and sends one reply, with its id. -/
theorem AnswersOnly.step {inFlight : List DnsDatagram} {s s' : DnsHosts} {d : DnsDelivery} (hs : AnswersOnly inFlight s)
    (h : s.step d = some s') : AnswersOnly inFlight s' := by
  obtain ⟨packet, data, hpacket, hreceive, rfl⟩ := (step_eq_some_iff ..).mp h
  obtain ⟨msg, n, hrun, hhandle⟩ := (DnsServer.receive_eq_ok_iff ..).mp hreceive
  have hheader := packetHeader_of_receives ⟨n, d.fuel, hrun⟩
  obtain ⟨header, hreply, hqr, hid⟩ := DnsServer.packetHeader_of_handleRecv hhandle
  obtain ⟨request, hrequest, hsame⟩ := hs.ids packet (List.mem_of_getElem? hpacket)
  rw [hheader, map_ok, ← hid] at hsame
  refine ⟨?_, fun p hp => ?_, fun p hp => ?_⟩
  · have hindex : d.index < s.inFlight.length := (List.getElem?_eq_some_iff.mp hpacket).1
    have hlen := hs.length
    rw [List.length_append, List.length_eraseIdx_of_lt hindex, List.length_singleton]
    omega
  · rcases List.mem_append.mp hp with hp | hp
    · exact hs.ids p (List.mem_of_mem_eraseIdx hp)
    · obtain rfl := List.mem_singleton.mp hp
      refine ⟨request, hrequest, ?_⟩
      rw [hreply, map_ok, hsame]
  · rcases List.mem_append.mp hp with hp | hp
    · exact hs.sent p hp
    · obtain rfl := List.mem_singleton.mp hp
      exact ⟨header, hreply, hqr, request, hrequest, hsame.symm⟩

/-- One message more is sent. -/
theorem length_sent_of_step {s s' : DnsHosts} {d : DnsDelivery} (h : s.step d = some s') :
    s'.sent.length = s.sent.length + 1 := by
  obtain ⟨packet, data, -, -, rfl⟩ := (step_eq_some_iff ..).mp h
  rw [List.length_append, List.length_singleton]

/-- A message that asks the question of `msg` is in flight. -/
def Asked (database : DnsHost → DnsDatabase) (msg : DnsMessage) (s : DnsHosts) : Prop :=
  s.database = database ∧ ∃ packet ∈ s.inFlight, ∃ m, DnsProtocol.Receives packet.data m ∧ DnsServer.SameQuestion msg m

/-- When both hosts answer `msg`, a message that asks the same is answered by one that asks the same. -/
theorem Asked.exists_step {database : DnsHost → DnsDatabase} {msg : DnsMessage}
    (hnames : ∀ query ∈ msg.queries, NameOver Plain query.qName)
    (hanswered : ∀ host, ∃ stack data, DnsServer.handleRecv (database host) stack msg = .ok data) (s : DnsHosts)
    (hs : s.Asked database msg) : ∃ d s', s.step d = some s' ∧ s'.Asked database msg := by
  obtain ⟨rfl, packet, hpacket, m, ⟨n, fuel, hm⟩, hsame⟩ := hs
  obtain ⟨index, hindex⟩ := List.getElem?_of_mem hpacket
  obtain ⟨stack, data, hhandle⟩ := hanswered packet.dest
  have hhandle' : DnsServer.handleRecv (s.database packet.dest) stack m = .ok data := by rw [hsame.handleRecv_eq, hhandle]
  have hreceive := (DnsServer.receive_eq_ok_iff fuel _ stack packet.data data).mpr ⟨m, n, hm, hhandle'⟩
  obtain ⟨reply, hreply, hagain⟩ := DnsServer.handleRecv_sameQuestion hnames hhandle
  refine ⟨⟨index, fuel, stack⟩, _, (step_eq_some_iff ..).mpr ⟨packet, data, hindex, hreceive, rfl⟩, rfl, ?_⟩
  exact ⟨⟨packet.dest.other, data⟩, List.mem_append_right _ (List.mem_singleton.mpr rfl), reply, hreply, hagain⟩

end DnsHosts
end NetworkingFramework
