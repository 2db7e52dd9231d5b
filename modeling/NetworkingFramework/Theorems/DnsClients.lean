import NetworkingFramework.Lemmas.DnsClient
import NetworkingFramework.Lemmas.DnsPrinting
import NetworkingFramework.Lemmas.DnsServer
import NetworkingFramework.Theorems.DnsFiles
import NetworkingFramework.Theorems.DnsService

/-!
# What a DNS client prints

A client prints the first message that comes with the id of its request, and this is the id of all requests. With no one but a
server to send it messages, that is the answer that the server's files give, through whatever the network does; and from
wherever it is, the client can still get it.
-/

namespace NetworkingFramework

open Wire CText Runs

namespace DnsTool

variable {cd ad : Bool} {name : Bytes} {type class_ : UInt16}

/-! ## The request -/

theorem requestFor_encodable (hname : NameOver Plain (name ++ [0])) :
    (requestFor cd ad (makeDnsQuery name type class_)).Encodable Plain where
  queryCount := rfl
  ansCount := rfl
  authCount := rfl
  addCount := rfl
  queryNames := by
    intro query hquery
    obtain rfl := List.mem_singleton.mp hquery
    exact hname
  recordNames := fun a ha => absurd ha List.not_mem_nil
  recordData := fun a ha => absurd ha List.not_mem_nil

theorem send_eq_ok_iff {msg : DnsMessage} {data : Bytes} :
    DnsProtocol.send msg = .ok data ↔ writeDnsMessage msg = .ok data ∧ data.length ≤ DnsProtocol.buffSize := by
  unfold DnsProtocol.send
  rw [bind_eq_ok_iff]
  constructor
  · rintro ⟨buff, hwrite, h⟩
    by_cases hfits : DnsProtocol.buffSize < buff.length
    · rw [if_pos hfits] at h
      cases h
    · rw [if_neg hfits] at h
      obtain rfl := Except.ok.inj h
      exact ⟨hwrite, Nat.le_of_not_lt hfits⟩
  · rintro ⟨hwrite, hfits⟩
    exact ⟨data, hwrite, if_neg (Nat.not_lt.mpr hfits)⟩

/-- The request comes to a server as it was sent. -/
theorem eq_requestFor_of_receives (hname : NameOver Plain (name ++ [0])) {packet : Bytes}
    (hsend : DnsProtocol.send (requestFor cd ad (makeDnsQuery name type class_)) = .ok packet) {m : DnsMessage}
    (hm : DnsProtocol.Receives packet m) : m = requestFor cd ad (makeDnsQuery name type class_) := by
  have hencodable := @requestFor_encodable cd ad name type class_ hname
  have hback := extractDnsMessage_written (send_eq_ok_iff.mp hsend).1 hencodable.queryNames hencodable.recordNames []
  rw [List.append_nil] at hback
  obtain ⟨n, hm⟩ := hm
  exact (hm.unique hback).1

/-! ## A client -/

/-- Whatever arrives at a client, as long as nothing is stored in place of the message it copies: what is stored was decoded
from packets that arrived; what is printed is the first of it with the id of all requests, and its reads end as
`print_dns_message` ends for it; the request is sent once, and once more for each wait that times out. In front of an empty
queue, any packet that is decoded to a message with that id is what is printed next. -/
theorem client_prints_first (cd ad : Bool) (query : DnsQuery) (buff : List.Vector DnsMessage queueSize) {s : Client}
    (h : Reached Client.step Client.Allowed (.init (requestFor cd ad query) buff) s) :
    (∀ m ∈ s.stored, ∃ data ∈ s.arrived, DnsProtocol.Receives data m) ∧
      (∀ reply text, s.place = .printed reply text → s.stored.find? (·.header.id = 0x8950) = some reply ∧
        text = printDnsMessage reply false true ∧ s.sent.length = s.timeouts + 1) ∧
      (∀ data ∈ s.sent, DnsProtocol.send (requestFor cd ad query) = .ok data) ∧
      (s.place = .front → s.queue.count = 0 → (∀ m ∈ s.stored, m.header.id ≠ 0x8950) ∧
        ∀ fuel data m n, (extractDnsMessage.run fuel).run data 0 = .ok (m, n) →
          ∃ s', run Client.step s [.arrive fuel data, .proceed, .proceed, .proceed] = some s' ∧
            s'.place = if m.header.id = 0x8950 then .printed m (printDnsMessage m false true) else .front) := by
  have htraced : s.Traced (requestFor cd ad query) := h.invariant (Client.traced_init _ buff) fun s e s' hs _ h => hs.step h
  have hlooking : s.Looking := h.invariant (Client.looking_init _ buff) fun s e s' hs hallowed h => hs.step hallowed h
  have hasked := htraced.asked
  unfold Client.Looking at hlooking
  unfold Client.pending at hasked
  refine ⟨htraced.stored, ?_, htraced.sent, ?_⟩
  · intro reply text hplace
    rw [hplace, htraced.same] at hlooking
    rw [hplace] at hasked
    obtain ⟨before, hbehind, hothers, hid, htext⟩ := hlooking
    refine ⟨List.find?_eq_some_iff_append.mpr ⟨decide_eq_true hid.symm, before, s.queue.contents, ?_, ?_⟩, htext, hasked⟩
    · rw [htraced.kept, hbehind, List.append_assoc]
      rfl
    · intro m hm
      have hother : m.header.id ≠ 0x8950 := (hothers m hm).symm
      simpa using hother
  · intro hplace hcount
    rw [hplace, htraced.same] at hlooking
    constructor
    · rw [htraced.kept, List.eq_nil_of_length_eq_zero (s.queue.length_contents.trans hcount), List.append_nil]
      exact fun m hm => (hlooking m hm).symm
    · intro fuel data m n hm
      obtain ⟨s', hrun, hplace'⟩ := Client.run_of_waiting hplace hcount hm
      refine ⟨s', hrun, ?_⟩
      rw [hplace', htraced.same]
      simp only [requestFor, eq_comm]

/-- The queue of a client before anything was put into it. -/
def unusedBuff : List.Vector DnsMessage queueSize :=
  .replicate queueSize (requestFor false false (makeDnsQuery (chars "a") dnsRecordTypeA dnsRecordClassIn))

/-- A packet with the id and nothing else answers no question, and is printed. -/
theorem client_prints_first_id : ∃ s s' reply,
    Reached Client.step Client.Allowed
      (.init (requestFor false false (makeDnsQuery (chars "a") dnsRecordTypeA dnsRecordClassIn)) unusedBuff) s ∧
      run Client.step s [.arrive 1 [0x89, 0x50, 0, 0, 0, 0, 0, 0, 0, 0, 0, 0], .proceed, .proceed, .proceed] = some s' ∧
      s'.place = .printed reply (.ok (chars "number of queries: 0\nnumber of answer: 0\nnumber of authoritative answers: 0\n" ++
        chars "number of additional ans: 0\n")) ∧ reply.queries = [] ∧ reply.ans = [] := by
  let request := requestFor false false (makeDnsQuery (chars "a") dnsRecordTypeA dnsRecordClassIn)
  have hsize : (DnsProtocol.send request).map List.length = .ok 19 := by rfl
  obtain ⟨packet, hsend, -⟩ := (map_eq_ok_iff _ _ _).mp hsize
  have hstep := Client.proceed_send (s := .init request unusedBuff) rfl hsend
  have hreached : Reached Client.step Client.Allowed (.init request unusedBuff) _ :=
    Reached.start.step (a := ClientEvent.proceed) trivial hstep
  obtain ⟨-, -, -, hwaiting⟩ := client_prints_first false false _ unusedBuff hreached
  obtain ⟨s', hrun, hplace⟩ := (hwaiting rfl rfl).2 1 [0x89, 0x50, 0, 0, 0, 0, 0, 0, 0, 0, 0, 0] _ _ rfl
  exact ⟨_, s', _, hreached, hrun, hplace, rfl, rfl⟩

/-! ## With a server -/

/-- The record with which a server answers a question from its files. For a mail server it holds what `convert_to_rdata` makes
of the last one, which is its name without the last byte. -/
def answerFor (dbA dbMx : Option Bytes) (name : Bytes) (type class_ : UInt16) : Option DnsAnswer :=
  if type = dnsRecordTypeA then (lastRecord (addressRecords dbA) name).map (addressAnswer (makeDnsQuery name type class_))
  else if type = dnsRecordTypeMx then (lastRecord (filePairs dbMx) name).map (mxAnswer (makeDnsQuery name type class_))
  else none

/-- A reply to the question: it repeats it, and has what the files give for it, as it comes back, or one record of authority. -/
structure IsAnswer (dbA dbMx : Option Bytes) (name : Bytes) (type class_ : UInt16) (reply : DnsMessage) : Prop where
  id : reply.header.id = 0x8950
  qr : reply.header.qr = true
  queries : reply.queries = [makeDnsQuery name type class_]
  ans : reply.ans = ((answerFor dbA dbMx name type class_).map DnsAnswer.received).toList
  ansAuth : reply.ansAuth.length = if (answerFor dbA dbMx name type class_).isNone then 1 else 0
  authority : ∀ a ∈ reply.ansAuth, a.name = chars "some local dns server" ++ [0] ∧ a.type = dnsRecordTypeSoa
  queryCount : reply.header.queryCount = 1
  ansCount : reply.header.ansCount = UInt16.ofNat reply.ans.length
  authCount : reply.header.authCount = UInt16.ofNat reply.ansAuth.length
  addCount : reply.header.addCount = 0

/-- What is printed behind the name of the record with which the question is answered: the address that the files give, and
nothing of a mail server. -/
def printedData (dbA dbMx : Option Bytes) (name : Bytes) (type : UInt16) : Option Bytes :=
  if type = dnsRecordTypeA then (lastRecord (addressRecords dbA) name).map fun addr => chars "has ip4 addr: " ++ ip4AddrToStr addr
  else if type = dnsRecordTypeMx then (lastRecord (filePairs dbMx) name).map fun _ => []
  else none

/-- What is printed of an answer. -/
def printedAnswer (dbA dbMx : Option Bytes) (name : Bytes) (type : UInt16) : Bytes :=
  match printedData dbA dbMx name type with
  | some data =>
    chars "number of queries: 1\nnumber of answer: 1\nnumber of authoritative answers: 0\nnumber of additional ans: 0\n" ++
      (chars "answers:\n" ++ (chars "name: " ++ name ++ chars ", " ++ data ++ chars "\n"))
  | none =>
    chars "number of queries: 1\nnumber of answer: 0\nnumber of authoritative answers: 1\nnumber of additional ans: 0\n" ++
      (chars "authoritative answers:\n" ++ (chars "name: " ++ chars "some local dns server" ++ chars ", " ++ [] ++ chars "\n"))

variable {dbA dbMx : Option Bytes} {db : DnsDatabase}

/-- The record with which the question is answered, and what is printed of it. -/
theorem answerFor_cases (dbA dbMx : Option Bytes) (hname : NameOver AsciiByte (name ++ [0])) (type class_ : UInt16) :
    (answerFor dbA dbMx name type class_ = none ∧ printedData dbA dbMx name type = none) ∨
      ∃ a data, answerFor dbA dbMx name type class_ = some a ∧ printedData dbA dbMx name type = some data ∧
        printDnsRecord printAddress a.received = .ok (chars "name: " ++ name ++ chars ", " ++ data ++ chars "\n") := by
  have hstring : cString (makeDnsQuery name type class_).qName = .ok name := by
    have hstring := (cString_name hname).1
    rwa [List.dropLast_concat] at hstring
  have hne : dnsRecordTypeMx ≠ dnsRecordTypeA := by decide
  unfold answerFor printedData
  by_cases hA : type = dnsRecordTypeA
  · rw [if_pos hA, if_pos hA]
    cases lastRecord (addressRecords dbA) name with
    | none => exact .inl ⟨rfl, rfl⟩
    | some addr => exact .inr ⟨_, _, rfl, rfl, printDnsRecord_ok hstring (printAddress_received hA addr)⟩
  by_cases hMx : type = dnsRecordTypeMx
  · rw [if_neg hA, if_neg hA, if_pos hMx, if_pos hMx]
    cases lastRecord (filePairs dbMx) name with
    | none => exact .inl ⟨rfl, rfl⟩
    | some v => exact .inr ⟨_, _, rfl, rfl, printDnsRecord_ok hstring (printAddress_other hA)⟩
  · rw [if_neg hA, if_neg hA, if_neg hMx, if_neg hMx]
    exact .inl ⟨rfl, rfl⟩

/-- What is printed of an answer: no read of it faults. -/
theorem IsAnswer.printed (hname : NameOver AsciiByte (name ++ [0])) {reply : DnsMessage}
    (h : IsAnswer dbA dbMx name type class_ reply) :
    printDnsMessage reply false true = .ok (printedAnswer dbA dbMx name type) := by
  have hans := h.ans
  have hauth := h.ansAuth
  have hansCount := h.ansCount
  have hauthCount := h.authCount
  unfold printedAnswer
  obtain ⟨hanswer, hdata⟩ | ⟨a, data, hanswer, hdata, hline⟩ := answerFor_cases dbA dbMx hname type class_
  · rw [hanswer] at hans hauth
    obtain ⟨soa, hsoa⟩ := List.length_eq_one_iff.mp hauth
    obtain ⟨hsoaName, hsoaType⟩ := h.authority soa (hsoa ▸ List.mem_cons_self)
    have hstring : cString soa.name = .ok (chars "some local dns server") := by
      rw [hsoaName]
      decide
    have hline := printDnsRecord_ok hstring (printNameServer_other (a := soa) (by rw [hsoaType]; decide))
    rw [hans] at hansCount
    rw [hsoa] at hauthCount
    change _ = (0 : UInt16) at hansCount
    change _ = (1 : UInt16) at hauthCount
    have hcounts : printDnsCounts reply.header =
        chars "number of queries: 1\nnumber of answer: 0\nnumber of authoritative answers: 1\nnumber of additional ans: 0\n" := by
      rw [printDnsCounts, h.queryCount, hansCount, hauthCount, h.addCount]
      decide +kernel
    have hanswers : printSection (chars "answers:\n") (printDnsRecord printAddress) true reply.header.ansCount reply.ans =
        .ok [] := by
      rw [hansCount]
      exact printSection_zero ..
    have hauthorities := printSection_one (chars "authoritative answers:\n") _ hline
    rw [← hsoa, ← hauthCount] at hauthorities
    rw [printDnsMessage_ans h.addCount hanswers hauthorities, hcounts, hdata, List.append_nil]
  · rw [hanswer] at hans hauth
    have hnil := List.eq_nil_of_length_eq_zero hauth
    change _ = [a.received] at hans
    rw [hans] at hansCount
    rw [hnil] at hauthCount
    change _ = (1 : UInt16) at hansCount
    change _ = (0 : UInt16) at hauthCount
    have hcounts : printDnsCounts reply.header =
        chars "number of queries: 1\nnumber of answer: 1\nnumber of authoritative answers: 0\nnumber of additional ans: 0\n" := by
      rw [printDnsCounts, h.queryCount, hansCount, hauthCount, h.addCount]
      decide +kernel
    have hanswers := printSection_one (chars "answers:\n") _ hline
    rw [← hansCount, ← hans] at hanswers
    have hauthorities : printSection (chars "authoritative answers:\n") (printDnsRecord printNameServer) true reply.header.authCount
        reply.ansAuth = .ok [] := by
      rw [hauthCount]
      exact printSection_zero ..
    rw [printDnsMessage_ans h.addCount hanswers hauthorities, hcounts, hdata, List.append_nil]

/-- What the server adds for the question is what its files give. -/
theorem answerQuery_answerFor (hdb : Computes (DnsServer.loadDatabase dbA dbMx) db) (hname : NameOver AsciiByte (name ++ [0]))
    {frame : SoaFrame} {answers authAns : List DnsAnswer}
    (h : answerQuery db frame (makeDnsQuery name type class_) = .ok (answers, authAns)) :
    answers = (answerFor dbA dbMx name type class_).toList ∧
      authAns.length = (if (answerFor dbA dbMx name type class_).isNone then 1 else 0) ∧ ∀ a ∈ authAns, IsStartOfAuthority a := by
  obtain ⟨hstring, hascii⟩ := cString_name hname
  rw [List.dropLast_concat] at hstring hascii
  obtain ⟨hsearchA, hsearchMx⟩ := search_of_loadDatabase hdb hascii
  have hqueryString : cString (makeDnsQuery name type class_).qName = .ok name := hstring
  have hne : dnsRecordTypeMx ≠ dnsRecordTypeA := by decide
  obtain ⟨addr, hA, hfound, rfl, rfl⟩ | ⟨v, hMx, hfound, -, rfl, rfl⟩ | ⟨hA, hMx, a, ha, rfl, rfl⟩ := answerQuery_cases h
  · change type = dnsRecordTypeA at hA
    rw [hqueryString, ok_bind, hsearchA, Except.ok.injEq] at hfound
    rw [answerFor, if_pos hA, hfound]
    exact ⟨rfl, rfl, fun a ha => absurd ha List.not_mem_nil⟩
  · change type = dnsRecordTypeMx at hMx
    rw [hqueryString, ok_bind, hsearchMx, Except.ok.injEq] at hfound
    rw [answerFor, if_neg (hMx ▸ hne), if_pos hMx, hfound]
    exact ⟨rfl, rfl, fun a ha => absurd ha List.not_mem_nil⟩
  · rw [hqueryString, ok_bind, hsearchA, Except.ok.injEq] at hA
    rw [hqueryString, ok_bind, hsearchMx, Except.ok.injEq] at hMx
    have hnone : answerFor dbA dbMx name type class_ = none := by
      unfold answerFor
      by_cases htypeA : type = dnsRecordTypeA
      · rw [if_pos htypeA, hA htypeA]
        rfl
      rw [if_neg htypeA]
      by_cases htypeMx : type = dnsRecordTypeMx
      · rw [if_pos htypeMx, hMx htypeMx]
        rfl
      rw [if_neg htypeMx]
    rw [hnone]
    refine ⟨rfl, rfl, ?_⟩
    intro a' ha'
    rw [List.mem_singleton.mp ha']
    exact ⟨frame, ha⟩

/-- What the server sends for the request is an answer to it, when it comes back. -/
theorem isAnswer_of_receives (cd ad : Bool) (type class_ : UInt16) (hdb : Computes (DnsServer.loadDatabase dbA dbMx) db)
    (hname : NameOver AsciiByte (name ++ [0])) :
    DnsService.ServesOnly db (requestFor cd ad (makeDnsQuery name type class_)) (IsAnswer dbA dbMx name type class_) := by
  intro packet fuel stack data hsend hreceive reply hreply
  have hplain : NameOver Plain (name ++ [0]) := hname.mono fun _ hb => hb.plain
  obtain ⟨m, n, hrun, hhandle⟩ := (DnsServer.receive_eq_ok_iff ..).mp hreceive
  obtain rfl := eq_requestFor_of_receives hplain hsend ⟨n, fuel, hrun⟩
  obtain ⟨answers, authAns, hanswers, n', hback⟩ :=
    DnsServer.receives_of_handleRecv (requestFor_encodable hplain).queryNames hhandle
  obtain ⟨n'', hreply⟩ := hreply
  obtain rfl := (hreply.unique hback).1
  obtain ⟨query, answers₁, authAns₁, answers₂, authAns₂, hquery, h₁, h₂, rfl, rfl⟩ := answerQueries_succ hanswers
  obtain rfl : makeDnsQuery name type class_ = query := Option.some.inj hquery
  obtain ⟨rfl, rfl⟩ : [] = answers₂ ∧ [] = authAns₂ := Prod.mk.inj (Except.ok.inj h₂)
  obtain ⟨rfl, hlen, hsoa⟩ := answerQuery_answerFor hdb hname h₁
  exact {
    id := rfl
    qr := rfl
    queries := rfl
    ans := by
      show ((answerFor dbA dbMx name type class_).toList ++ []).map DnsAnswer.received = _
      rw [List.append_nil]
      cases answerFor dbA dbMx name type class_ <;> rfl
    ansAuth := by
      show ((authAns₁ ++ []).map DnsAnswer.received).length = _
      rw [List.append_nil, List.length_map, hlen]
    authority := by
      intro a ha
      obtain ⟨b, hb, rfl⟩ := List.mem_map.mp ha
      change b ∈ authAns₁ ++ [] at hb
      rw [List.append_nil] at hb
      obtain ⟨hsoaName, hsoaType, -⟩ := (hsoa b hb).fields
      exact ⟨hsoaName, hsoaType⟩
    queryCount := rfl
    ansCount := congrArg UInt16.ofNat (List.length_map _).symm
    authCount := congrArg UInt16.ofNat (List.length_map _).symm
    addCount := rfl }

/-- All that the server has sent, and the client got of it, is an answer. -/
theorem answered_of_run (hdb : Computes (DnsServer.loadDatabase dbA dbMx) db) (hname : NameOver AsciiByte (name ++ [0]))
    {buff : List.Vector DnsMessage queueSize} {es : List ServiceEvent} {s : DnsService}
    (hrun : run (DnsService.step db) (.init (requestFor cd ad (makeDnsQuery name type class_)) buff) es = some s) :
    s.Answered (IsAnswer dbA dbMx name type class_) (requestFor cd ad (makeDnsQuery name type class_)) :=
  invariant_of_run (P := DnsService.Answered (IsAnswer dbA dbMx name type class_) _)
    (fun _ _ _ _ hs h => hs.step (isAnswer_of_receives cd ad type class_ hdb hname) h) hrun (DnsService.answered_init _ buff)

theorem isAnswer_of_printed {s : DnsService}
    (hname : NameOver AsciiByte (name ++ [0]))
    (hs : s.Answered (IsAnswer dbA dbMx name type class_) (requestFor cd ad (makeDnsQuery name type class_))) {reply : DnsMessage}
    {text : Except Fault Bytes} (hprinted : s.client.place = .printed reply text) :
    IsAnswer dbA dbMx name type class_ reply ∧ text = .ok (printedAnswer dbA dbMx name type) := by
  have hheld := hs.held
  rw [hprinted] at hheld
  obtain ⟨hanswer, rfl⟩ := hheld
  exact ⟨hanswer, hanswer.printed hname⟩

/-- A request that can be sent, and that the server has a reply to. -/
theorem served_of_receive (hname : NameOver AsciiByte (name ++ [0])) {packet data : Bytes} {fuel : Nat} {stack : StackContents}
    (hsend : DnsProtocol.send (requestFor cd ad (makeDnsQuery name type class_)) = .ok packet)
    (hreceive : DnsServer.receive fuel db stack packet = .ok data) :
    DnsService.Served db (requestFor cd ad (makeDnsQuery name type class_)) := by
  have hplain : NameOver Plain (name ++ [0]) := hname.mono fun _ hb => hb.plain
  obtain ⟨m, n, hrun, hhandle⟩ := (DnsServer.receive_eq_ok_iff ..).mp hreceive
  obtain rfl := eq_requestFor_of_receives hplain hsend ⟨n, fuel, hrun⟩
  obtain ⟨_, _, -, hback⟩ := DnsServer.receives_of_handleRecv (requestFor_encodable hplain).queryNames hhandle
  exact ⟨packet, fuel, stack, data, _, hsend, hreceive, hback⟩

/-- The name `a`. -/
theorem nameOver_a : NameOver AsciiByte (chars "a" ++ [0]) := by
  refine ⟨[chars "a"], List.cons_ne_nil _ _, ?_, rfl⟩
  intro l hl
  obtain rfl := List.mem_singleton.mp hl
  refine ⟨by decide, by decide, ?_⟩
  intro b hb
  obtain rfl := List.mem_singleton.mp hb
  exact ⟨by decide, by decide, by decide⟩

/-- A server with an address for `a` has a reply to a request for it. -/
theorem served_of_address : ∃ db packet stack data fuel, Computes (DnsServer.loadDatabase (some (chars "a 0.0.0.0")) none) db ∧
    DnsProtocol.send (requestFor false false (makeDnsQuery (chars "a") dnsRecordTypeA dnsRecordClassIn)) = .ok packet ∧
    DnsServer.receive fuel db stack packet = .ok data := by
  have hpairs : filePairs (some (chars "a 0.0.0.0")) = [(chars "a", chars "0.0.0.0")] := by decide +kernel
  have hrecords : addressRecords (some (chars "a 0.0.0.0")) = [(chars "a", ip4AddrEmpty)] := by decide +kernel
  have hloadable : Loadable (some (chars "a 0.0.0.0")) none := by
    rw [Loadable, hpairs, hrecords]
    refine ⟨?_, ?_, fun p hp => absurd hp List.not_mem_nil⟩
    · intro p hp
      have hparsed : strToIp4Addr (chars "0.0.0.0") = .ok (some ip4AddrEmpty) := (isAddress_ip4AddrToStr ip4AddrEmpty).parsed
      rw [List.mem_singleton.mp hp, overflows_iff, hparsed]
      rintro ⟨e, he⟩
      cases he
    · intro r hr
      rw [List.mem_singleton.mp hr]
      exact (cString_name nameOver_a).2
  obtain ⟨db, hdb⟩ := (exists_loadDatabase_iff _ none).mpr hloadable
  obtain ⟨hstring, hascii⟩ := cString_name nameOver_a
  have hsearch := (search_of_loadDatabase hdb hascii).1
  rw [hrecords] at hsearch
  change db.searchRecordA (chars "a") = .ok (some ip4AddrEmpty) at hsearch
  let query := makeDnsQuery (chars "a") dnsRecordTypeA dnsRecordClassIn
  have hanswers : answerQueries db (fun _ => ascendingFrame) [query] 1 0 = .ok ([addressAnswer query ip4AddrEmpty], []) := by
    have hone : answerQuery db ascendingFrame query = .ok ([addressAnswer query ip4AddrEmpty], []) := by
      have htype : query.qType = dnsRecordTypeA := rfl
      have hqueryString : cString query.qName = .ok (chars "a") := hstring
      unfold answerQuery
      rw [if_pos htype, hqueryString, ok_bind, hsearch]
      rfl
    simp only [answerQueries, List.getElem?_cons_zero, hone]
    rfl
  have hplain : NameOver Plain (chars "a" ++ [0]) := nameOver_a.mono fun _ hb => hb.plain
  have hencodable := @requestFor_encodable false false (chars "a") dnsRecordTypeA dnsRecordClassIn hplain
  have hsize : (writeDnsMessage (requestFor false false query)).map List.length = .ok 19 := by rfl
  have hreplySize : (writeDnsMessage (replyTo false false (requestFor false false query) [addressAnswer query ip4AddrEmpty] [])).map
      List.length = .ok 36 := by rfl
  obtain ⟨data, hreply, hlen⟩ := (map_eq_ok_iff _ _ _).mp hreplySize
  obtain ⟨packet, hwrite, hsize⟩ := (map_eq_ok_iff _ _ _).mp hsize
  obtain ⟨fuel, hrun⟩ := extractDnsMessage_written hwrite hencodable.queryNames hencodable.recordNames []
  rw [List.append_nil] at hrun
  refine ⟨db, packet, ⟨fun _ => ascendingFrame, false, false⟩, data, fuel, hdb,
    send_eq_ok_iff.mpr ⟨hwrite, by rw [hsize]; decide⟩, ?_⟩
  refine (DnsServer.receive_eq_ok_iff ..).mpr ⟨_, _, hrun, ?_⟩
  exact (DnsServer.handleRecv_eq_ok_iff ..).mpr ⟨_, _, hanswers, hreply, by rw [hlen]; decide⟩

/-- Whatever the two files of a server contain, whatever plain name and type are asked for, and whatever the network loses,
keeps back and repeats, in whatever order: what the client prints is the answer that the files give. -/
theorem service_prints_answer (hdb : Computes (DnsServer.loadDatabase dbA dbMx) db) (hname : NameOver AsciiByte (name ++ [0]))
    (buff : List.Vector DnsMessage queueSize) {es : List ServiceEvent} {s : DnsService}
    (hrun : run (DnsService.step db) (.init (requestFor cd ad (makeDnsQuery name type class_)) buff) es = some s)
    {reply : DnsMessage} {text : Except Fault Bytes} (hprinted : s.client.place = .printed reply text) :
    IsAnswer dbA dbMx name type class_ reply ∧ text = .ok (printedAnswer dbA dbMx name type) :=
  isAnswer_of_printed hname (answered_of_run hdb hname hrun) hprinted

/-- The address of `a` is printed. -/
theorem service_prints_answer_address : ∃ db es s reply, Computes (DnsServer.loadDatabase (some (chars "a 0.0.0.0")) none) db ∧
    run (DnsService.step db)
      (.init (requestFor false false (makeDnsQuery (chars "a") dnsRecordTypeA dnsRecordClassIn)) unusedBuff) es = some s ∧
      s.client.place = .printed reply (.ok (printedAnswer (some (chars "a 0.0.0.0")) none (chars "a") dnsRecordTypeA)) ∧
      IsAnswer (some (chars "a 0.0.0.0")) none (chars "a") dnsRecordTypeA dnsRecordClassIn reply := by
  obtain ⟨db, packet, stack, data, fuel, hdb, hsend, hreceive⟩ := served_of_address
  have hserve := isAnswer_of_receives false false dnsRecordTypeA dnsRecordClassIn hdb nameOver_a
  have hserved := served_of_receive nameOver_a hsend hreceive
  obtain ⟨es, s, -, -, hrun, reply, text, hprinted⟩ :=
    (DnsService.answered_init _ unusedBuff).leads_printed (fun _ hm => hm.id) hserve hserved
  obtain ⟨hanswer, rfl⟩ := service_prints_answer hdb nameOver_a unusedBuff hrun hprinted
  exact ⟨db, es, s, reply, hdb, hrun, hprinted, hanswer⟩

/-- And wherever that has led, when the request can be sent and the server has a reply to it: within six steps, none of them a
wait that times out, the client can print the answer. -/
theorem service_reaches_answer (hdb : Computes (DnsServer.loadDatabase dbA dbMx) db) (hname : NameOver AsciiByte (name ++ [0]))
    (buff : List.Vector DnsMessage queueSize) {packet data : Bytes} {fuel : Nat} {stack : StackContents}
    (hsend : DnsProtocol.send (requestFor cd ad (makeDnsQuery name type class_)) = .ok packet)
    (hreceive : DnsServer.receive fuel db stack packet = .ok data) {es : List ServiceEvent} {s : DnsService}
    (hrun : run (DnsService.step db) (.init (requestFor cd ad (makeDnsQuery name type class_)) buff) es = some s) :
    LeadsWithin (DnsService.step db) DnsService.NoTimeout 6 s fun s' =>
      ∃ reply, s'.client.place = .printed reply (.ok (printedAnswer dbA dbMx name type)) ∧
        IsAnswer dbA dbMx name type class_ reply := by
  have hanswered := answered_of_run hdb hname hrun
  have hserve := isAnswer_of_receives cd ad type class_ hdb hname
  have hleads := hanswered.leads_printed (fun _ hm => hm.id) hserve (served_of_receive hname hsend hreceive)
  obtain ⟨es', t, hlen, hkind, hrun', ⟨reply, text, hprinted⟩, ht⟩ := hleads.keep (fun _ _ _ _ hs h => hs.step hserve h) hanswered
  obtain ⟨hanswer, rfl⟩ := isAnswer_of_printed hname ht hprinted
  exact ⟨es', t, hlen, hkind, hrun', reply, hprinted, hanswer⟩

/-- It can be printed six steps after the start. -/
theorem service_reaches_answer_address : ∃ db, Computes (DnsServer.loadDatabase (some (chars "a 0.0.0.0")) none) db ∧
    LeadsWithin (DnsService.step db) DnsService.NoTimeout 6
      (.init (requestFor false false (makeDnsQuery (chars "a") dnsRecordTypeA dnsRecordClassIn)) unusedBuff) fun s' =>
        ∃ reply, s'.client.place = .printed reply (.ok (printedAnswer (some (chars "a 0.0.0.0")) none (chars "a") dnsRecordTypeA)) ∧
          IsAnswer (some (chars "a 0.0.0.0")) none (chars "a") dnsRecordTypeA dnsRecordClassIn reply := by
  obtain ⟨db, packet, stack, data, fuel, hdb, hsend, hreceive⟩ := served_of_address
  have hrun (s : DnsService) : run (DnsService.step db) s [] = some s := rfl
  exact ⟨db, hdb, service_reaches_answer hdb nameOver_a unusedBuff hsend hreceive (hrun _)⟩

end DnsTool
end NetworkingFramework
