import NetworkingFramework.DnsClient
import NetworkingFramework.Lemmas.RecvQueue
import NetworkingFramework.Lib.Fueled

/-!
# Lemmas: a client of a DNS server

What holds of a client whatever arrives, and what it knows of the messages it has taken as long as none is overwritten while it
copies it.
-/

namespace NetworkingFramework.DnsTool.Client

open Wire Runs

/-- The requests that no wait has been lost on. -/
def pending (s : Client) : Nat :=
  match s.place with
  | .send | .faulted _ => 0
  | _ => 1

/-- What holds of a client, whatever arrives. -/
structure Traced (msg : DnsMessage) (s : Client) : Prop where
  same : s.msg = msg
  sent : ∀ data ∈ s.sent, DnsProtocol.send msg = .ok data
  asked : s.sent.length = s.timeouts + s.pending
  stored : ∀ m ∈ s.stored, ∃ data ∈ s.arrived, DnsProtocol.Receives data m
  kept : s.stored = s.taken ++ s.queue.contents
  faulted : ∀ fault, s.place = .faulted fault → DnsProtocol.send msg = .error fault

/-- What the client knows of the messages it has taken, where it is. -/
def Looking (s : Client) : Prop :=
  match s.place with
  | .send | .front => ∀ m ∈ s.taken, s.msg.header.id ≠ m.header.id
  | .popFront slot => slot = s.queue.slot 0 ∧ s.queue.count ≠ 0 ∧ ∀ m ∈ s.taken, s.msg.header.id ≠ m.header.id
  | .copy slot => ∃ before, s.queue.HoldsLast before s.taken slot ∧ ∀ m ∈ before, s.msg.header.id ≠ m.header.id
  | .printed reply text => ∃ before, s.taken = before ++ [reply] ∧ (∀ m ∈ before, s.msg.header.id ≠ m.header.id) ∧
      s.msg.header.id = reply.header.id ∧ text = printDnsMessage reply false true
  | .faulted _ => True

variable {msg : DnsMessage} {s s' : Client}

theorem traced_init (msg : DnsMessage) (buff : List.Vector DnsMessage queueSize) : (init msg buff).Traced msg where
  same := rfl
  sent := fun _ h => absurd h List.not_mem_nil
  asked := rfl
  stored := fun _ h => absurd h List.not_mem_nil
  kept := rfl
  faulted := fun _ h => by cases h

theorem looking_init (msg : DnsMessage) (buff : List.Vector DnsMessage queueSize) : (init msg buff).Looking := fun _ h =>
  absurd h List.not_mem_nil

/-! ## What the client does -/

theorem proceed_send (hplace : s.place = .send) {data : Bytes} (hsend : DnsProtocol.send s.msg = .ok data) :
    s.proceed = some { s with sent := s.sent ++ [data], place := .front } := by
  simp only [proceed, hplace, hsend]

theorem proceed_front (hplace : s.place = .front) (hcount : s.queue.count ≠ 0) :
    s.proceed = some { s with place := .popFront (s.queue.slot 0) } := by
  have hempty : ¬s.queue.isEmpty = true := by simpa [CircularQueue.isEmpty] using hcount
  simp only [proceed, hplace, if_neg hempty, s.queue.slot_zero]

theorem proceed_popFront {slot : Fin queueSize} (hplace : s.place = .popFront slot) : s.proceed =
    some { s with queue := s.queue.popFront.2, taken := s.taken ++ s.queue.front.toList, place := .copy slot } := by
  simp only [proceed, hplace]

theorem proceed_copy {slot : Fin queueSize} (hplace : s.place = .copy slot) : s.proceed =
    some { s with
      place := if s.msg.header.id ≠ (s.queue.buff.get slot).header.id then .front else
        .printed (s.queue.buff.get slot) (printDnsMessage (s.queue.buff.get slot) false true) } := by
  simp only [proceed, hplace]

/-- What a step of the client's own is. -/
theorem proceed_cases (h : s.proceed = some s') :
    (∃ fault, s.place = .send ∧ DnsProtocol.send s.msg = .error fault ∧ s' = { s with place := .faulted fault }) ∨
    (∃ data, s.place = .send ∧ DnsProtocol.send s.msg = .ok data ∧ s' = { s with sent := s.sent ++ [data], place := .front }) ∨
    (s.place = .front ∧ s.queue.count ≠ 0 ∧ s' = { s with place := .popFront (s.queue.slot 0) }) ∨
    (∃ slot, s.place = .popFront slot ∧
      s' = { s with queue := s.queue.popFront.2, taken := s.taken ++ s.queue.front.toList, place := .copy slot }) ∨
    (∃ slot, s.place = .copy slot ∧ s.msg.header.id ≠ (s.queue.buff.get slot).header.id ∧ s' = { s with place := .front }) ∨
    ∃ slot, s.place = .copy slot ∧ s.msg.header.id = (s.queue.buff.get slot).header.id ∧
      s' = { s with place := .printed (s.queue.buff.get slot) (printDnsMessage (s.queue.buff.get slot) false true) } := by
  cases hplace : s.place with
  | send =>
    cases hsend : DnsProtocol.send s.msg with
    | error fault =>
      simp only [proceed, hplace, hsend] at h
      exact .inl ⟨fault, rfl, rfl, (Option.some.inj h).symm⟩
    | ok data =>
      rw [proceed_send hplace hsend] at h
      exact .inr (.inl ⟨data, rfl, rfl, (Option.some.inj h).symm⟩)
  | front =>
    by_cases hcount : s.queue.count = 0
    · have hempty : s.queue.isEmpty = true := by simpa [CircularQueue.isEmpty] using hcount
      simp only [proceed, hplace, if_pos hempty] at h
      cases h
    · rw [proceed_front hplace hcount] at h
      exact .inr (.inr (.inl ⟨rfl, hcount, (Option.some.inj h).symm⟩))
  | popFront slot =>
    rw [proceed_popFront hplace] at h
    exact .inr (.inr (.inr (.inl ⟨slot, rfl, (Option.some.inj h).symm⟩)))
  | copy slot =>
    rw [proceed_copy hplace] at h
    obtain rfl := Option.some.inj h
    by_cases hid : s.msg.header.id = (s.queue.buff.get slot).header.id
    · rw [if_neg (not_not.mpr hid)]
      exact .inr (.inr (.inr (.inr (.inr ⟨slot, rfl, hid, rfl⟩))))
    · rw [if_pos hid]
      exact .inr (.inr (.inr (.inr (.inl ⟨slot, rfl, hid, rfl⟩))))
  | printed reply text | faulted fault =>
    simp only [proceed, hplace] at h
    cases h

/-- What a wait that times out does. -/
theorem step_timeout (h : s.step .timeout = some s') :
    s.place = .front ∧ s' = { s with timeouts := s.timeouts + 1, place := .send } := by
  simp only [step] at h
  split at h
  · next hwaits => exact ⟨hwaits.1, (Option.some.inj h).symm⟩
  · cases h

/-- What arrives is put into the queue. -/
theorem arrive_cases {fuel : Nat} {data : Bytes} (h : s.arrive fuel data = some s') :
    ∃ m, DnsProtocol.Receives data m ∧ s' = { s with arrived := s.arrived ++ [data] }.handleRecv m := by
  unfold arrive at h
  split at h
  · cases h
  · next m n hrun => exact ⟨m, ⟨n, fuel, hrun⟩, (Option.some.inj h).symm⟩

/-- A message that is put into the queue is stored, unless the queue is full. -/
theorem handleRecv_stored (s : Client) (m : DnsMessage) (h : s.stored = s.taken ++ s.queue.contents) :
    (s.handleRecv m).stored = s.taken ++ (s.handleRecv m).queue.contents ∧ (s.handleRecv m).stored ⊆ s.stored ++ [m] := by
  by_cases hfull : s.queue.count = queueSize
  · have hisFull : s.queue.isFull = true := by simpa [CircularQueue.isFull] using hfull
    rw [handleRecv, s.queue.pushBack_full m hfull, if_pos hisFull]
    exact ⟨h, List.subset_append_left _ _⟩
  · have hisFull : ¬s.queue.isFull = true := by simpa [CircularQueue.isFull] using hfull
    have hroom : s.queue.contents.length < queueSize := by
      have hle := s.queue.count_le
      rw [CircularQueue.length_contents]
      omega
    rw [handleRecv, if_neg hisFull, s.queue.contents_pushBack m hroom, h, List.append_assoc]
    exact ⟨rfl, fun _ hm => hm⟩

/-- In front of an empty queue, a message that arrives is the next one that is copied. -/
theorem run_of_waiting (hplace : s.place = .front) (hcount : s.queue.count = 0) {fuel : Nat} {n : Int} {data : Bytes}
    {m : DnsMessage}
    (hm : (extractDnsMessage.run fuel).run data 0 = .ok (m, n)) :
    ∃ s', run step s [.arrive fuel data, .proceed, .proceed, .proceed] = some s' ∧
      s'.place = if s.msg.header.id = m.header.id then .printed m (printDnsMessage m false true) else .front := by
  have hempty : s.queue.contents = [] := List.eq_nil_of_length_eq_zero (s.queue.length_contents.trans hcount)
  have hcontents : (s.queue.pushBack m).2.contents = [m] := by
    rw [s.queue.contents_pushBack m (by rw [hempty]; decide), hempty, List.nil_append]
  have hone : (s.queue.pushBack m).2.count ≠ 0 := by
    rw [← CircularQueue.length_contents, hcontents]
    exact Nat.one_ne_zero
  have hfirst : (s.queue.pushBack m).2.buff.get ((s.queue.pushBack m).2.slot 0) = m := by
    have hcons := (s.queue.pushBack m).2.contents_eq_cons hone
    exact (List.cons.inj (hcontents.symm.trans hcons)).1.symm
  let t := { s with arrived := s.arrived ++ [data] }.handleRecv m
  have harrive : s.step (.arrive fuel data) = some t := by
    simp only [step, arrive, hm]
    rfl
  have hfront : t.step .proceed = some { t with place := .popFront (t.queue.slot 0) } := proceed_front hplace hone
  have hpop := proceed_popFront (s := { t with place := .popFront (t.queue.slot 0) }) rfl
  have hcopy := proceed_copy (s := { t with
    queue := t.queue.popFront.2, taken := t.taken ++ t.queue.front.toList, place := .copy (t.queue.slot 0) }) rfl
  refine ⟨_, run_cons_eq_some_iff.mpr ⟨_, harrive, run_cons_eq_some_iff.mpr ⟨_, hfront, run_cons_eq_some_iff.mpr ⟨_, hpop,
    run_cons_eq_some_iff.mpr ⟨_, hcopy, rfl⟩⟩⟩⟩, ?_⟩
  show (if s.msg.header.id ≠ (t.queue.popFront.2.buff.get (t.queue.slot 0)).header.id then _ else _) = _
  rw [CircularQueue.buff_popFront, ite_not]
  exact hfirst.symm ▸ rfl

/-! ## Whatever arrives -/

theorem Traced.proceed (hs : s.Traced msg) (h : s.proceed = some s') : s'.Traced msg := by
  have hasked := hs.asked
  unfold pending at hasked
  obtain ⟨fault, hplace, hsend, rfl⟩ | ⟨data, hplace, hsend, rfl⟩ | ⟨hplace, -, rfl⟩ | ⟨slot, hplace, rfl⟩ |
    ⟨slot, hplace, -, rfl⟩ | ⟨slot, hplace, -, rfl⟩ := proceed_cases h
  · rw [hplace] at hasked
    refine { hs with asked := hasked, faulted := ?_ }
    intro fault' hfault
    obtain rfl := Place.faulted.inj hfault
    rw [← hs.same]
    exact hsend
  · rw [hplace] at hasked
    refine { hs with sent := ?_, asked := ?_, faulted := fun _ h => by cases h }
    · intro data' hdata'
      rcases List.mem_append.mp hdata' with hdata' | hdata'
      · exact hs.sent data' hdata'
      · rw [List.mem_singleton.mp hdata', ← hs.same]
        exact hsend
    · show (s.sent ++ [data]).length = s.timeouts + 1
      rw [List.length_append, List.length_singleton]
      exact congrArg (· + 1) hasked
  · rw [hplace] at hasked
    exact { hs with asked := hasked, faulted := fun _ h => by cases h }
  · rw [hplace] at hasked
    refine { hs with asked := hasked, kept := ?_, faulted := fun _ h => by cases h }
    show s.stored = s.taken ++ s.queue.front.toList ++ s.queue.popFront.2.contents
    rw [hs.kept, s.queue.front_eq, s.queue.contents_popFront, List.append_assoc]
    cases s.queue.contents <;> rfl
  · rw [hplace] at hasked
    exact { hs with asked := hasked, faulted := fun _ h => by cases h }
  · rw [hplace] at hasked
    exact { hs with asked := hasked, faulted := fun _ h => by cases h }

theorem Traced.step (hs : s.Traced msg) {e : ClientEvent} (h : s.step e = some s') : s'.Traced msg := by
  cases e with
  | arrive fuel data =>
    obtain ⟨m, hreceives, rfl⟩ := arrive_cases h
    obtain ⟨hkept, hsub⟩ := handleRecv_stored { s with arrived := s.arrived ++ [data] } m hs.kept
    refine { hs with stored := ?_, kept := hkept }
    intro m' hm'
    rcases List.mem_append.mp (hsub hm') with hm' | hm'
    · obtain ⟨data', hdata', hreceives'⟩ := hs.stored m' hm'
      exact ⟨data', List.mem_append_left _ hdata', hreceives'⟩
    · rw [List.mem_singleton.mp hm']
      exact ⟨data, List.mem_append_right _ List.mem_cons_self, hreceives⟩
  | timeout =>
    obtain ⟨hplace, rfl⟩ := step_timeout h
    have hasked := hs.asked
    unfold pending at hasked
    rw [hplace] at hasked
    exact { hs with asked := hasked, faulted := fun _ h => by cases h }
  | proceed => exact hs.proceed h

/-! ## While nothing is overwritten -/

theorem Looking.proceed (hs : s.Looking) (h : s.proceed = some s') : s'.Looking := by
  unfold Looking at hs
  obtain ⟨fault, hplace, -, rfl⟩ | ⟨data, hplace, -, rfl⟩ | ⟨hplace, hcount, rfl⟩ | ⟨slot, hplace, rfl⟩ |
    ⟨slot, hplace, hid, rfl⟩ | ⟨slot, hplace, hid, rfl⟩ := proceed_cases h
  · trivial
  · rw [hplace] at hs
    exact hs
  · rw [hplace] at hs
    exact ⟨rfl, hcount, hs⟩
  · rw [hplace] at hs
    obtain ⟨rfl, hcount, hothers⟩ := hs
    exact ⟨s.taken, CircularQueue.holdsLast_popFront hcount s.taken, hothers⟩
  · rw [hplace] at hs
    obtain ⟨before, hlast, hothers⟩ := hs
    intro m hm
    change m ∈ s.taken at hm
    rw [hlast.behind] at hm
    rcases List.mem_append.mp hm with hm | hm
    · exact hothers m hm
    · rw [List.mem_singleton.mp hm]
      exact hid
  · rw [hplace] at hs
    obtain ⟨before, hlast, hothers⟩ := hs
    exact ⟨before, hlast.behind, hothers, hid, rfl⟩

/-- A message that is put into the queue leaves the one that is copied where it is. -/
theorem Looking.handleRecv (hs : s.Looking) (hkeeps : ¬s.Overwrites) (m : DnsMessage) : (s.handleRecv m).Looking := by
  unfold Looking at *
  rw [show (s.handleRecv m).place = s.place from rfl]
  cases hplace : s.place with
  | send | front | printed reply text | faulted fault =>
    rw [hplace] at hs
    exact hs
  | popFront slot =>
    rw [hplace] at hs
    obtain ⟨hslot, hcount, hothers⟩ := hs
    have hle := s.queue.count_le_pushBack m
    refine ⟨?_, fun hzero => hcount (Nat.eq_zero_of_le_zero (hzero ▸ hle)), hothers⟩
    rw [hslot]
    exact (s.queue.slot_pushBack m 0).symm
  | copy slot =>
    rw [hplace] at hs
    obtain ⟨before, hlast, hothers⟩ := hs
    exact ⟨before, (hlast.pushBack (fun hcount => hkeeps (by simpa [Overwrites, hplace] using hcount)) m).1, hothers⟩

theorem Looking.step (hs : s.Looking) {e : ClientEvent} (hallowed : s.Allowed e) (h : s.step e = some s') : s'.Looking := by
  cases e with
  | arrive fuel data =>
    obtain ⟨m, -, rfl⟩ := arrive_cases h
    exact Looking.handleRecv (s := { s with arrived := s.arrived ++ [data] }) hs hallowed m
  | timeout =>
    obtain ⟨hplace, rfl⟩ := step_timeout h
    unfold Looking at hs
    rw [hplace] at hs
    exact hs
  | proceed => exact hs.proceed h

end NetworkingFramework.DnsTool.Client

namespace NetworkingFramework.DnsService

open Wire Runs DnsTool

variable {Good : DnsMessage → Prop} {msg : DnsMessage} {database : DnsDatabase} {s s' : DnsService}

/-! ## With a server -/

/-- All that the server has sent, and all that the client has got of it, is good. -/
structure Answered (Good : DnsMessage → Prop) (msg : DnsMessage) (s : DnsService) : Prop where
  client : s.client.Traced msg
  replies : ∀ data ∈ s.replies, ∀ m, DnsProtocol.Receives data m → Good m
  queued : ∀ m ∈ s.client.queue.contents, Good m
  held : match s.client.place with
    | .popFront slot => slot = s.client.queue.slot 0 ∧ s.client.queue.count ≠ 0
    | .copy slot => Good (s.client.queue.buff.get slot)
    | .printed reply text => Good reply ∧ text = printDnsMessage reply false true
    | _ => True

theorem answered_init (msg : DnsMessage) (buff : List.Vector DnsMessage queueSize) : (init msg buff).Answered Good msg where
  client := Client.traced_init msg buff
  replies := fun _ h => absurd h List.not_mem_nil
  queued := fun _ h => absurd h List.not_mem_nil
  held := trivial

theorem stepClient_cases {e : ClientEvent} (h : s.stepClient e = some s') :
    ∃ client, s.client.step e = some client ∧ s' = { s with client } := by
  obtain ⟨client, hstep, rfl⟩ := Option.map_eq_some_iff.mp h
  exact ⟨client, hstep, rfl⟩

/-- A good message is put into the queue, wherever in its buffer. -/
theorem Answered.deliver (hs : s.Answered Good msg) {data : Bytes} (hdata : data ∈ s.replies) {fuel : Nat}
    (h : s.stepClient (.arrive fuel data) = some s') : s'.Answered Good msg := by
  obtain ⟨client, hstep, rfl⟩ := stepClient_cases h
  have hclient := hs.client.step hstep
  obtain ⟨m, hreceives, rfl⟩ := Client.arrive_cases hstep
  have hgood := hs.replies data hdata m hreceives
  have hheld := hs.held
  by_cases hfull : s.client.queue.count = queueSize
  · refine ⟨hclient, hs.replies, ?_, ?_⟩
    · show ∀ m' ∈ (s.client.queue.pushBack m).2.contents, Good m'
      rw [s.client.queue.pushBack_full m hfull]
      exact hs.queued
    · simp only [Client.handleRecv, s.client.queue.pushBack_full m hfull]
      exact hheld
  · have hroom : s.client.queue.contents.length < queueSize := by
      have hle := s.client.queue.count_le
      rw [CircularQueue.length_contents]
      omega
    refine ⟨hclient, hs.replies, ?_, ?_⟩
    · show ∀ m' ∈ (s.client.queue.pushBack m).2.contents, Good m'
      rw [s.client.queue.contents_pushBack m hroom]
      intro m' hm'
      rcases List.mem_append.mp hm' with hm' | hm'
      · exact hs.queued m' hm'
      · rw [List.mem_singleton.mp hm']
        exact hgood
    · simp only [Client.handleRecv]
      cases hplace : s.client.place with
      | popFront slot =>
        rw [hplace] at hheld
        have hle := s.client.queue.count_le_pushBack m
        exact ⟨hheld.1.trans (s.client.queue.slot_pushBack m 0).symm, fun hzero => hheld.2 (Nat.eq_zero_of_le_zero (hzero ▸ hle))⟩
      | copy slot =>
        rw [hplace] at hheld
        show Good ((s.client.queue.pushBack m).2.buff.get slot)
        rw [s.client.queue.buff_pushBack m hfull]
        by_cases hslot : s.client.queue.slot s.client.queue.count = slot
        · rw [hslot, List.Vector.get_set_same]
          exact hgood
        · rw [List.Vector.get_set_of_ne hslot]
          exact hheld
      | printed reply text =>
        rw [hplace] at hheld
        exact hheld
      | send | front | faulted fault => trivial

theorem Answered.proceed (hs : s.Answered Good msg) (h : s.stepClient .proceed = some s') : s'.Answered Good msg := by
  obtain ⟨client, hstep, rfl⟩ := stepClient_cases h
  have hclient := hs.client.step hstep
  have hheld := hs.held
  obtain ⟨fault, hplace, -, rfl⟩ | ⟨data, hplace, -, rfl⟩ | ⟨hplace, hcount, rfl⟩ | ⟨slot, hplace, rfl⟩ |
    ⟨slot, hplace, -, rfl⟩ | ⟨slot, hplace, -, rfl⟩ := Client.proceed_cases hstep
  · exact ⟨hclient, hs.replies, hs.queued, trivial⟩
  · exact ⟨hclient, hs.replies, hs.queued, trivial⟩
  · exact ⟨hclient, hs.replies, hs.queued, rfl, hcount⟩
  · rw [hplace] at hheld
    obtain ⟨rfl, hcount⟩ := hheld
    have hcons := s.client.queue.contents_eq_cons hcount
    refine ⟨hclient, hs.replies, ?_, ?_⟩
    · show ∀ m ∈ s.client.queue.popFront.2.contents, Good m
      rw [s.client.queue.contents_popFront]
      exact fun m hm => hs.queued m (List.mem_of_mem_tail hm)
    · show Good (s.client.queue.popFront.2.buff.get (s.client.queue.slot 0))
      rw [s.client.queue.buff_popFront]
      exact hs.queued _ (hcons ▸ List.mem_cons_self)
  · exact ⟨hclient, hs.replies, hs.queued, trivial⟩
  · rw [hplace] at hheld
    exact ⟨hclient, hs.replies, hs.queued, hheld, rfl⟩

/-- What the server answers to the request, when it does, is good. -/
def ServesOnly (database : DnsDatabase) (msg : DnsMessage) (Good : DnsMessage → Prop) : Prop :=
  ∀ packet fuel stack data, DnsProtocol.send msg = .ok packet → DnsServer.receive fuel database stack packet = .ok data →
    ∀ m, DnsProtocol.Receives data m → Good m

/-- The request can be sent, and the server has an answer to it. -/
def Served (database : DnsDatabase) (msg : DnsMessage) : Prop :=
  ∃ packet fuel stack data m, DnsProtocol.send msg = .ok packet ∧ DnsServer.receive fuel database stack packet = .ok data ∧
    DnsProtocol.Receives data m

/-- Where the server answers with good messages only, so it stays. -/
theorem Answered.step (hs : s.Answered Good msg) (hserve : ServesOnly database msg Good) {e : ServiceEvent}
    (h : s.step database e = some s') : s'.Answered Good msg := by
  cases e with
  | serve index fuel stack =>
    simp only [DnsService.step] at h
    split at h
    · cases h
    · next packet hpacket =>
      split at h
      · cases h
      · next data hreceive =>
        obtain rfl := Option.some.inj h
        have hsent := hs.client.sent packet (List.mem_of_getElem? hpacket)
        refine ⟨hs.client, ?_, hs.queued, hs.held⟩
        intro data' hdata' m hm
        rcases List.mem_append.mp hdata' with hdata' | hdata'
        · exact hs.replies data' hdata' m hm
        · rw [List.mem_singleton.mp hdata'] at hm
          exact hserve packet fuel stack data hsent hreceive m hm
  | deliver index fuel =>
    simp only [DnsService.step] at h
    split at h
    · cases h
    · next data hdata => exact hs.deliver (List.mem_of_getElem? hdata) h
  | timeout =>
    obtain ⟨client, hstep, rfl⟩ := stepClient_cases h
    have hclient := hs.client.step hstep
    obtain ⟨-, rfl⟩ := Client.step_timeout hstep
    exact ⟨hclient, hs.replies, hs.queued, trivial⟩
  | proceed => exact hs.proceed h

/-! ## Until a reply is printed -/

/-- A reply is printed. -/
def Printed (s : DnsService) : Prop := ∃ reply text, s.client.place = .printed reply text

/-- The client does not wait in vain. -/
def NoTimeout : ServiceEvent → Prop
  | .timeout => False
  | .serve _ _ _ | .deliver _ _ | .proceed => True

theorem step_proceed (database : DnsDatabase) {client : Client} (h : s.client.proceed = some client) :
    s.step database .proceed = some { s with client } := by
  show (s.client.proceed).map _ = _
  rw [h]
  rfl

theorem leads_of_proceed {n : Nat} (h : LeadsWithin (DnsService.step database) NoTimeout n s' Printed)
    (hstep : s.step database .proceed = some s') : LeadsWithin (DnsService.step database) NoTimeout (n + 1) s Printed :=
  h.of_step (a := ServiceEvent.proceed) trivial hstep

theorem Answered.leads_copy (hs : s.Answered Good msg) (hid : ∀ m, Good m → m.header.id = msg.header.id) {slot : Fin queueSize}
    (hplace : s.client.place = .copy slot) : LeadsWithin (DnsService.step database) NoTimeout 1 s Printed := by
  have hheld := hs.held
  rw [hplace] at hheld
  have hstep := Client.proceed_copy hplace
  rw [hs.client.same, if_neg (not_not.mpr (hid _ hheld).symm)] at hstep
  exact leads_of_proceed (leadsWithin_now ⟨_, _, rfl⟩) (step_proceed database hstep)

theorem Answered.leads_popFront (hs : s.Answered Good msg) (hid : ∀ m, Good m → m.header.id = msg.header.id) {slot : Fin queueSize}
    (hplace : s.client.place = .popFront slot) : LeadsWithin (DnsService.step database) NoTimeout 2 s Printed := by
  have hstep := step_proceed database (Client.proceed_popFront hplace)
  have hnext := hs.proceed hstep
  exact leads_of_proceed (hnext.leads_copy hid rfl) hstep

theorem Answered.leads_front (hs : s.Answered Good msg) (hid : ∀ m, Good m → m.header.id = msg.header.id)
    (hplace : s.client.place = .front) (hcount : s.client.queue.count ≠ 0) :
    LeadsWithin (DnsService.step database) NoTimeout 3 s Printed := by
  have hstep := step_proceed database (Client.proceed_front hplace hcount)
  have hnext := hs.proceed hstep
  exact leads_of_proceed (hnext.leads_popFront hid rfl) hstep

/-- In front of an empty queue, a request is on its way. It is served, and the reply put into the queue. -/
theorem Answered.leads_waiting (hs : s.Answered Good msg) (hid : ∀ m, Good m → m.header.id = msg.header.id)
    (hserve : ServesOnly database msg Good) (hanswers : Served database msg)
    (hplace : s.client.place = .front) (hcount : s.client.queue.count = 0) :
    LeadsWithin (DnsService.step database) NoTimeout 5 s Printed := by
  have hasked := hs.client.asked
  unfold Client.pending at hasked
  rw [hplace] at hasked
  obtain ⟨packet, sent, hsent⟩ := List.exists_cons_of_length_eq_add_one hasked
  obtain ⟨packet', fuel, stack, data, m, hsend, hreceive, n, fuel', hm⟩ := hanswers
  obtain rfl : packet = packet' := Except.ok.inj ((hs.client.sent packet (hsent ▸ List.mem_cons_self)).symm.trans hsend)
  have hfirst : s.step database (.serve 0 fuel stack) = some { s with replies := s.replies ++ [data] } := by
    simp only [DnsService.step, hsent, List.getElem?_cons_zero, hreceive]
  have hserved := hs.step hserve hfirst
  have hlast : (s.replies ++ [data])[s.replies.length]? = some data := by simp
  have harrive : s.client.arrive fuel' data = some ({ s.client with arrived := s.client.arrived ++ [data] }.handleRecv m) := by
    simp only [Client.arrive, hm]
  have hsecond : DnsService.step database { s with replies := s.replies ++ [data] } (.deliver s.replies.length fuel') =
      some ⟨{ s.client with arrived := s.client.arrived ++ [data] }.handleRecv m, s.replies ++ [data]⟩ := by
    simp only [DnsService.step, hlast, stepClient, Client.step, harrive, Option.map_some]
  have hdelivered := hserved.step hserve hsecond
  have hstored : (s.client.queue.pushBack m).2.count ≠ 0 := by
    have hempty : s.client.queue.contents = [] := List.eq_nil_of_length_eq_zero (s.client.queue.length_contents.trans hcount)
    rw [← CircularQueue.length_contents, s.client.queue.contents_pushBack m (by rw [hempty]; decide), hempty]
    exact Nat.one_ne_zero
  have hthen := (hdelivered.leads_front hid hplace hstored).of_step (a := ServiceEvent.deliver _ _) trivial hsecond
  exact hthen.of_step (a := ServiceEvent.serve _ _ _) trivial hfirst

/-- From wherever the client is, when the request can be sent and the server has an answer to it. -/
theorem Answered.leads_printed (hs : s.Answered Good msg) (hid : ∀ m, Good m → m.header.id = msg.header.id)
    (hserve : ServesOnly database msg Good) (hanswers : Served database msg) :
    LeadsWithin (DnsService.step database) NoTimeout 6 s Printed := by
  obtain ⟨packet, -, -, -, -, hsend, -⟩ := id hanswers
  cases hplace : s.client.place with
  | send =>
    have hstep := step_proceed database (Client.proceed_send hplace (hs.client.same ▸ hsend))
    have hnext := hs.proceed hstep
    by_cases hcount : s.client.queue.count = 0
    · exact leads_of_proceed (hnext.leads_waiting hid hserve hanswers rfl hcount) hstep
    · exact (leads_of_proceed (hnext.leads_front hid rfl hcount) hstep).mono (by decide)
  | front =>
    by_cases hcount : s.client.queue.count = 0
    · exact (hs.leads_waiting hid hserve hanswers hplace hcount).mono (by decide)
    · exact (hs.leads_front hid hplace hcount).mono (by decide)
  | popFront slot => exact (hs.leads_popFront hid hplace).mono (by decide)
  | copy slot => exact (hs.leads_copy hid hplace).mono (by decide)
  | printed reply text => exact leadsWithin_now ⟨reply, text, hplace⟩
  | faulted fault => cases hsend.symm.trans (hs.client.faulted fault hplace)

end NetworkingFramework.DnsService
