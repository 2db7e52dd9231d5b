import Mathlib.Data.Set.List
import NetworkingFramework.Lemmas.ArpSearch
import NetworkingFramework.Lemmas.HeaderCodecs

/-!
# Searches for hardware addresses

A search returns what the first stored reply for its address says, and each wait and each other reply has cost one more request.
Once an answer is in the queue the tool comes to it by itself. Whoever announces a pair is believed.
-/

namespace NetworkingFramework.ArpTool

open Wire Runs

/-- The first of some replies for an address. -/
structure IsFirstAnswer (searchedIp : Ip4Addr) (replies before : List ArpHeader) (reply : ArpHeader) : Prop where
  behind : before ++ [reply] <+: replies
  others : ∀ other ∈ before, senderIp other ≠ some searchedIp
  answers : senderIp reply = some searchedIp

theorem IsOther.ne {searchedIp : Ip4Addr} {reply : ArpHeader} (h : IsOther searchedIp reply) :
    senderIp reply ≠ some searchedIp := by
  unfold IsOther at h
  obtain ⟨ip, hip, hne⟩ := h
  rw [hip]
  exact fun heq => hne (Option.some.inj heq)

namespace Search

variable {searchedIp : Ip4Addr} {srcMac : MacAddr} {srcIp : Ip4Addr} {buff : List.Vector ArpHeader queueSize} {s s' : Search}

/-! ## Announcements -/

/-- The reply that announces a pair. -/
def announced (pair : Ip4Addr × MacAddr) : ArpHeader := header arpOpReply pair.2 pair.1 macAddrEmpty ip4AddrEmpty

/-- The frame that announces that 192.168.0.7 is at 02:00:00:00:00:01. -/
def announcement : Bytes := ((announceNewPair ⟨⟨[192, 168, 0, 7], rfl⟩⟩ ⟨⟨[2, 0, 0, 0, 0, 1], rfl⟩⟩).toOption).getD []

/-- A queue's buffer. -/
def emptyBuff : List.Vector ArpHeader queueSize := List.Vector.replicate _ (announced (ip4AddrEmpty, macAddrEmpty))

/-- A search for 192.168.0.7. -/
def searching : Search := init ⟨⟨[192, 168, 0, 7], rfl⟩⟩ macAddrEmpty ip4AddrEmpty emptyBuff

/-! ## The first answer -/

theorem consistent_of_reached (h : Reached Search.step Allowed (init searchedIp srcMac srcIp buff) s) :
    s.Consistent searchedIp srcMac srcIp :=
  h.invariant (P := fun s => s.Consistent searchedIp srcMac srcIp) (consistent_init searchedIp srcMac srcIp buff)
    fun _ _ _ hs hallowed hstep => hs.step hallowed hstep

/-- Where the search has returned. -/
theorem Consistent.firstAnswer (hs : s.Consistent searchedIp srcMac srcIp) {res : MacAddr} (hplace : s.place = .returned res) :
    ∃ before reply, IsFirstAnswer searchedIp s.stored before reply ∧ senderMac reply = some res ∧
      s.sent.length = s.timeouts + before.length + 1 := by
  have hlooking := hs.looking
  unfold Looking at hlooking
  rw [hplace, hs.ip] at hlooking
  obtain ⟨before, reply, htaken, hothers, hip, hmac⟩ := hlooking
  have hasked := hs.asked (by simp [hplace])
  simp only [unanswered, hplace, htaken, List.length_append, List.length_singleton] at hasked
  exact ⟨before, reply, ⟨htaken ▸ hs.began, fun other hother => (hothers other hother).ne, hip⟩, hmac, hasked⟩

/-- A search that returns has found the hardware address of the first reply for its address of those that were put into the
queue, each of which came in a frame, and has sent the same request once, and once more for each wait that timed out and each
reply of another in front. It faults only where a malformed frame has come. This as long as no reply is overwritten while it is
read. -/
theorem search_returns_first_answer (searchedIp : Ip4Addr) (srcMac : MacAddr) (srcIp : Ip4Addr)
    (buff : List.Vector ArpHeader queueSize) (s : Search)
    (h : Reached Search.step Allowed (init searchedIp srcMac srcIp buff) s) :
    (∀ res, s.place = .returned res → ∃ before reply, IsFirstAnswer searchedIp s.stored before reply ∧ senderMac reply = some res ∧
      s.sent.length = s.timeouts + before.length + 1) ∧
    (∀ reply ∈ s.stored, ∃ data ∈ s.arrived, ArpProtocol.connectRecv (some arpOpReply) data = .ok [reply]) ∧
    (∀ frame ∈ s.sent, ArpProtocol.send (request srcMac srcIp searchedIp) = .ok frame) ∧
    (∀ fault, s.place = .faulted fault → ∃ data ∈ s.arrived, Malformed data) := by
  have hs := consistent_of_reached h
  refine ⟨fun res hplace => hs.firstAnswer hplace, hs.stored, hs.sent, fun fault hplace => ?_⟩
  have hlooking := hs.looking
  unfold Looking at hlooking
  rw [hplace] at hlooking
  exact hlooking

/-- The announcement arrives, and the search returns. -/
theorem search_returns_first_answer_announced : ∃ s,
    run Search.step searching (.arrive announcement :: List.replicate 6 .proceed) = some s ∧
    s.place = .returned ⟨⟨[2, 0, 0, 0, 0, 1], rfl⟩⟩ ∧
    ∃ before reply, IsFirstAnswer ⟨⟨[192, 168, 0, 7], rfl⟩⟩ s.stored before reply ∧
      senderMac reply = some ⟨⟨[2, 0, 0, 0, 0, 1], rfl⟩⟩ ∧ s.sent.length = s.timeouts + before.length + 1 := by
  refine ⟨_, rfl, rfl, (search_returns_first_answer _ macAddrEmpty ip4AddrEmpty emptyBuff _ ?_).1 _ rfl⟩
  exact (Reached.step (a := .arrive announcement) .start id rfl).of_run (List.replicate 6 .proceed)
    (fun _ _ h => List.eq_of_mem_replicate h ▸ trivial) rfl

/-! ## The tool comes to the answer -/

/-- How far the tool is from having looked at what is in the queue. -/
def distance (s : Search) : Nat :=
  6 * s.queue.count + match s.place with
    | .popFront _ => 0
    | .front => 1
    | .send => 2
    | .clear _ => 3
    | .readMac _ => 4
    | .readIp _ => 5
    | .returned _ | .faulted _ => 0

/-- The tool is running, an answer is among the replies that are stored, and no malformed frame has come. -/
structure Answerable (searchedIp : Ip4Addr) (srcMac : MacAddr) (srcIp : Ip4Addr) (replies : List ArpHeader)
    (s : Search) : Prop where
  consistent : s.Consistent searchedIp srcMac srcIp
  running : s.IsRunning
  wellFormed : ∀ data ∈ s.arrived, ¬Malformed data
  stored : s.stored = replies
  answer : ∃ reply ∈ replies, senderIp reply = some searchedIp

/-- The tool's next step. -/
theorem Answerable.exists_proceed {replies : List ArpHeader} (h : s.Answerable searchedIp srcMac srcIp replies) :
    ∃ s', s.proceed = some s' ∧ s'.stored = s.stored ∧ s'.arrived = s.arrived ∧
      (s'.IsRunning ∧ s'.distance < s.distance ∨ ∃ res, s'.place = .returned res) := by
  obtain ⟨hs, hrunning, hwell, rfl, hanswer⟩ := h
  have hlooking := hs.looking
  have hkept := hs.kept hrunning
  have hreadable : ∀ reply ∈ s.taken, ¬(senderIp reply = none ∨ senderMac reply = none) := by
    intro reply hmem hnone
    obtain ⟨data, hdata, hmalformed⟩ := hs.malformed hmem hnone
    exact hwell data hdata hmalformed
  unfold Looking at hlooking
  cases hplace : s.place with
  | send =>
    obtain ⟨frame, hframe, -⟩ := send_header arpOpRequest srcMac srcIp macAddrEmpty searchedIp
    have hsend : ArpProtocol.send s.arpHeader = .ok frame := by
      rw [hs.header]
      exact hframe
    refine ⟨{ s with sent := s.sent ++ [frame], place := .front }, by simp only [Search.proceed, hplace, hsend], rfl, rfl, ?_⟩
    exact .inl ⟨trivial, by simp [distance, hplace]⟩
  | front =>
    rw [hplace] at hlooking
    have hnonempty : ¬s.queue.isEmpty = true := by
      intro hempty
      obtain ⟨reply, hmem, hip⟩ := hanswer
      rw [hkept, s.queue.isEmpty_iff.mp hempty, List.append_nil] at hmem
      exact (hlooking reply hmem).ne (hip.trans (congrArg some hs.ip.symm))
    refine ⟨{ s with place := .popFront ⟨s.queue.baseIn, s.queue.baseIn_lt⟩ }, ?_, rfl, rfl, ?_⟩
    · simp only [Search.proceed, hplace, if_neg hnonempty]
    · exact .inl ⟨trivial, by simp [distance, hplace]⟩
  | popFront reply =>
    rw [hplace] at hlooking
    have hcount : s.queue.popFront.2.count = s.queue.count - 1 := by
      rw [← CircularQueue.length_contents, s.queue.contents_popFront, List.length_tail, CircularQueue.length_contents]
    refine ⟨{ s with queue := s.queue.popFront.2, taken := s.taken ++ s.queue.front.toList, place := .readIp reply },
      ?_, rfl, rfl, ?_⟩
    · simp only [Search.proceed, hplace]
    · refine .inl ⟨trivial, ?_⟩
      have hpos := hlooking.2.1
      simp only [distance, hplace, hcount]
      omega
  | readIp reply =>
    rw [hplace] at hlooking
    cases hread : extractIp4Addr.run (s.queue.buff.get reply).senderProtAddr 0 with
    | error fault => exact absurd (.inl (senderIp_eq_none hread)) (hreadable _ hlooking.mem)
    | ok read =>
      refine ⟨{ s with place := if read.1 ≠ s.searchedIp then .send else .readMac reply }, ?_, rfl, rfl, ?_⟩
      · simp only [Search.proceed, hplace, hread]
      · left
        by_cases hip : read.1 ≠ s.searchedIp
        · simp [hip, IsRunning, distance, hplace]
        · simp [hip, IsRunning, distance, hplace]
  | readMac reply =>
    rw [hplace] at hlooking
    cases hread : extractMacAddr.run (s.queue.buff.get reply).senderHardAddr 0 with
    | error fault => exact absurd (.inr (senderMac_eq_none hread)) (hreadable _ hlooking.1.mem)
    | ok read =>
      refine ⟨{ s with place := .clear read.1 }, ?_, rfl, rfl, .inl ⟨trivial, by simp [distance, hplace]⟩⟩
      simp only [Search.proceed, hplace, hread]
  | clear res =>
    exact ⟨{ s with queue := s.queue.clear, place := .returned res },
      by simp only [Search.proceed, hplace], rfl, rfl, .inr ⟨res, rfl⟩⟩
  | returned res => simp [IsRunning, hplace] at hrunning
  | faulted fault => simp [IsRunning, hplace] at hrunning

end Search
end NetworkingFramework.ArpTool

