import NetworkingFramework.ArpSearch
import NetworkingFramework.Lemmas.Arp
import NetworkingFramework.Lemmas.RecvQueue

/-!
# Lemmas: searching for a hardware address

What holds of a search whatever arrives, as long as no reply is overwritten while the tool reads it.
-/

namespace NetworkingFramework.ArpTool

open Wire Runs

/-- A reply of another sender. -/
def IsOther (searchedIp : Ip4Addr) (reply : ArpHeader) : Prop := ∃ ip, senderIp reply = some ip ∧ ip ≠ searchedIp

theorem connectRecv_cases {op : Option UInt16} {data : Bytes} {headers : List ArpHeader}
    (h : ArpProtocol.connectRecv op data = .ok headers) : headers = [] ∨ ∃ header, headers = [header] := by
  rw [ArpProtocol.connectRecv, bind_eq_ok_iff] at h
  obtain ⟨⟨header, n⟩, -, h⟩ := h
  simp only [pure_eq_ok] at h
  split at h
  · exact .inr ⟨header, (Except.ok.inj h).symm⟩
  · exact .inl (Except.ok.inj h).symm

theorem senderIp_eq {reply : ArpHeader} {ip : Ip4Addr} {n : Nat} (h : extractIp4Addr.run reply.senderProtAddr 0 = .ok (ip, n)) :
    senderIp reply = some ip := by
  rw [senderIp, h]
  rfl

theorem senderIp_eq_none {reply : ArpHeader} {fault : Fault} (h : extractIp4Addr.run reply.senderProtAddr 0 = .error fault) :
    senderIp reply = none := by
  rw [senderIp, h]
  rfl

theorem senderMac_eq {reply : ArpHeader} {mac : MacAddr} {n : Nat}
    (h : extractMacAddr.run reply.senderHardAddr 0 = .ok (mac, n)) : senderMac reply = some mac := by
  rw [senderMac, h]
  rfl

theorem senderMac_eq_none {reply : ArpHeader} {fault : Fault} (h : extractMacAddr.run reply.senderHardAddr 0 = .error fault) :
    senderMac reply = none := by
  rw [senderMac, h]
  rfl

namespace Search

/-- The reply in a slot is the last that was taken, behind replies of others. -/
def IsLastTaken (s : Search) (reply : Fin queueSize) : Prop :=
  ∃ before, s.queue.HoldsLast before s.taken reply ∧ ∀ other ∈ before, IsOther s.searchedIp other

/-- What the tool knows of the replies that it has taken, where it is. -/
def Looking (s : Search) : Prop :=
  match s.place with
  | .send | .front => ∀ reply ∈ s.taken, IsOther s.searchedIp reply
  | .popFront reply => reply = s.queue.slot 0 ∧ s.queue.count ≠ 0 ∧ ∀ reply ∈ s.taken, IsOther s.searchedIp reply
  | .readIp reply => s.IsLastTaken reply
  | .readMac reply => s.IsLastTaken reply ∧ senderIp (s.queue.buff.get reply) = some s.searchedIp
  | .clear res | .returned res => ∃ before reply, s.taken = before ++ [reply] ∧ (∀ other ∈ before, IsOther s.searchedIp other) ∧
      senderIp reply = some s.searchedIp ∧ senderMac reply = some res
  | .faulted _ => ∃ data ∈ s.arrived, Malformed data

/-- The tool has not ended, and the queue holds what it is still to look at. -/
def IsRunning (s : Search) : Prop :=
  match s.place with
  | .returned _ | .faulted _ => False
  | _ => True

/-- The requests that are not accounted for by a wait that timed out or a reply that was taken. -/
def unanswered (s : Search) : Nat :=
  match s.place with
  | .front | .popFront _ => 1
  | _ => 0

/-- What holds as long as nothing is overwritten. -/
structure Consistent (searchedIp : Ip4Addr) (srcMac : MacAddr) (srcIp : Ip4Addr) (s : Search) : Prop where
  ip : s.searchedIp = searchedIp
  header : s.arpHeader = request srcMac srcIp searchedIp
  sent : ∀ frame ∈ s.sent, ArpProtocol.send (request srcMac srcIp searchedIp) = .ok frame
  stored : ∀ reply ∈ s.stored, ∃ data ∈ s.arrived, ArpProtocol.connectRecv (some arpOpReply) data = .ok [reply]
  began : s.taken <+: s.stored
  kept : s.IsRunning → s.stored = s.taken ++ s.queue.contents
  looking : s.Looking
  asked : (∀ fault, s.place ≠ .faulted fault) → s.sent.length = s.timeouts + s.taken.length + s.unanswered

variable {searchedIp : Ip4Addr} {srcMac : MacAddr} {srcIp : Ip4Addr} {s s' : Search}

theorem consistent_init (searchedIp : Ip4Addr) (srcMac : MacAddr) (srcIp : Ip4Addr) (buff : List.Vector ArpHeader queueSize) :
    (init searchedIp srcMac srcIp buff).Consistent searchedIp srcMac srcIp where
  ip := rfl
  header := rfl
  sent := fun _ h => absurd h List.not_mem_nil
  stored := fun _ h => absurd h List.not_mem_nil
  began := List.prefix_rfl
  kept := fun _ => rfl
  looking := fun _ h => absurd h List.not_mem_nil
  asked := fun _ => rfl

/-- A reply that the tool cannot read came in a malformed frame. -/
theorem Consistent.malformed (hs : s.Consistent searchedIp srcMac srcIp) {reply : ArpHeader} (hmem : reply ∈ s.taken)
    (h : senderIp reply = none ∨ senderMac reply = none) : ∃ data ∈ s.arrived, Malformed data := by
  obtain ⟨data, hdata, hrecv⟩ := hs.stored reply (hs.began.subset hmem)
  refine ⟨data, hdata, ?_⟩
  unfold Malformed
  rw [hrecv]
  exact ⟨reply, List.mem_cons_self, h⟩

/-- What was read is the last that was taken. -/
theorem IsLastTaken.mem {reply : Fin queueSize} (h : s.IsLastTaken reply) : s.queue.buff.get reply ∈ s.taken := by
  obtain ⟨before, hlast, -⟩ := h
  exact hlast.mem

/-! ## The tool's steps -/

theorem Consistent.proceed (hs : s.Consistent searchedIp srcMac srcIp) (h : s.proceed = some s') :
    s'.Consistent searchedIp srcMac srcIp := by
  have hlooking := hs.looking
  unfold Looking at hlooking
  unfold Search.proceed at h
  split at h
  · next hplace =>
    obtain ⟨frame, hframe, -⟩ := send_header arpOpRequest srcMac srcIp macAddrEmpty searchedIp
    rw [hplace] at hlooking
    split at h
    · next fault hfault =>
      rw [hs.header] at hfault
      cases hfault.symm.trans hframe
    · next frame' hsend =>
      obtain rfl := Option.some.inj h
      refine { hs with
        sent := ?_
        kept := fun _ => hs.kept (by simp [IsRunning, hplace])
        looking := hlooking
        asked := fun _ => ?_ }
      · intro f hf
        rcases List.mem_append.mp hf with hf | hf
        · exact hs.sent f hf
        · rw [List.mem_singleton.mp hf, ← hs.header]
          exact hsend
      · have hasked := hs.asked (by simp [hplace])
        simp only [unanswered, hplace] at hasked
        simp only [unanswered, List.length_append, List.length_singleton, hasked]
  · next hplace =>
    rw [hplace] at hlooking
    split at h
    · cases h
    · next hempty =>
      obtain rfl := Option.some.inj h
      have hcount : s.queue.count ≠ 0 := by simpa [CircularQueue.isEmpty] using hempty
      refine { hs with
        kept := fun _ => hs.kept (by simp [IsRunning, hplace])
        looking := ⟨s.queue.slot_zero.symm, hcount, hlooking⟩, asked := fun _ => ?_ }
      have hasked := hs.asked (by simp [hplace])
      simpa [unanswered, hplace] using hasked
  · next reply hplace =>
    rw [hplace] at hlooking
    obtain ⟨hslot, hcount, hothers⟩ := hlooking
    obtain rfl := Option.some.inj h
    have hfront := CircularQueue.toList_front hcount
    have hkept := hs.kept (by simp [IsRunning, hplace])
    rw [s.queue.contents_eq_cons hcount] at hkept
    refine { hs with began := ?_, kept := fun _ => ?_, looking := ⟨s.taken, ?_, hothers⟩, asked := fun _ => ?_ }
    · rw [hfront, hkept]
      exact ⟨_, List.append_assoc _ _ _⟩
    · rw [hfront, hkept, s.queue.contents_popFront, List.append_assoc]
      rfl
    · rw [hslot]
      exact CircularQueue.holdsLast_popFront hcount s.taken
    · have hasked := hs.asked (by simp [hplace])
      simp only [unanswered, hplace] at hasked
      simp only [unanswered, hfront, List.length_append, List.length_singleton, hasked]
      omega
  · next reply hplace =>
    rw [hplace] at hlooking
    have hkept := hs.kept (by simp [IsRunning, hplace])
    have hasked := hs.asked (by simp [hplace])
    simp only [unanswered, hplace] at hasked
    split at h
    · next fault hfault =>
      obtain rfl := Option.some.inj h
      exact { hs with
        kept := fun hrunning => hrunning.elim
        looking := hs.malformed hlooking.mem (.inl (senderIp_eq_none hfault)), asked := fun hne => absurd rfl (hne fault) }
    · next replyIp n hread =>
      obtain rfl := Option.some.inj h
      by_cases hip : replyIp = s.searchedIp
      · simp only [hip, ne_eq, not_true_eq_false, if_false]
        exact { hs with
          kept := fun _ => hkept, looking := ⟨hlooking, (senderIp_eq hread).trans (congrArg some hip)⟩, asked := fun _ => hasked }
      · simp only [ne_eq, hip, not_false_eq_true, if_true]
        obtain ⟨before, hlast, hothers⟩ := hlooking
        refine { hs with kept := fun _ => hkept, looking := fun other hother => ?_, asked := fun _ => hasked }
        rw [hlast.behind] at hother
        rcases List.mem_append.mp hother with hother | hother
        · exact hothers other hother
        · rw [List.mem_singleton.mp hother]
          exact ⟨replyIp, senderIp_eq hread, hip⟩
  · next reply hplace =>
    rw [hplace] at hlooking
    have hasked := hs.asked (by simp [hplace])
    simp only [unanswered, hplace] at hasked
    split at h
    · next fault hfault =>
      obtain rfl := Option.some.inj h
      exact { hs with
        kept := fun hrunning => hrunning.elim
        looking := hs.malformed hlooking.1.mem (.inr (senderMac_eq_none hfault)), asked := fun hne => absurd rfl (hne fault) }
    · next res n hread =>
      obtain rfl := Option.some.inj h
      obtain ⟨⟨before, hlast, hothers⟩, hip⟩ := hlooking
      exact { hs with
        kept := fun _ => hs.kept (by simp [IsRunning, hplace])
        looking := ⟨before, _, hlast.behind, hothers, hip, senderMac_eq hread⟩, asked := fun _ => hasked }
  · next res hplace =>
    rw [hplace] at hlooking
    have hasked := hs.asked (by simp [hplace])
    simp only [unanswered, hplace] at hasked
    obtain rfl := Option.some.inj h
    exact { hs with kept := fun hrunning => hrunning.elim, looking := hlooking, asked := fun _ => hasked }
  · cases h
  · cases h

/-! ## What arrives -/

/-- The reply that is read stays where it is, unless it is overwritten. -/
theorem IsLastTaken.handleRecv {reply : Fin queueSize} (h : s.IsLastTaken reply) (hcount : s.queue.count + 1 ≠ queueSize)
    (header : ArpHeader) :
    (s.handleRecv header).queue.buff.get reply = s.queue.buff.get reply ∧ (s.handleRecv header).IsLastTaken reply := by
  obtain ⟨before, hlast, hothers⟩ := h
  obtain ⟨hstays, hget⟩ := hlast.pushBack hcount header
  exact ⟨hget, before, hstays, hothers⟩

/-- A header is put into the queue without overwriting the reply that is read. -/
theorem Consistent.handleRecv (hs : s.Consistent searchedIp srcMac srcIp) (hkeeps : ¬s.Overwrites) {header : ArpHeader}
    (hheader : ∃ data ∈ s.arrived, ArpProtocol.connectRecv (some arpOpReply) data = .ok [header]) :
    (s.handleRecv header).Consistent searchedIp srcMac srcIp := by
  have hlooking := hs.looking
  refine {
    ip := hs.ip, header := hs.header, sent := hs.sent, asked := hs.asked
    stored := fun reply hreply => ?_, began := hs.began.trans (s.queue.prefix_storedWith _ _)
    kept := fun hrunning => CircularQueue.storedWith_eq (hs.kept hrunning) header, looking := ?_ }
  · rcases CircularQueue.mem_of_mem_storedWith hreply with hreply | rfl
    · exact hs.stored reply hreply
    · exact hheader
  · cases hplace : s.place with
    | send | front | clear res | returned res | faulted fault =>
      unfold Looking at *
      rw [hplace] at hlooking
      rw [show (s.handleRecv header).place = s.place from rfl, hplace]
      exact hlooking
    | popFront reply =>
      unfold Looking at *
      rw [hplace] at hlooking
      rw [show (s.handleRecv header).place = s.place from rfl, hplace]
      obtain ⟨hslot, hcount, hothers⟩ := hlooking
      have hle := s.queue.count_le_pushBack header
      refine ⟨?_, fun hzero => hcount (Nat.eq_zero_of_le_zero (hzero ▸ hle)), hothers⟩
      rw [hslot]
      exact (s.queue.slot_pushBack header 0).symm
    | readIp reply =>
      unfold Looking at *
      rw [hplace] at hlooking
      rw [show (s.handleRecv header).place = s.place from rfl, hplace]
      exact (hlooking.handleRecv (fun hcount => hkeeps (by simpa [Overwrites, hplace] using hcount)) header).2
    | readMac reply =>
      unfold Looking at *
      rw [hplace] at hlooking
      rw [show (s.handleRecv header).place = s.place from rfl, hplace]
      have hstays := hlooking.1.handleRecv (fun hcount => hkeeps (by simpa [Overwrites, hplace] using hcount)) header
      refine ⟨hstays.2, ?_⟩
      rw [hstays.1]
      exact hlooking.2

/-- A frame arrives at the tool. -/
theorem Consistent.arrive (hs : s.Consistent searchedIp srcMac srcIp) (hkeeps : ¬s.Overwrites) (data : Bytes) :
    (s.arrive data).Consistent searchedIp srcMac srcIp := by
  have hmore : ∀ data', data' ∈ s.arrived → data' ∈ s.arrived ++ [data] := fun _ => List.mem_append_left _
  unfold Search.arrive
  split
  · next fault hfault =>
    refine { hs with
      stored := fun reply hreply => ?_, kept := fun hrunning => hrunning.elim
      looking := ⟨data, List.mem_append_right _ List.mem_cons_self, ?_⟩, asked := fun hne => absurd rfl (hne fault) }
    · obtain ⟨data', hdata', hrecv⟩ := hs.stored reply hreply
      exact ⟨data', hmore data' hdata', hrecv⟩
    · unfold Malformed
      rw [hfault]
      trivial
  · next headers hrecv =>
    have harrived : ({ s with arrived := s.arrived ++ [data] } : Search).Consistent searchedIp srcMac srcIp := by
      refine { hs with stored := fun reply hreply => ?_, looking := ?_ }
      · obtain ⟨data', hdata', hrecv'⟩ := hs.stored reply hreply
        exact ⟨data', hmore data' hdata', hrecv'⟩
      · have hlooking := hs.looking
        unfold Looking at *
        cases hplace : s.place with
        | faulted fault =>
          rw [hplace] at hlooking
          obtain ⟨data', hdata', hmalformed⟩ := hlooking
          exact ⟨data', hmore data' hdata', hmalformed⟩
        | _ =>
          rw [hplace] at hlooking
          exact hlooking
    obtain rfl | ⟨header, rfl⟩ := connectRecv_cases hrecv
    · exact harrived
    · exact harrived.handleRecv hkeeps ⟨data, List.mem_append_right _ List.mem_cons_self, hrecv⟩

theorem Consistent.step (hs : s.Consistent searchedIp srcMac srcIp) {e : SearchEvent} (hallowed : s.Allowed e)
    (h : s.step e = some s') : s'.Consistent searchedIp srcMac srcIp := by
  cases e with
  | arrive data =>
    simp only [Search.step] at h
    split at h
    · cases h
    · obtain rfl := Option.some.inj h
      exact hs.arrive hallowed data
  | timeout =>
    simp only [Search.step] at h
    split at h
    · next hwaits =>
      obtain rfl := Option.some.inj h
      have hlooking := hs.looking
      unfold Looking at hlooking
      rw [hwaits.1] at hlooking
      have hasked := hs.asked (by simp [hwaits.1])
      simp only [unanswered, hwaits.1] at hasked
      refine { hs with kept := fun _ => hs.kept (by simp [IsRunning, hwaits.1]), looking := hlooking, asked := fun _ => ?_ }
      simp only [unanswered, hasked]
      omega
    · cases h
  | proceed => exact hs.proceed h

end Search
end NetworkingFramework.ArpTool
