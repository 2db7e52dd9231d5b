import NetworkingFramework.Lemmas.Ping

/-!
# Pings

Which reply ends an iteration of `ping`: one to a request of that iteration, unless a reply to an earlier request arrives where
the iteration comes to look at it. The tool does not compare the sequence.
-/

namespace NetworkingFramework

open Wire Runs

namespace PingTool

/-- What is logged of a reply is right: it is an echo reply with the id of the requests, and the sequence number that is printed
with it is its own, and that of the requests of the iteration. -/
structure Answers (log : List Entry) (i : Nat) (seqNum : UInt16) (reply : IcmpHeader) : Prop where
  type : reply.type = icmpEchoreply
  id : reply.echoId = 0x1234
  sequence : reply.echoSequence = seqNum
  asked : ∃ header, .sent i header ∈ log
  requests : ∀ header, .sent i header ∈ log → header.echoSequence = seqNum

namespace State

/-- Every iteration whose inner loop is over has had a reply, and the replies are to the iterations' requests. -/
structure Attributed (s : State) : Prop where
  ended : ∀ i, s.Ended i → ∃ seqNum reply, .received i seqNum reply ∈ s.log
  replies : ∀ i seqNum reply, .received i seqNum reply ∈ s.log → Answers s.log i seqNum reply

/-- A reply to a request of another iteration. -/
def Stale (s : State) (msg : Message) : Prop := IsReply msg ∧ msg.1.echoSequence ≠ s.icmpHeader.echoSequence

/-- The first reply among some messages is to a request of the iteration. -/
def FirstOwn (s : State) (msgs : List Message) : Prop := ∀ msg ∈ msgs.find? (IsReply ·), ¬s.Stale msg

/-- The iteration looks at messages. -/
def Listens (s : State) : Prop :=
  match s.place with
  | .send | .front | .popFront _ | .process _ => True
  | .loopHead | .clear | .advance | .returned => False

/-- The queue was full before a message was taken out of it that is yet to be processed: the next message that arrives is stored
in its place. -/
def Overwrites (s : State) : Prop := (∃ reply, s.place = .process reply) ∧ s.queue.count + 1 = queueSize

/-- A message may arrive. A reply to another iteration's request must find another reply in front of it, or no room, or nobody
who looks at it. What is stored in place of a message that is yet to be processed must not be such a reply, and if it is no reply
then what the queue holds must not have such a reply first. -/
structure Harmless (s : State) (msg : Message) : Prop where
  behind : s.Stale msg → ¬s.Overwrites → s.Listens → s.queue.count < queueSize → ∃ earlier ∈ s.pending, IsReply earlier
  replacing : s.Overwrites → ¬s.Stale msg ∧ (IsReply msg ∨ s.FirstOwn s.queue.contents)

/-- The condition on the steps of a run. -/
def Allowed (s : State) : Event → Prop
  | .arrive msg => s.Harmless msg
  | .timeout | .proceed => True

variable {checksum : UInt16} {s s' : State}

/-! ## The first reply -/

theorem firstOwn_nil : s.FirstOwn [] := fun _ h => nomatch h

theorem firstOwn_cons (msg : Message) (msgs : List Message) :
    s.FirstOwn (msg :: msgs) ↔ ¬s.Stale msg ∧ (IsReply msg ∨ s.FirstOwn msgs) := by
  by_cases hmsg : IsReply msg
  · simp [FirstOwn, hmsg]
  · simp [FirstOwn, Stale, hmsg]

theorem firstOwn_concat (msgs : List Message) (msg : Message) :
    s.FirstOwn (msgs ++ [msg]) ↔ s.FirstOwn msgs ∧ (s.Stale msg → ∃ earlier ∈ msgs, IsReply earlier) := by
  induction msgs with
  | nil =>
    rw [List.nil_append, firstOwn_cons]
    simp only [firstOwn_nil, or_true, and_true, true_and, List.not_mem_nil, false_and, exists_false]
  | cons first msgs ih =>
    rw [List.cons_append, firstOwn_cons, firstOwn_cons, ih]
    by_cases hfirst : IsReply first
    · simp [hfirst]
    · simp only [hfirst, false_or, List.mem_cons, exists_eq_or_imp, and_assoc]

/-! ## Messages that arrive -/

theorem pending_of_not_listens (h : ¬s.Listens) : s.pending = [] := by
  cases hplace : s.place with
  | loopHead => simp only [pending, hplace]
  | clear => simp only [pending, hplace]
  | advance => simp only [pending, hplace]
  | returned => simp only [pending, hplace]
  | send => simp [Listens, hplace] at h
  | front => simp [Listens, hplace] at h
  | popFront reply => simp [Listens, hplace] at h
  | process reply => simp [Listens, hplace] at h

/-- A message that arrives is behind the others. -/
theorem pending_handleRecv (hs : s.Consistent checksum) (msg : Message) (hlistens : s.Listens) (hroom : s.queue.count < queueSize)
    (hkept : ¬s.Overwrites) : (s.handleRecv msg).pending = s.pending ++ [msg] := by
  have hcontents : (s.queue.pushBack msg).2.contents = s.queue.contents ++ [msg] :=
    s.queue.contents_pushBack msg (by rwa [CircularQueue.length_contents])
  cases hplace : s.place with
  | send => simp only [pending, handleRecv, hplace, hcontents]
  | front => simp only [pending, handleRecv, hplace, hcontents]
  | popFront reply => simp only [pending, handleRecv, hplace, hcontents]
  | process reply =>
    have hslot : s.queue.slot s.queue.count ≠ reply := by
      have hne : s.queue.count + 1 ≠ queueSize := fun hcount => hkept ⟨⟨reply, hplace⟩, hcount⟩
      rw [hs.processing reply hplace]
      exact s.queue.slot_ne (by omega) (by decide)
    simp only [pending, handleRecv, hplace, hcontents, s.queue.buff_pushBack msg (Nat.ne_of_lt hroom), List.cons_append]
    rw [List.Vector.get_set_of_ne hslot]
  | loopHead => simp [Listens, hplace] at hlistens
  | clear => simp [Listens, hplace] at hlistens
  | advance => simp [Listens, hplace] at hlistens
  | returned => simp [Listens, hplace] at hlistens

/-- Where a message that is yet to be processed is overwritten, the message that arrives is processed twice. -/
theorem pending_handleRecv_overwrites (hs : s.Consistent checksum) (msg : Message) (h : s.Overwrites) :
    (s.handleRecv msg).pending = msg :: (s.queue.contents ++ [msg]) := by
  obtain ⟨⟨reply, hplace⟩, hcount⟩ := h
  have hroom : s.queue.count < queueSize := by omega
  have hcontents : (s.queue.pushBack msg).2.contents = s.queue.contents ++ [msg] :=
    s.queue.contents_pushBack msg (by rwa [CircularQueue.length_contents])
  have hslot : s.queue.slot s.queue.count = reply := by
    have hlast : s.queue.count = queueSize - 1 := by omega
    rw [hs.processing reply hplace, hlast]
  simp only [pending, handleRecv, hplace, hcontents, s.queue.buff_pushBack msg (Nat.ne_of_lt hroom), hslot,
    List.Vector.get_set_same]

/-- A message may arrive exactly when the first reply that the iteration then comes to look at is to its own request. -/
theorem harmless_iff (hs : s.Consistent checksum) (hown : s.FirstOwn s.pending) (msg : Message) :
    s.Harmless msg ↔ s.FirstOwn (s.handleRecv msg).pending := by
  by_cases hlistens : s.Listens
  · by_cases hroom : s.queue.count < queueSize
    · by_cases hover : s.Overwrites
      · rw [pending_handleRecv_overwrites hs msg hover, firstOwn_cons, firstOwn_concat]
        constructor
        · intro h
          obtain ⟨hfresh, hfirst⟩ := h.replacing hover
          exact ⟨hfresh, hfirst.imp_right fun hfirst => ⟨hfirst, fun hstale => absurd hstale hfresh⟩⟩
        · intro h
          obtain ⟨hfresh, hfirst⟩ := h
          exact ⟨fun hstale => absurd hstale hfresh, fun _ => ⟨hfresh, hfirst.imp_right And.left⟩⟩
      · rw [pending_handleRecv hs msg hlistens hroom hover, firstOwn_concat]
        constructor
        · intro h
          exact ⟨hown, fun hstale => h.behind hstale hover hlistens hroom⟩
        · intro h
          obtain ⟨-, hbehind⟩ := h
          exact ⟨fun hstale _ _ _ => hbehind hstale, fun h => absurd h hover⟩
    · have hfull : s.queue.count = queueSize := Nat.le_antisymm s.queue.count_le (Nat.le_of_not_lt hroom)
      have hsame : s.handleRecv msg = s := by rw [handleRecv, s.queue.pushBack_full msg hfull]
      rw [hsame]
      exact iff_of_true ⟨fun _ _ _ h => absurd h hroom, fun h => absurd h.2 (by omega)⟩ hown
  · have hidle : (s.handleRecv msg).pending = [] := pending_of_not_listens hlistens
    rw [hidle]
    refine iff_of_true ⟨fun _ _ h => absurd h hlistens, fun h => absurd ?_ hlistens⟩ firstOwn_nil
    obtain ⟨⟨reply, hplace⟩, -⟩ := h
    simp only [Listens, hplace]

/-! ## Runs -/

/-- What holds where only harmless messages have arrived. -/
structure Sound (checksum : UInt16) (s : State) : Prop where
  consistent : s.Consistent checksum
  own : s.FirstOwn s.pending
  replies : ∀ i seqNum reply, .received i seqNum reply ∈ s.log → IsReply (reply, []) ∧ reply.echoSequence = seqNum ∧
    seqNum = (request checksum i).echoSequence ∧ ∃ header, .sent i header ∈ s.log

theorem Sound.attributed (hs : s.Sound checksum) : s.Attributed where
  ended := hs.consistent.ended
  replies i seqNum reply h := by
    obtain ⟨⟨htype, hid⟩, hsequence, hrequest, hasked⟩ := hs.replies i seqNum reply h
    refine ⟨htype, hid, hsequence, hasked, fun header hsent => ?_⟩
    rw [hs.consistent.sent i header hsent, hrequest]

/-- In an iteration, the requests are the same throughout. -/
theorem icmpHeader_congr (hs : s.Consistent checksum) (hs' : s'.Consistent checksum) (hi : s'.i = s.i) :
    s'.icmpHeader = s.icmpHeader := by
  rw [hs.header, hs'.header, hi]

theorem firstOwn_congr (hheader : s'.icmpHeader = s.icmpHeader) (msgs : List Message) :
    s'.FirstOwn msgs ↔ s.FirstOwn msgs := by
  simp only [FirstOwn, Stale, hheader]

/-- A step that takes no reply. -/
theorem Sound.quiet (hs : s.Sound checksum) (hs' : s'.Consistent checksum) (hi : s'.i = s.i) (hown : s.FirstOwn s'.pending)
    {entries : List Entry} (hlog : s'.log = s.log ++ entries) (hnone : ∀ i seqNum reply, .received i seqNum reply ∉ entries) :
    s'.Sound checksum where
  consistent := hs'
  own := (firstOwn_congr (icmpHeader_congr hs.consistent hs' hi) _).mpr hown
  replies i seqNum reply h := by
    rw [hlog, List.mem_append] at h
    obtain ⟨hown, hsequence, hrequest, header, hsent⟩ := hs.replies i seqNum reply (h.resolve_right (hnone i seqNum reply))
    exact ⟨hown, hsequence, hrequest, header, hlog ▸ List.mem_append_left _ hsent⟩

theorem Sound.move (hs : s.Sound checksum) (h : Move s s') : s'.Sound checksum := by
  have hs' := hs.consistent.move h
  have hown := hs.own
  cases effect_of_move hs.consistent h with
  | quiet hpending hi entries hlog hnone _ => exact hs.quiet hs' hi (hpending ▸ hown) hlog hnone
  | skipped msg hpending hother hi entries hlog hnone _ =>
    rw [hpending, firstOwn_cons] at hown
    exact hs.quiet hs' hi (hown.2.resolve_left hother) hlog hnone
  | received msg rest hpending hmsg hasked hafter =>
    rw [hpending, firstOwn_cons] at hown
    have hsequence : msg.1.echoSequence = s.icmpHeader.echoSequence := not_not.mp fun hne => hown.1 ⟨hmsg, hne⟩
    subst hafter
    refine ⟨hs', firstOwn_nil, fun i seqNum reply h => ?_⟩
    rcases List.mem_append.mp h with h | h
    · obtain ⟨hreply, hsequence, hrequest, header, hsent⟩ := hs.replies i seqNum reply h
      exact ⟨hreply, hsequence, hrequest, header, List.mem_append_left _ hsent⟩
    · obtain ⟨rfl, rfl, rfl⟩ : i = s.i ∧ seqNum = s.icmpHeader.echoSequence ∧ reply = msg.1 := by simpa using h
      refine ⟨hmsg, hsequence, by rw [hs.consistent.header], s.icmpHeader, ?_⟩
      exact List.mem_append_left _ (hs.consistent.asked hasked)
  | next _ hpending hlog =>
    refine ⟨hs', hpending ▸ firstOwn_nil, ?_⟩
    rw [hlog]
    exact hs.replies

theorem Sound.step (hs : s.Sound checksum) {e : Event} (hallowed : s.Allowed e) (h : s.step e = some s') : s'.Sound checksum := by
  have hs' := hs.consistent.step h
  cases e with
  | arrive msg =>
    obtain rfl := Option.some.inj h
    have hown := (harmless_iff hs.consistent hs.own msg).mp hallowed
    exact hs.quiet hs' rfl hown (List.append_nil _).symm (fun _ _ _ => List.not_mem_nil)
  | timeout =>
    rw [State.step] at h
    split at h
    · next hwaiting =>
      obtain rfl := Option.some.inj h
      have hpending : (s.print "no valid reply, resending" .send).pending = s.pending := by
        simp only [pending, print, hwaiting.1]
      exact hs.quiet hs' rfl (hpending ▸ hs.own) rfl (by simp)
    · cases h
  | proceed => exact hs.move (move_of_proceed (hs.consistent.header ▸ echoId_request checksum s.i) h)

theorem sound_of_reached {cnt : Option Nat} {buff : List.Vector Message queueSize}
    (h : Reached State.step Allowed (init cnt checksum buff) s) : s.Sound checksum := by
  refine h.invariant ⟨consistent_init cnt checksum buff, firstOwn_nil, fun i seqNum reply h => ?_⟩ fun s e s' hs => hs.step
  simp [init] at h

/-- The tool comes to look at the first reply that it has in front of it. -/
theorem leads_received {msg : Message} (hs : s.Consistent checksum) (hmsg : msg ∈ s.pending.find? (IsReply ·)) :
    Leads State.step .proceed s fun s' => .received s.i s.icmpHeader.echoSequence msg.1 ∈ s'.log := by
  induction hn : 4 * s.pending.length + s.distance using Nat.strongRecOn generalizing s with
  | ind n ih =>
    have hne : s.pending ≠ [] := by
      intro hnil
      rw [hnil] at hmsg
      nomatch hmsg
    obtain ⟨s', hproceed⟩ := exists_proceed hne
    have hmove := move_of_proceed (hs.header ▸ echoId_request checksum s.i) hproceed
    have hs' := hs.move hmove
    refine Leads.of_step hproceed ?_
    cases effect_of_move hs hmove with
    | quiet hpending hi entries hlog hnone hdistance =>
      rw [← hi, ← icmpHeader_congr hs hs' hi]
      rw [← hpending] at hmsg hn
      exact ih _ (by omega) hs' hmsg rfl
    | skipped first hpending hother hi entries hlog hnone hdistance =>
      rw [← hi, ← icmpHeader_congr hs hs' hi]
      rw [hpending, List.find?_cons_of_neg (by simpa using hother)] at hmsg
      rw [hpending, List.length_cons] at hn
      exact ih _ (by omega) hs' hmsg rfl
    | received first rest hpending hfirst hasked hafter =>
      rw [hpending, List.find?_cons_of_pos (by simpa using hfirst)] at hmsg
      obtain rfl : first = msg := Option.some.inj hmsg
      exact leads_now (by simp [hafter])
    | next hpending _ _ => exact absurd hpending hne

end State

open State

/-- In every run of `ping` in which the messages that arrive are harmless, the replies that end the iterations are to the requests
of the iterations. A message that is not harmless, wherever it arrives in such a run, leads to one that is not, without another
event. -/
theorem ping_attributed (cnt : Option Nat) (checksum : UInt16) (buff : List.Vector Message queueSize) :
    (∀ s, Reached State.step Allowed (init cnt checksum buff) s → s.Attributed) ∧
      ∀ s msg, Reached State.step Allowed (init cnt checksum buff) s → ¬s.Harmless msg →
        Leads State.step .proceed (s.handleRecv msg) fun s' => ¬s'.Attributed := by
  refine ⟨fun s h => (sound_of_reached h).attributed, fun s msg h hharmful => ?_⟩
  have hs := sound_of_reached h
  rw [harmless_iff hs.consistent hs.own, FirstOwn] at hharmful
  obtain ⟨reply, hharmful⟩ := not_forall.mp hharmful
  obtain ⟨hreply, hstale⟩ := Classical.not_imp.mp hharmful
  obtain ⟨n, s', hrun, hreceived⟩ := leads_received (hs.consistent.handleRecv msg) hreply
  exact ⟨n, s', hrun, fun hs' => (not_not.mp hstale).2 (hs'.replies _ _ _ hreceived).sequence⟩

/-- A reply that comes late: two requests of the first iteration are replied to, the second reply in the second iteration. -/
def lateReply : List Event :=
  let reply : Message := (⟨icmpEchoreply, 0, 0, echoContent 0x1234 10⟩, [])
  List.replicate 3 .proceed ++ [.timeout, .proceed, .arrive reply] ++ List.replicate 7 .proceed ++ [.arrive reply] ++
    List.replicate 3 .proceed

theorem ping_not_attributed : ∃ s,
    run State.step (init (some 2) 0 (List.Vector.replicate _ (⟨0, 0, 0, 0⟩, []))) lateReply = some s ∧
    ¬s.Attributed := by
  refine ⟨_, rfl, fun h => ?_⟩
  have hanswers := h.replies 1 11 ⟨icmpEchoreply, 0, 0, echoContent 0x1234 10⟩ (by decide)
  exact absurd hanswers.sequence (by decide)

end PingTool
end NetworkingFramework
