import NetworkingFramework.Ping

/-!
# What a step of ping does

The messages that an iteration still has in front of it, and what each step makes of them.
-/

namespace NetworkingFramework

open Wire Runs

theorem echoId_echoContent (header : IcmpHeader) (id sequence : UInt16) :
    ({ header with content := echoContent id sequence } : IcmpHeader).echoId = id := by
  have hid := id.toNat_lt
  have hsequence := sequence.toNat_lt
  apply UInt16.toNat_inj.mp
  simp only [IcmpHeader.echoId, echoContent, UInt16.toNat_ofNat', UInt32.toNat_ofNat']
  omega

theorem echoSequence_echoContent (header : IcmpHeader) (id sequence : UInt16) :
    ({ header with content := echoContent id sequence } : IcmpHeader).echoSequence = sequence := by
  have hid := id.toNat_lt
  have hsequence := sequence.toNat_lt
  apply UInt16.toNat_inj.mp
  simp only [IcmpHeader.echoSequence, echoContent, UInt16.toNat_ofNat', UInt32.toNat_ofNat']
  omega

namespace PingTool

/-- An echo reply with the id of the requests. -/
def IsReply (msg : Message) : Prop := msg.1.type = icmpEchoreply ∧ msg.1.echoId = 0x1234

instance : DecidablePred IsReply := fun msg => inferInstanceAs (Decidable (msg.1.type = icmpEchoreply ∧ msg.1.echoId = 0x1234))

/-- The header of the requests of an iteration. -/
def request (checksum : UInt16) (i : Nat) : IcmpHeader :=
  { type := icmpEcho, code := 0, checksum, content := echoContent 0x1234 (UInt16.ofNat (10 + i)) }

theorem echoId_request (checksum : UInt16) (i : Nat) : (request checksum i).echoId = 0x1234 :=
  echoId_echoContent (request checksum i) 0x1234 _

theorem echoSequence_request (checksum : UInt16) (i : Nat) : (request checksum i).echoSequence = UInt16.ofNat (10 + i) :=
  echoSequence_echoContent (request checksum i) 0x1234 _

/-- The requests of the next iteration have the next sequence. -/
theorem request_succ (checksum : UInt16) (i : Nat) :
    { request checksum i with
      content := echoContent (request checksum i).echoId ((request checksum i).echoSequence + 1) } = request checksum (i + 1) := by
  have hnext : UInt16.ofNat (10 + i) + 1 = UInt16.ofNat (10 + (i + 1)) := (UInt16.ofNat_add (10 + i) 1).symm
  rw [echoId_request, echoSequence_request, hnext]
  rfl

namespace State

/-- The messages that the iteration has in front of it; those that come to be in the queue between two iterations are dropped. -/
def pending (s : State) : List Message :=
  match s.place with
  | .send | .front | .popFront _ => s.queue.contents
  | .process reply => s.queue.buff.get reply :: s.queue.contents
  | .loopHead | .clear | .advance | .returned => []

/-- How many steps the tool is away from looking at a message. -/
def distance (s : State) : Nat :=
  match s.place with
  | .loopHead => 5
  | .clear => 4
  | .send => 3
  | .front => 2
  | .popFront _ => 1
  | .process _ | .advance | .returned => 0

/-- The inner loop of the iteration is over. -/
def Ended (s : State) (i : Nat) : Prop := i < s.i ∨ i = s.i ∧ s.place = .advance

/-- A request of the iteration is on its way. -/
def Asked (s : State) : Prop :=
  match s.place with
  | .front | .popFront _ | .process _ | .advance => True
  | .loopHead | .clear | .send | .returned => False

/-- What holds whatever arrives. The message that is being processed is the last that was taken out of the queue. -/
structure Consistent (checksum : UInt16) (s : State) : Prop where
  header : s.icmpHeader = request checksum s.i
  popping : ∀ reply, s.place = .popFront reply → reply = s.queue.slot 0 ∧ s.queue.count ≠ 0
  processing : ∀ reply, s.place = .process reply → reply = s.queue.slot (queueSize - 1)
  sent : ∀ i header, .sent i header ∈ s.log → header = request checksum i
  asked : s.Asked → .sent s.i s.icmpHeader ∈ s.log
  ended : ∀ i, s.Ended i → ∃ seqNum reply, .received i seqNum reply ∈ s.log

variable {checksum : UInt16} {s s' : State}

/-! ## The tool's own steps -/

/-- What the tool does about a message. -/
theorem processReply_cases (hid : s.icmpHeader.echoId = 0x1234) (msg : Message) :
    (IsReply msg ∧ s.processReply msg.1 =
      { s with log := s.log ++ [.received s.i s.icmpHeader.echoSequence msg.1], place := .advance }) ∨
    (¬IsReply msg ∧ (s.processReply msg.1 = { s with place := .front } ∨
      ∃ line, s.processReply msg.1 = s.print line .send)) := by
  by_cases hmsg : IsReply msg
  · obtain ⟨htype, hmsgId⟩ := hmsg
    refine .inl ⟨⟨htype, hmsgId⟩, ?_⟩
    simp only [processReply, htype, hmsgId, hid, ne_eq, not_true_eq_false, if_false]
    rfl
  · refine .inr ⟨hmsg, ?_⟩
    by_cases hmsgId : msg.1.echoId = 0x1234
    · have htype : msg.1.type ≠ icmpEchoreply := fun htype => hmsg ⟨htype, hmsgId⟩
      simp only [processReply, htype, hmsgId, hid, ne_eq, not_true_eq_false, if_false]
      right
      split
      · exact ⟨_, rfl⟩
      · split
        · exact ⟨_, rfl⟩
        · split <;> exact ⟨_, rfl⟩
    · left
      unfold processReply
      rw [if_pos (by rwa [hid])]

/-- The steps of the tool. -/
inductive Move (s : State) : State → Prop where
  | enter (place : s.place = .loopHead) : Move s { s with place := .clear }
  | leave (place : s.place = .loopHead) : Move s { s with place := .returned }
  | clear (place : s.place = .clear) : Move s { s with queue := s.queue.clear, place := .send }
  | send (place : s.place = .send) : Move s { s with log := s.log ++ [.sent s.i s.icmpHeader], place := .front }
  | front (place : s.place = .front) (nonempty : s.queue.count ≠ 0) : Move s { s with place := .popFront (s.queue.slot 0) }
  | popFront (reply : Fin queueSize) (place : s.place = .popFront reply) :
      Move s { s with queue := s.queue.popFront.2, place := .process reply }
  | skip (reply : Fin queueSize) (place : s.place = .process reply) (other : ¬IsReply (s.queue.buff.get reply)) :
      Move s { s with place := .front }
  | fail (reply : Fin queueSize) (place : s.place = .process reply) (other : ¬IsReply (s.queue.buff.get reply)) (line : String) :
      Move s (s.print line .send)
  | receive (reply : Fin queueSize) (place : s.place = .process reply) (own : IsReply (s.queue.buff.get reply)) :
      Move s { s with
        log := s.log ++ [.received s.i s.icmpHeader.echoSequence (s.queue.buff.get reply).1], place := .advance }
  | advance (place : s.place = .advance) : Move s { s with
      icmpHeader := { s.icmpHeader with content := echoContent s.icmpHeader.echoId (s.icmpHeader.echoSequence + 1) }
      i := s.i + 1
      place := .loopHead }

/-- A step of the tool is one of its steps. -/
theorem move_of_proceed (hid : s.icmpHeader.echoId = 0x1234) (h : s.proceed = some s') : Move s s' := by
  unfold proceed at h
  split at h
  · next hplace =>
    obtain rfl := Option.some.inj h
    by_cases hcnt : s.cnt.all (s.i < ·) = true
    · rw [if_pos hcnt]
      exact .enter hplace
    · rw [if_neg hcnt]
      exact .leave hplace
  · next hplace =>
    obtain rfl := Option.some.inj h
    exact .clear hplace
  · next hplace =>
    obtain rfl := Option.some.inj h
    exact .send hplace
  · next hplace =>
    by_cases hempty : s.queue.isEmpty = true
    · rw [if_pos hempty] at h
      nomatch h
    · rw [if_neg hempty, ← s.queue.slot_zero] at h
      obtain rfl := Option.some.inj h
      exact .front hplace (by simpa [CircularQueue.isEmpty] using hempty)
  · next reply hplace =>
    obtain rfl := Option.some.inj h
    exact .popFront reply hplace
  · next reply hplace =>
    obtain rfl := Option.some.inj h
    rcases processReply_cases hid (s.queue.buff.get reply) with ⟨hown, heq⟩ | ⟨hother, heq | ⟨line, heq⟩⟩
    · rw [heq]
      exact .receive reply hplace hown
    · rw [heq]
      exact .skip reply hplace hother
    · rw [heq]
      exact .fail reply hplace hother line
  · next hplace =>
    obtain rfl := Option.some.inj h
    exact .advance hplace
  · nomatch h

/-- The tool waits for a message, or can go on. -/
theorem exists_proceed (h : s.pending ≠ []) : ∃ s', s.proceed = some s' := by
  unfold proceed
  split
  · exact ⟨_, rfl⟩
  · exact ⟨_, rfl⟩
  · exact ⟨_, rfl⟩
  · next hplace =>
    rw [pending, hplace] at h
    rw [if_neg (mt s.queue.isEmpty_iff.mp h)]
    exact ⟨_, rfl⟩
  · exact ⟨_, rfl⟩
  · exact ⟨_, rfl⟩
  · exact ⟨_, rfl⟩
  · next hplace =>
    rw [pending, hplace] at h
    exact absurd rfl h

/-- What a step of the tool makes of the messages in front of the iteration, and what it logs. -/
inductive Effect (s s' : State) : Prop where
  | quiet (pending : s'.pending = s.pending) (i : s'.i = s.i) (entries : List Entry) (log : s'.log = s.log ++ entries)
      (none : ∀ i seqNum reply, .received i seqNum reply ∉ entries) (distance : s'.distance < s.distance)
  | skipped (msg : Message) (pending : s.pending = msg :: s'.pending) (other : ¬IsReply msg) (i : s'.i = s.i)
      (entries : List Entry) (log : s'.log = s.log ++ entries) (none : ∀ i seqNum reply, .received i seqNum reply ∉ entries)
      (distance : s'.distance ≤ 3)
  | received (msg : Message) (rest : List Message) (pending : s.pending = msg :: rest) (own : IsReply msg) (asked : s.Asked)
      (after : s' = { s with log := s.log ++ [.received s.i s.icmpHeader.echoSequence msg.1], place := .advance })
  | next (pending : s.pending = []) (pending' : s'.pending = []) (log : s'.log = s.log)

theorem effect_of_move (hs : s.Consistent checksum) (h : Move s s') : Effect s s' := by
  cases h with
  | enter hplace => exact .quiet (by simp [pending, hplace]) rfl [] (by simp) (by simp) (by simp [distance, hplace])
  | leave hplace => exact .quiet (by simp [pending, hplace]) rfl [] (by simp) (by simp) (by simp [distance, hplace])
  | clear hplace => exact .quiet (by simp [pending, hplace]) rfl [] (by simp) (by simp) (by simp [distance, hplace])
  | send hplace =>
    exact .quiet (by simp [pending, hplace]) rfl [.sent s.i s.icmpHeader] rfl (by simp) (by simp [distance, hplace])
  | front hplace _ => exact .quiet (by simp [pending, hplace]) rfl [] (by simp) (by simp) (by simp [distance, hplace])
  | popFront reply hplace =>
    obtain ⟨rfl, hcount⟩ := hs.popping reply hplace
    refine .quiet ?_ rfl [] (by simp) (by simp) (by simp [distance, hplace])
    simp only [pending, hplace, CircularQueue.buff_popFront, CircularQueue.contents_popFront]
    exact (s.queue.contents_eq_cons hcount).symm
  | skip reply hplace hother =>
    exact .skipped (s.queue.buff.get reply) (by simp [pending, hplace]) hother rfl [] (by simp) (by simp) (by simp [distance])
  | fail reply hplace hother line =>
    exact .skipped (s.queue.buff.get reply) (by simp [pending, hplace, print]) hother rfl [.printed (chars line)] rfl (by simp)
      (by simp [distance, print])
  | receive reply hplace hown =>
    exact .received (s.queue.buff.get reply) s.queue.contents (by simp [pending, hplace]) hown (by simp [Asked, hplace]) rfl
  | advance hplace => exact .next (by simp [pending, hplace]) rfl rfl

/-! ## What holds in every state -/

theorem consistent_init (cnt : Option Nat) (checksum : UInt16) (buff : List.Vector Message queueSize) :
    (init cnt checksum buff).Consistent checksum where
  header := rfl
  popping _ h := nomatch h
  processing _ h := nomatch h
  sent _ _ h := by simp [init] at h
  asked h := absurd h id
  ended _ h := by simp [Ended, init] at h

/-- A step within an iteration. -/
theorem Consistent.frame (hs : s.Consistent checksum) (hheader : s'.icmpHeader = s.icmpHeader) (hi : s'.i = s.i)
    {entries : List Entry} (hlog : s'.log = s.log ++ entries)
    (hsent : ∀ i header, .sent i header ∈ entries → i = s.i ∧ header = s.icmpHeader)
    (hasked : s'.Asked → s.Asked ∨ .sent s.i s.icmpHeader ∈ entries)
    (hended : s'.place = .advance → s.place = .advance ∨ ∃ seqNum reply, .received s.i seqNum reply ∈ entries)
    (hpopping : ∀ reply, s'.place = .popFront reply → reply = s'.queue.slot 0 ∧ s'.queue.count ≠ 0)
    (hprocessing : ∀ reply, s'.place = .process reply → reply = s'.queue.slot (queueSize - 1)) : s'.Consistent checksum where
  header := by rw [hheader, hi, hs.header]
  popping := hpopping
  processing := hprocessing
  sent i header h := by
    rw [hlog, List.mem_append] at h
    rcases h with h | h
    · exact hs.sent i header h
    · obtain ⟨rfl, rfl⟩ := hsent i header h
      exact hs.header
  asked h := by
    rw [hlog, hheader, hi, List.mem_append]
    exact (hasked h).imp_left hs.asked
  ended i h := by
    rw [Ended, hi] at h
    have hreceived : (∃ seqNum reply, .received i seqNum reply ∈ s.log) ∨
        ∃ seqNum reply, .received i seqNum reply ∈ entries := by
      rcases h with hlt | ⟨rfl, hplace⟩
      · exact .inl (hs.ended i (.inl hlt))
      · exact (hended hplace).imp_left fun hplace => hs.ended s.i (.inr ⟨rfl, hplace⟩)
    rw [hlog]
    rcases hreceived with ⟨seqNum, reply, h⟩ | ⟨seqNum, reply, h⟩
    · exact ⟨seqNum, reply, List.mem_append_left _ h⟩
    · exact ⟨seqNum, reply, List.mem_append_right _ h⟩

theorem Consistent.move (hs : s.Consistent checksum) (h : Move s s') : s'.Consistent checksum := by
  cases h with
  | enter hplace =>
    exact hs.frame rfl rfl (List.append_nil _).symm (by simp) (absurd · id) (by simp) (by simp) (by simp)
  | leave hplace =>
    exact hs.frame rfl rfl (List.append_nil _).symm (by simp) (absurd · id) (by simp) (by simp) (by simp)
  | clear hplace =>
    exact hs.frame rfl rfl (List.append_nil _).symm (by simp) (absurd · id) (by simp) (by simp) (by simp)
  | send hplace => exact hs.frame rfl rfl rfl (by simp) (fun _ => .inr (by simp)) (by simp) (by simp) (by simp)
  | front hplace hnonempty =>
    refine hs.frame rfl rfl (List.append_nil _).symm (by simp) (fun _ => .inl (by simp [Asked, hplace])) (by simp) ?_ (by simp)
    simp only [Place.popFront.injEq]
    exact fun reply hreply => ⟨hreply.symm, hnonempty⟩
  | popFront reply hplace =>
    obtain ⟨rfl, hcount⟩ := hs.popping reply hplace
    refine hs.frame rfl rfl (List.append_nil _).symm (by simp) (fun _ => .inl (by simp [Asked, hplace])) (by simp) (by simp) ?_
    simp only [Place.process.injEq, s.queue.slot_popFront hcount]
    rintro reply rfl
    exact (s.queue.slot_turn 0).symm
  | skip reply hplace _ =>
    exact hs.frame rfl rfl (List.append_nil _).symm (by simp) (fun _ => .inl (by simp [Asked, hplace])) (by simp) (by simp)
      (by simp)
  | fail reply hplace _ line =>
    exact hs.frame rfl rfl rfl (by simp) (absurd · id) (by simp [print]) (by simp [print]) (by simp [print])
  | receive reply hplace _ =>
    exact hs.frame rfl rfl rfl (by simp) (fun _ => .inl (by simp [Asked, hplace])) (fun _ => .inr (by simp)) (by simp) (by simp)
  | advance hplace => exact {
      header := by rw [hs.header, request_succ]
      popping := by simp
      processing := by simp
      sent := hs.sent
      asked := (absurd · id)
      ended := fun i h => by
        rcases h with hlt | ⟨-, hplace'⟩
        · have hended : s.Ended i := (Nat.lt_succ_iff_lt_or_eq.mp hlt).imp_right fun hi => ⟨hi, hplace⟩
          exact hs.ended i hended
        · nomatch hplace' }

theorem Consistent.handleRecv (hs : s.Consistent checksum) (msg : Message) : (s.handleRecv msg).Consistent checksum := by
  refine hs.frame rfl rfl (List.append_nil _).symm (by simp) .inl .inl (fun reply hplace => ?_) (fun reply hplace => ?_)
  · obtain ⟨hslot, hcount⟩ := hs.popping reply hplace
    refine ⟨?_, ?_⟩
    · rw [State.handleRecv, s.queue.slot_pushBack]
      exact hslot
    · have hle := s.queue.count_le_pushBack msg
      exact fun hzero => hcount (Nat.eq_zero_of_le_zero (hzero ▸ hle))
  · rw [State.handleRecv, s.queue.slot_pushBack]
    exact hs.processing reply hplace

theorem Consistent.step (hs : s.Consistent checksum) {e : Event} (h : s.step e = some s') : s'.Consistent checksum := by
  cases e with
  | arrive msg =>
    obtain rfl := Option.some.inj h
    exact hs.handleRecv msg
  | timeout =>
    rw [State.step] at h
    split at h
    · obtain rfl := Option.some.inj h
      exact hs.frame rfl rfl rfl (by simp) (absurd · id) (by simp [print]) (by simp [print]) (by simp [print])
    · nomatch h
  | proceed => exact hs.move (move_of_proceed (hs.header ▸ echoId_request checksum s.i) h)

end State
end PingTool
end NetworkingFramework
