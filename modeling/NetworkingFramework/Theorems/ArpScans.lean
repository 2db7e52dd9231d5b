import NetworkingFramework.Lemmas.ArpScan
import NetworkingFramework.Theorems.ArpSearches

/-!
# Scans of a subnet

A scan returns, for each address of its subnet that a stored reply came from, what the first of these says. It has then asked
for each address that it goes through once, in order. It returns by itself, however much has arrived.
-/

namespace NetworkingFramework.ArpTool

open Wire Runs

namespace Scan

variable {mask : Ip4SubnetMask} {skipAddrs : Finset Ip4Addr} {srcMac : MacAddr} {srcIp currIp : Ip4Addr}
  {buff : List.Vector ArpHeader queueSize} {s s' : Scan}

/-- One request for each address that a scan goes through and that is not skipped, in increasing order. -/
def AsksOnce (mask : Ip4SubnetMask) (skipAddrs : Finset Ip4Addr) (srcMac : MacAddr) (srcIp : Ip4Addr) (sent : List Bytes) : Prop :=
  ∃ addrs, List.Forall₂ (IsRequestFor srcMac srcIp) addrs sent ∧ addrs.Pairwise (fun a b => a.less b = true) ∧
    ∀ addr, addr ∈ addrs ↔ mask.Swept addr ∧ addr ∉ skipAddrs

/-- The two ends of a scan's loop are those of the sweep. -/
theorem HasSent.asksOnce (h : s.HasSent) :
    0 < s.mask.noMaskBits ∧ s.mask.noMaskBits < 32 ∧ AsksOnce s.mask s.skipAddrs s.srcMac s.srcIp s.sent := by
  obtain ⟨⟨first, hsweeps⟩, hout⟩ := h
  have hlt := hsweeps.narrow
  have hpos : 0 < s.mask.noMaskBits := by
    by_contra hzero
    have hempty : s.mask.noMaskBits = 0 := Nat.eq_zero_of_not_pos hzero
    exact hout (Ip4SubnetMask.comparedAs_of_swept
      ⟨fun k hk => by simp [hempty] at hk, fun hsplit => (hsplit (by rw [hempty])).elim⟩)
  refine ⟨hpos, hlt, ?_⟩
  obtain ⟨first', hfirst', hstart⟩ := smallestIpAddrInSubnet_eq hlt
  obtain rfl : first' = first := Except.ok.inj (hfirst'.symm.trans hsweeps.smallest)
  obtain ⟨visited, fuel, hsweep, hsorted, hvisited⟩ := Ip4SubnetMask.IsFirst.exists_sweep hpos hlt hstart
  have hiterate := Sweep.sweep_eq_iterate (fun addr => decide (s.mask.ComparedAs addr)) generateNextIp (a := first')
    (fun k hk => decide_eq_true (hsweeps.inside k hk)) (by rw [← hsweeps.curr]; exact decide_eq_false hout)
    (Nat.lt_succ_self s.requestCnt)
  have hsame : visited = List.iterate generateNextIp first' s.requestCnt := Option.some.inj
    ((Sweep.sweep_mono _ _ (Nat.le_max_left fuel _) hsweep).symm.trans (Sweep.sweep_mono _ _ (Nat.le_max_right fuel _) hiterate))
  refine ⟨_, hsweeps.sent, ?_, fun addr => ?_⟩
  · rw [← hsame]
    exact hsorted.filter _
  · rw [← hsame, List.mem_filter, hvisited, decide_eq_true_iff]

theorem consistent_of_reached (h : Reached Scan.step Allowed (init mask skipAddrs srcMac srcIp currIp buff) s) :
    s.Consistent mask skipAddrs srcMac srcIp :=
  h.invariant (P := fun s => s.Consistent mask skipAddrs srcMac srcIp) (consistent_init mask skipAddrs srcMac srcIp currIp buff)
    fun _ _ _ hs hallowed hstep => hs.step hallowed hstep

/-! ## The tool comes to an end -/

/-- How far the tool is from having looked at what is in the queue. -/
def distance (s : Scan) : Nat :=
  6 * s.queue.count + match s.place with
    | .start => s.mask.span + 6
    | .send => s.mask.span - s.requestCnt + 5
    | .wait => 4
    | .isEmpty => 3
    | .front => 1
    | .popFront _ => 0
    | .readIp _ => 5
    | .readMac _ _ => 4
    | .returned | .faulted _ => 0

/-- Where a step of the tool leads: to its end, with nothing left in the queue, or to a fault, or closer to the end. -/
def LeadsOn (s s' : Scan) : Prop :=
  s'.place = .returned ∧ s'.queue.contents = [] ∨ (∃ fault, s'.place = .faulted fault) ∨
    s'.place ≠ .returned ∧ s'.distance < s.distance

/-- The loop goes through no more addresses than its first octets leave. -/
theorem Sweeps.requestCnt_lt {first : Ip4Addr} (h : s.Sweeps first) (hpos : 0 < s.mask.noMaskBits)
    (hmore : s.mask.ComparedAs s.currIp) :
    s.requestCnt < s.mask.span := by
  obtain ⟨first', hfirst', hstart⟩ := smallestIpAddrInSubnet_eq h.narrow
  obtain rfl : first' = first := Except.ok.inj (hfirst'.symm.trans h.smallest)
  have hout : ¬s.mask.ComparedAs (generateNextIp^[s.mask.span] first') := by
    by_cases hwhole : s.mask.noMaskBits % 8 = 0
    · exact Ip4SubnetMask.IsFirst.not_comparedAs_of_whole hwhole hpos h.narrow hstart
    · exact Ip4SubnetMask.IsFirst.not_comparedAs_of_split hwhole h.narrow hstart
  by_contra hle
  rcases Nat.lt_or_eq_of_le (Nat.le_of_not_lt hle) with hlt | heq
  · exact hout (h.inside _ hlt)
  · rw [heq, ← h.curr] at hout
    exact hout hmore

/-- The tool's next step. -/
theorem Consistent.exists_proceed (hs : s.Consistent mask skipAddrs srcMac srcIp) (hpos : 0 < s.mask.noMaskBits)
    (hmore : s.place ≠ .returned) (hwell : ∀ fault, s.place ≠ .faulted fault) :
    ∃ s', s.proceed = some s' ∧ s'.stored = s.stored ∧ s'.arrived = s.arrived ∧ s.LeadsOn s' := by
  have hlooking := hs.looking
  unfold Looking at hlooking
  cases hplace : s.place with
  | start =>
    refine ⟨_, by simp only [Scan.proceed, hplace]; rfl, ?_⟩
    cases smallestIpAddrInSubnet s.mask with
    | error fault => exact ⟨rfl, rfl, .inr (.inl ⟨fault, rfl⟩)⟩
    | ok first =>
      rw [hplace] at hlooking
      obtain ⟨hcnt, -⟩ := hlooking
      refine ⟨rfl, rfl, .inr (.inr ⟨by rintro ⟨⟩, ?_⟩)⟩
      show 6 * s.queue.count + (s.mask.span - s.requestCnt + 5) < s.distance
      simp only [distance, hplace, hcnt]
      omega
  | send =>
    rw [hplace] at hlooking
    obtain ⟨⟨first, hsweeps⟩, -⟩ := hlooking
    refine ⟨_, by simp only [Scan.proceed, hplace]; rfl, ?_⟩
    rcases hsweeps.sendTurn with ⟨-, hturn⟩ | ⟨hinside, frames, hturn, -⟩
    · rw [hturn, orFault_ok]
      refine ⟨rfl, rfl, .inr (.inr ⟨by rintro ⟨⟩, ?_⟩)⟩
      simp only [distance, hplace]
      omega
    · have hlt := hsweeps.requestCnt_lt hpos hinside
      rw [hturn, orFault_ok]
      refine ⟨rfl, rfl, .inr (.inr ⟨?_, ?_⟩)⟩
      · rw [show (s.sentTo frames).place = s.place from rfl, hplace]
        rintro ⟨⟩
      · simp only [distance, sentTo, hplace]
        omega
  | wait =>
    refine ⟨{ s with place := .isEmpty }, by simp only [Scan.proceed, hplace], rfl, rfl, .inr (.inr ⟨by rintro ⟨⟩, ?_⟩)⟩
    simp only [distance, hplace]
    omega
  | isEmpty =>
    refine ⟨{ s with place := if s.queue.isEmpty then .returned else .front }, by simp only [Scan.proceed, hplace], rfl, rfl, ?_⟩
    by_cases hempty : s.queue.isEmpty = true
    · rw [if_pos hempty]
      exact .inl ⟨rfl, s.queue.isEmpty_iff.mp hempty⟩
    · rw [if_neg hempty]
      refine .inr (.inr ⟨by rintro ⟨⟩, ?_⟩)
      simp only [distance, hplace]
      omega
  | front =>
    rw [hplace] at hlooking
    have hnonempty : ¬s.queue.isEmpty = true := by simpa [CircularQueue.isEmpty] using hlooking.2.2
    refine ⟨{ s with place := .popFront ⟨s.queue.baseIn, s.queue.baseIn_lt⟩ }, ?_, rfl, rfl, .inr (.inr ⟨by rintro ⟨⟩, ?_⟩)⟩
    · simp only [Scan.proceed, hplace, if_neg hnonempty]
    simp only [distance, hplace]
    omega
  | popFront reply =>
    rw [hplace] at hlooking
    have hcount : s.queue.popFront.2.count = s.queue.count - 1 := by
      rw [← CircularQueue.length_contents, s.queue.contents_popFront, List.length_tail, CircularQueue.length_contents]
    refine ⟨{ s with queue := s.queue.popFront.2, taken := s.taken ++ s.queue.front.toList, place := .readIp reply }, ?_, rfl, rfl,
      .inr (.inr ⟨by rintro ⟨⟩, ?_⟩)⟩
    · simp only [Scan.proceed, hplace]
    have hsome := hlooking.2.2.2
    simp only [distance, hplace, hcount]
    omega
  | readIp reply =>
    refine ⟨_, by simp only [Scan.proceed, hplace]; rfl, ?_⟩
    rw [hplace] at hlooking
    obtain ⟨hsent, -⟩ := hlooking
    have hback : LeadsOn s { s with place := .isEmpty } := by
      refine .inr (.inr ⟨by rintro ⟨⟩, ?_⟩)
      simp only [distance, hplace]
      omega
    unfold Scan.readIp
    cases extractIp4Addr.run (s.queue.buff.get reply).senderProtAddr 0 with
    | error fault => exact ⟨rfl, rfl, .inr (.inl ⟨fault, rfl⟩)⟩
    | ok read =>
      simp only [ok_bind, hsent.isInside, pure_eq_ok]
      by_cases hinside : s.mask.ComparedAs read.1
      · by_cases hknown : read.1 ∈ s.res.map Prod.fst
        · simp only [hinside, decide_true, Bool.not_true, Bool.false_eq_true, if_false, hknown, if_true, orFault_ok]
          exact ⟨trivial, trivial, hback⟩
        · simp only [hinside, decide_true, Bool.not_true, Bool.false_eq_true, if_false, hknown, orFault_ok]
          refine ⟨trivial, trivial, .inr (.inr ⟨by rintro ⟨⟩, ?_⟩)⟩
          simp only [distance, hplace]
          omega
      · simp only [hinside, decide_false, Bool.not_false, if_true, orFault_ok]
        exact ⟨trivial, trivial, hback⟩
  | readMac reply replyIp =>
    refine ⟨_, by simp only [Scan.proceed, hplace]; rfl, ?_⟩
    unfold Scan.readMac
    cases extractMacAddr.run (s.queue.buff.get reply).senderHardAddr 0 with
    | error fault => exact ⟨rfl, rfl, .inr (.inl ⟨fault, rfl⟩)⟩
    | ok read =>
      refine ⟨rfl, rfl, .inr (.inr ⟨by rintro ⟨⟩, ?_⟩)⟩
      show 6 * s.queue.count + 3 < s.distance
      simp only [distance, hplace]
      omega
  | returned => exact absurd hplace hmore
  | faulted fault => exact absurd hplace (hwell fault)

/-! ## What a scan returns -/

/-- A state after the tool has returned. -/
theorem Consistent.returned (hs : s.Consistent mask skipAddrs srcMac srcIp) (hplace : s.place = .returned) :
    0 < mask.noMaskBits ∧ mask.noMaskBits < 32 ∧ AsksOnce mask skipAddrs srcMac srcIp s.sent ∧ FirstReplies mask s.taken s.res := by
  have hlooking := hs.looking
  unfold Looking at hlooking
  rw [hplace] at hlooking
  obtain ⟨hsent, hprocessed⟩ := hlooking
  obtain ⟨hpos, hlt, hasks⟩ := hsent.asksOnce
  rw [hs.skipAddrs, hs.srcMac, hs.srcIp] at hasks
  rw [hs.mask] at hpos hlt hasks hprocessed
  exact ⟨hpos, hlt, hasks, firstReplies_of_processReplies hprocessed⟩

end Scan
end NetworkingFramework.ArpTool
