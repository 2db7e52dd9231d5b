import NetworkingFramework.ArpScan
import NetworkingFramework.Lemmas.ArpSearch
import NetworkingFramework.Lemmas.SubnetScan

/-!
# Lemmas: scanning a subnet while replies arrive

What holds of a scan whatever arrives, as long as no reply is overwritten while the tool reads it.
-/

namespace NetworkingFramework.ArpTool

open Wire Runs

/-! ## The loop over the replies -/

/-- One more reply. -/
theorem processReplies_concat (mask : Ip4SubnetMask) (res : List (Ip4Addr × MacAddr)) (replies : List ArpHeader)
    (reply : ArpHeader) :
    processReplies mask res (replies ++ [reply]) =
      processReplies mask res replies >>= fun res' => processReplies mask res' [reply] := by
  induction replies generalizing res with
  | nil => rfl
  | cons first replies ih =>
    rw [List.cons_append, processReplies, processReplies]
    cases extractIp4Addr.run first.senderProtAddr 0 with
    | error fault => rfl
    | ok read =>
      simp only [ok_bind]
      cases isInsideIp4Subnet mask read.1 with
      | error fault => rfl
      | ok inside =>
        simp only [ok_bind]
        cases inside with
        | false => exact ih res
        | true =>
          by_cases hknown : read.1 ∈ res.map Prod.fst
          · simp only [hknown, if_true]
            exact ih res
          · simp only [hknown, if_false]
            cases extractMacAddr.run first.senderHardAddr 0 with
            | error fault => rfl
            | ok readMac => exact ih _

/-- A reply that adds nothing. -/
theorem processReplies_skip {mask : Ip4SubnetMask} {res : List (Ip4Addr × MacAddr)} {reply : ArpHeader}
    {replyIp : Ip4Addr} {n : Nat}
    {inside : Bool} (hread : extractIp4Addr.run reply.senderProtAddr 0 = .ok (replyIp, n))
    (hinside : isInsideIp4Subnet mask replyIp = .ok inside) (hskip : inside = true → replyIp ∈ res.map Prod.fst) :
    processReplies mask res [reply] = .ok res := by
  simp only [processReplies, hread, hinside, ok_bind]
  cases inside with
  | false => rfl
  | true => rw [if_neg (by decide), if_pos (hskip rfl)]

/-- A reply from a new address of the subnet. -/
theorem processReplies_new {mask : Ip4SubnetMask} {res : List (Ip4Addr × MacAddr)} {reply : ArpHeader} {replyIp : Ip4Addr}
    {replyMac : MacAddr} {n k : Nat} (hread : extractIp4Addr.run reply.senderProtAddr 0 = .ok (replyIp, n))
    (hinside : isInsideIp4Subnet mask replyIp = .ok true) (hnew : replyIp ∉ res.map Prod.fst)
    (hmac : extractMacAddr.run reply.senderHardAddr 0 = .ok (replyMac, k)) :
    processReplies mask res [reply] = .ok (res ++ [(replyIp, replyMac)]) := by
  simp only [processReplies, hread, hinside, ok_bind, hmac]
  rw [if_neg (by decide), if_neg hnew]

/-- Of each address of the subnet what its first reply says, and nothing else. -/
structure FirstReplies (mask : Ip4SubnetMask) (replies : List ArpHeader) (res : List (Ip4Addr × MacAddr)) : Prop where
  found : Found mask res
  sound : ∀ pair ∈ res, ∃ reply, replies.find? (senderIp · = some pair.1) = some reply ∧ senderMac reply = some pair.2
  complete : ∀ ip, isInsideIp4Subnet mask ip = .ok true → ∀ reply ∈ replies, senderIp reply = some ip → ip ∈ res.map Prod.fst

theorem firstReplies_nil (mask : Ip4SubnetMask) : FirstReplies mask [] [] :=
  ⟨.nil mask, fun _ h => absurd h List.not_mem_nil, fun _ _ _ h => absurd h List.not_mem_nil⟩

/-- A reply whose sender was found, or is outside. -/
theorem FirstReplies.skip {mask : Ip4SubnetMask} {replies : List ArpHeader} {res : List (Ip4Addr × MacAddr)}
    (h : FirstReplies mask replies res) {reply : ArpHeader} {replyIp : Ip4Addr} (hip : senderIp reply = some replyIp)
    (hskip : isInsideIp4Subnet mask replyIp = .ok true → replyIp ∈ res.map Prod.fst) :
    FirstReplies mask (replies ++ [reply]) res := by
  refine ⟨h.found, fun pair hpair => ?_, fun ip hinside other hother hsender => ?_⟩
  · obtain ⟨first, hfirst, hmac⟩ := h.sound pair hpair
    exact ⟨first, by rw [List.find?_append, hfirst]; rfl, hmac⟩
  · rcases List.mem_append.mp hother with hother | hother
    · exact h.complete ip hinside other hother hsender
    · rw [List.mem_singleton.mp hother, hip] at hsender
      obtain rfl := Option.some.inj hsender
      exact hskip hinside

/-- A reply whose sender is inside and was not found. -/
theorem FirstReplies.new {mask : Ip4SubnetMask} {replies : List ArpHeader} {res : List (Ip4Addr × MacAddr)}
    (h : FirstReplies mask replies res) {reply : ArpHeader} {replyIp : Ip4Addr} {replyMac : MacAddr}
    (hip : senderIp reply = some replyIp) (hmac : senderMac reply = some replyMac)
    (hinside : isInsideIp4Subnet mask replyIp = .ok true)
    (hnew : replyIp ∉ res.map Prod.fst) : FirstReplies mask (replies ++ [reply]) (res ++ [(replyIp, replyMac)]) := by
  have hnone : replies.find? (senderIp · = some replyIp) = none := by
    rw [List.find?_eq_none]
    intro other hother hsender
    exact hnew (h.complete replyIp hinside other hother (by simpa using hsender))
  refine ⟨h.found.concat hinside hnew replyMac, fun pair hpair => ?_, fun ip hcompared other hother hsender => ?_⟩
  · rcases List.mem_append.mp hpair with hpair | hpair
    · obtain ⟨first, hfirst, hfirstMac⟩ := h.sound pair hpair
      exact ⟨first, by rw [List.find?_append, hfirst]; rfl, hfirstMac⟩
    · rw [List.mem_singleton.mp hpair]
      refine ⟨reply, ?_, hmac⟩
      rw [List.find?_append, hnone, List.find?_cons_of_pos (by simpa using hip)]
      rfl
  · rw [List.map_append, List.mem_append]
    rcases List.mem_append.mp hother with hother | hother
    · exact .inl (h.complete ip hcompared other hother hsender)
    · rw [List.mem_singleton.mp hother, hip] at hsender
      exact .inr (List.mem_singleton.mpr (Option.some.inj hsender).symm)

/-- What the loop finds. -/
theorem firstReplies_of_processReplies {mask : Ip4SubnetMask} {replies : List ArpHeader} {res : List (Ip4Addr × MacAddr)}
    (h : processReplies mask [] replies = .ok res) : FirstReplies mask replies res := by
  induction replies using List.reverseRecOn generalizing res with
  | nil => exact Except.ok.inj h ▸ firstReplies_nil mask
  | append_singleton replies reply ih =>
    rw [processReplies_concat, bind_eq_ok_iff] at h
    obtain ⟨before, hbefore, h⟩ := h
    have hfirst := ih hbefore
    simp only [processReplies, bind_eq_ok_iff] at h
    obtain ⟨⟨replyIp, n⟩, hread, inside, hinside, h⟩ := h
    cases inside with
    | false => exact Except.ok.inj h ▸ hfirst.skip (senderIp_eq hread) fun h' => absurd (hinside.symm.trans h') (by simp)
    | true =>
      by_cases hknown : replyIp ∈ before.map Prod.fst
      · simp only [hknown, if_true] at h
        exact Except.ok.inj h ▸ hfirst.skip (senderIp_eq hread) fun _ => hknown
      · simp only [hknown, if_false, Bool.not_true, Bool.false_eq_true, bind_eq_ok_iff] at h
        obtain ⟨⟨replyMac, k⟩, hmac, h⟩ := h
        exact Except.ok.inj h ▸ hfirst.new (senderIp_eq hread) (senderMac_eq hmac) hinside hknown

/-! ## The sending loop -/

/-- A mask of all bits has no octet of its own. -/
theorem smallestIpAddrInSubnet_error {mask : Ip4SubnetMask} (h : 32 ≤ mask.noMaskBits) :
    ∃ fault, smallestIpAddrInSubnet mask = .error fault := by
  have hbeyond : mask.baseAddr.octet (mask.noMaskBits / 8) = .error .outOfBounds := by
    unfold Ip4Addr.octet
    rw [List.getElem?_eq_none (by rw [Ip4Addr.length_octets]; omega)]
  exact ⟨.outOfBounds, by rw [smallestIpAddrInSubnet, hbeyond]; rfl⟩

/-- The loop has come so far: the addresses that it has gone through begin at the smallest one and are inside, and a request was
sent for each that is not skipped. -/
structure SentUpTo (mask : Ip4SubnetMask) (skipAddrs : Finset Ip4Addr) (srcMac : MacAddr) (srcIp : Ip4Addr) (requestCnt : Nat)
    (currIp : Ip4Addr) (sent : List Bytes) (first : Ip4Addr) : Prop where
  narrow : mask.noMaskBits < 32
  smallest : smallestIpAddrInSubnet mask = .ok first
  curr : currIp = generateNextIp^[requestCnt] first
  inside : ∀ k < requestCnt, mask.ComparedAs (generateNextIp^[k] first)
  sent : List.Forall₂ (IsRequestFor srcMac srcIp) ((List.iterate generateNextIp first requestCnt).filter (· ∉ skipAddrs)) sent

namespace Scan

/-- How far the loop of a scan has come. -/
def Sweeps (s : Scan) (first : Ip4Addr) : Prop := SentUpTo s.mask s.skipAddrs s.srcMac s.srcIp s.requestCnt s.currIp s.sent first

/-- The loop has ended. -/
def HasSent (s : Scan) : Prop := (∃ first, s.Sweeps first) ∧ ¬s.mask.ComparedAs s.currIp

theorem HasSent.isInside {s : Scan} (h : s.HasSent) (ip : Ip4Addr) :
    isInsideIp4Subnet s.mask ip = .ok (decide (s.mask.ComparedAs ip)) := by
  obtain ⟨⟨first, hsweeps⟩, -⟩ := h
  exact isInsideIp4Subnet_eq hsweeps.narrow ip

/-- The state after a request, or after an address that is skipped. -/
def sentTo (s : Scan) (frames : List Bytes) : Scan :=
  { s with sent := s.sent ++ frames, currIp := generateNextIp s.currIp, requestCnt := s.requestCnt + 1 }

/-- A turn of the loop. -/
theorem Sweeps.sendTurn {s : Scan} {first : Ip4Addr} (h : s.Sweeps first) :
    (¬s.mask.ComparedAs s.currIp ∧ s.sendTurn = .ok { s with place := .wait }) ∨
      s.mask.ComparedAs s.currIp ∧ ∃ frames, s.sendTurn = .ok (s.sentTo frames) ∧ (s.sentTo frames).Sweeps first := by
  unfold Scan.sendTurn
  rw [isInsideIp4Subnet_eq h.narrow]
  by_cases hinside : s.mask.ComparedAs s.currIp
  · refine .inr ⟨hinside, ?_⟩
    have hadded : List.iterate generateNextIp first (s.requestCnt + 1) =
        List.iterate generateNextIp first s.requestCnt ++ [s.currIp] := by
      rw [List.iterate_add, h.curr]
      rfl
    have hmore (frames : List Bytes)
        (hframes : List.Forall₂ (IsRequestFor s.srcMac s.srcIp) ([s.currIp].filter (· ∉ s.skipAddrs)) frames) :
        (s.sentTo frames).Sweeps first := by
      refine ⟨h.narrow, h.smallest, ?_, fun k hk => ?_, ?_⟩
      · show generateNextIp s.currIp = generateNextIp^[s.requestCnt + 1] first
        rw [Function.iterate_succ_apply', h.curr]
      · rcases Nat.lt_succ_iff_lt_or_eq.mp hk with hk | rfl
        · exact h.inside k hk
        · exact h.curr ▸ hinside
      · show List.Forall₂ _ ((List.iterate generateNextIp first (s.requestCnt + 1)).filter _) (s.sent ++ frames)
        rw [hadded, List.filter_append]
        exact List.rel_append h.sent hframes
    by_cases hskip : s.currIp ∈ s.skipAddrs
    · exact ⟨[], by simp [hinside, hskip, sentTo], hmore [] (by simp [hskip])⟩
    · obtain ⟨frame, hsend, hfor⟩ := send_request s.srcMac s.srcIp s.currIp
      exact ⟨[frame], by simp [hinside, hskip, hsend, sentTo], hmore [frame] (by simp [hskip, hfor])⟩
  · exact .inl ⟨hinside, by simp [hinside]⟩

/-! ## What holds of a scan -/

/-- What the tool knows of the replies that it has taken, where it is. -/
def Looking (s : Scan) : Prop :=
  match s.place with
  | .start => s.requestCnt = 0 ∧ s.sent = [] ∧ s.taken = [] ∧ s.res = []
  | .send => (∃ first, s.Sweeps first) ∧ s.taken = [] ∧ s.res = []
  | .wait => s.HasSent ∧ s.taken = [] ∧ s.res = []
  | .isEmpty | .returned => s.HasSent ∧ processReplies s.mask [] s.taken = .ok s.res
  | .front => s.HasSent ∧ processReplies s.mask [] s.taken = .ok s.res ∧ s.queue.count ≠ 0
  | .popFront reply => s.HasSent ∧ processReplies s.mask [] s.taken = .ok s.res ∧ reply = s.queue.slot 0 ∧ s.queue.count ≠ 0
  | .readIp reply => s.HasSent ∧ ∃ before, s.queue.HoldsLast before s.taken reply ∧ processReplies s.mask [] before = .ok s.res
  | .readMac reply replyIp => s.HasSent ∧ ∃ before, s.queue.HoldsLast before s.taken reply ∧
      processReplies s.mask [] before = .ok s.res ∧
      (∃ n, extractIp4Addr.run (s.queue.buff.get reply).senderProtAddr 0 = .ok (replyIp, n)) ∧
      isInsideIp4Subnet s.mask replyIp = .ok true ∧ replyIp ∉ s.res.map Prod.fst
  | .faulted _ => 32 ≤ s.mask.noMaskBits ∨ ∃ data ∈ s.arrived, Malformed data

/-- What holds as long as nothing is overwritten. -/
structure Consistent (mask : Ip4SubnetMask) (skipAddrs : Finset Ip4Addr) (srcMac : MacAddr) (srcIp : Ip4Addr)
    (s : Scan) : Prop where
  mask : s.mask = mask
  skipAddrs : s.skipAddrs = skipAddrs
  srcMac : s.srcMac = srcMac
  srcIp : s.srcIp = srcIp
  stored : ∀ reply ∈ s.stored, ∃ data ∈ s.arrived, ArpProtocol.connectRecv (some arpOpReply) data = .ok [reply]
  kept : s.stored = s.taken ++ s.queue.contents
  looking : s.Looking

variable {mask : Ip4SubnetMask} {skipAddrs : Finset Ip4Addr} {srcMac : MacAddr} {srcIp : Ip4Addr} {s s' : Scan}

theorem consistent_init (mask : Ip4SubnetMask) (skipAddrs : Finset Ip4Addr) (srcMac : MacAddr) (srcIp currIp : Ip4Addr)
    (buff : List.Vector ArpHeader queueSize) :
    (init mask skipAddrs srcMac srcIp currIp buff).Consistent mask skipAddrs srcMac srcIp where
  mask := rfl
  skipAddrs := rfl
  srcMac := rfl
  srcIp := rfl
  stored := fun _ h => absurd h List.not_mem_nil
  kept := rfl
  looking := ⟨rfl, rfl, rfl, rfl⟩

/-- A reply that the tool cannot read came in a malformed frame. -/
theorem Consistent.malformed (hs : s.Consistent mask skipAddrs srcMac srcIp) {reply : ArpHeader} (hmem : reply ∈ s.taken)
    (h : senderIp reply = none ∨ senderMac reply = none) : ∃ data ∈ s.arrived, Malformed data := by
  obtain ⟨data, hdata, hrecv⟩ := hs.stored reply (hs.kept ▸ List.mem_append_left _ hmem)
  refine ⟨data, hdata, ?_⟩
  unfold Malformed
  rw [hrecv]
  exact ⟨reply, List.mem_cons_self, h⟩

/-! ## The tool's steps -/

theorem orFault_ok (s s' : Scan) : s.orFault (.ok s') = s' := rfl

theorem orFault_error (s : Scan) (fault : Fault) : s.orFault (.error fault) = { s with place := .faulted fault } := rfl

/-- The first half of a turn of the loop over the replies. -/
theorem Consistent.readIp (hs : s.Consistent mask skipAddrs srcMac srcIp) {reply : Fin queueSize}
    (hplace : s.place = .readIp reply) :
    (s.orFault (s.readIp reply)).Consistent mask skipAddrs srcMac srcIp := by
  have hlooking := hs.looking
  unfold Looking at hlooking
  rw [hplace] at hlooking
  obtain ⟨hsent, before, hlast, hbefore⟩ := hlooking
  unfold Scan.readIp
  cases hread : extractIp4Addr.run (s.queue.buff.get reply).senderProtAddr 0 with
  | error fault =>
    rw [error_bind, orFault_error]
    exact { hs with looking := .inr (hs.malformed hlast.mem (.inl (senderIp_eq_none hread))) }
  | ok read =>
    have hinside := hsent.isInside read.1
    have htaken (hskip : s.mask.ComparedAs read.1 → read.1 ∈ s.res.map Prod.fst) :
        processReplies s.mask [] s.taken = .ok s.res := by
      rw [hlast.behind, processReplies_concat, hbefore, ok_bind]
      exact processReplies_skip hread hinside fun hcompared => hskip (by simpa using hcompared)
    simp only [ok_bind, hinside, pure_eq_ok]
    by_cases hcompared : s.mask.ComparedAs read.1
    · by_cases hknown : read.1 ∈ s.res.map Prod.fst
      · simp only [hcompared, decide_true, Bool.not_true, Bool.false_eq_true, if_false, hknown, if_true, orFault_ok]
        exact { hs with looking := ⟨hsent, htaken fun _ => hknown⟩ }
      · simp only [hcompared, decide_true, Bool.not_true, Bool.false_eq_true, if_false, hknown, orFault_ok]
        refine { hs with looking := ⟨hsent, before, hlast, hbefore, ⟨read.2, hread⟩, ?_, hknown⟩ }
        rw [hinside, decide_eq_true hcompared]
    · simp only [hcompared, decide_false, Bool.not_false, if_true, orFault_ok]
      exact { hs with looking := ⟨hsent, htaken fun h => absurd h hcompared⟩ }

/-- The second half. -/
theorem Consistent.readMac (hs : s.Consistent mask skipAddrs srcMac srcIp) {reply : Fin queueSize} {replyIp : Ip4Addr}
    (hplace : s.place = .readMac reply replyIp) : (s.orFault (s.readMac reply replyIp)).Consistent mask skipAddrs srcMac srcIp := by
  have hlooking := hs.looking
  unfold Looking at hlooking
  rw [hplace] at hlooking
  obtain ⟨hsent, before, hlast, hbefore, ⟨n, hread⟩, hinside, hnew⟩ := hlooking
  unfold Scan.readMac
  cases hmac : extractMacAddr.run (s.queue.buff.get reply).senderHardAddr 0 with
  | error fault =>
    rw [error_bind, orFault_error]
    exact { hs with looking := .inr (hs.malformed hlast.mem (.inr (senderMac_eq_none hmac))) }
  | ok read =>
    simp only [ok_bind, pure_eq_ok, orFault_ok]
    refine { hs with looking := ⟨hsent, ?_⟩ }
    show processReplies s.mask [] s.taken = _
    rw [hlast.behind, processReplies_concat, hbefore, ok_bind]
    exact processReplies_new hread hinside hnew hmac

theorem Consistent.proceed (hs : s.Consistent mask skipAddrs srcMac srcIp) (h : s.proceed = some s') :
    s'.Consistent mask skipAddrs srcMac srcIp := by
  have hlooking := hs.looking
  unfold Looking at hlooking
  unfold Scan.proceed at h
  split at h
  · next hplace =>
    rw [hplace] at hlooking
    obtain ⟨hcnt, hnothing, htaken, hres⟩ := hlooking
    obtain rfl := Option.some.inj h
    by_cases hlt : s.mask.noMaskBits < 32
    · obtain ⟨first, hfirst, -⟩ := smallestIpAddrInSubnet_eq hlt
      rw [hfirst, ok_bind, pure_eq_ok, orFault_ok]
      refine { hs with looking := ⟨⟨first, hlt, hfirst, ?_, fun k hk => ?_, ?_⟩, htaken, hres⟩ }
      · show first = generateNextIp^[s.requestCnt] first
        rw [hcnt]
        rfl
      · exact absurd hk (by simp [hcnt])
      · show List.Forall₂ _ ((List.iterate generateNextIp first s.requestCnt).filter _) s.sent
        rw [hcnt, hnothing]
        exact .nil
    · have hwide := Nat.le_of_not_lt hlt
      obtain ⟨fault, hfault⟩ := smallestIpAddrInSubnet_error hwide
      rw [hfault, error_bind, orFault_error]
      exact { hs with looking := .inl hwide }
  · next hplace =>
    rw [hplace] at hlooking
    obtain ⟨⟨first, hsweeps⟩, htaken, hres⟩ := hlooking
    obtain rfl := Option.some.inj h
    rcases hsweeps.sendTurn with ⟨hout, hturn⟩ | ⟨-, frames, hturn, hmore⟩
    · rw [hturn, orFault_ok]
      exact { hs with looking := ⟨⟨⟨first, hsweeps⟩, hout⟩, htaken, hres⟩ }
    · rw [hturn, orFault_ok]
      refine { hs with looking := ?_ }
      show (s.sentTo frames).Looking
      unfold Looking
      rw [show (s.sentTo frames).place = .send from hplace]
      exact ⟨⟨first, hmore⟩, htaken, hres⟩
  · next hplace =>
    rw [hplace] at hlooking
    obtain ⟨hsent, htaken, hres⟩ := hlooking
    obtain rfl := Option.some.inj h
    refine { hs with looking := ⟨hsent, ?_⟩ }
    show processReplies s.mask [] s.taken = .ok s.res
    rw [htaken, hres]
    rfl
  · next hplace =>
    rw [hplace] at hlooking
    obtain rfl := Option.some.inj h
    by_cases hempty : s.queue.isEmpty = true
    · simp only [hempty, if_true]
      exact { hs with looking := hlooking }
    · simp only [hempty]
      exact { hs with looking := ⟨hlooking.1, hlooking.2, by simpa [CircularQueue.isEmpty] using hempty⟩ }
  · next hplace =>
    rw [hplace] at hlooking
    obtain ⟨hsent, hprocessed, hcount⟩ := hlooking
    obtain rfl := Option.some.inj h
    have hnonempty : ¬s.queue.isEmpty = true := by simpa [CircularQueue.isEmpty] using hcount
    simp only [hnonempty]
    exact { hs with looking := ⟨hsent, hprocessed, s.queue.slot_zero.symm, hcount⟩ }
  · next reply hplace =>
    rw [hplace] at hlooking
    obtain ⟨hsent, hprocessed, hslot, hcount⟩ := hlooking
    obtain rfl := Option.some.inj h
    have hkept := hs.kept
    rw [s.queue.contents_eq_cons hcount] at hkept
    refine { hs with kept := ?_, looking := ⟨hsent, s.taken, hslot ▸ CircularQueue.holdsLast_popFront hcount s.taken, hprocessed⟩ }
    rw [CircularQueue.toList_front hcount, hkept, s.queue.contents_popFront, List.append_assoc]
    rfl
  · next reply hplace =>
    obtain rfl := Option.some.inj h
    exact hs.readIp hplace
  · next reply replyIp hplace =>
    obtain rfl := Option.some.inj h
    exact hs.readMac hplace
  · cases h
  · cases h

/-! ## What arrives -/

/-- A header is put into the queue without overwriting the reply that is read. -/
theorem Consistent.handleRecv (hs : s.Consistent mask skipAddrs srcMac srcIp) (hkeeps : ¬s.Overwrites) {header : ArpHeader}
    (hheader : ∃ data ∈ s.arrived, ArpProtocol.connectRecv (some arpOpReply) data = .ok [header]) :
    (s.handleRecv header).Consistent mask skipAddrs srcMac srcIp := by
  have hlooking := hs.looking
  refine {
    mask := hs.mask, skipAddrs := hs.skipAddrs, srcMac := hs.srcMac, srcIp := hs.srcIp
    stored := fun reply hreply => ?_, kept := CircularQueue.storedWith_eq hs.kept header, looking := ?_ }
  · rcases CircularQueue.mem_of_mem_storedWith hreply with hreply | rfl
    · exact hs.stored reply hreply
    · exact hheader
  · cases hplace : s.place with
    | start | send | wait | isEmpty | returned | faulted fault =>
      unfold Looking at *
      rw [hplace] at hlooking
      rw [show (s.handleRecv header).place = s.place from rfl, hplace]
      exact hlooking
    | front =>
      unfold Looking at *
      rw [hplace] at hlooking
      rw [show (s.handleRecv header).place = s.place from rfl, hplace]
      obtain ⟨hsent, hprocessed, hcount⟩ := hlooking
      have hle := s.queue.count_le_pushBack header
      exact ⟨hsent, hprocessed, fun hzero => hcount (Nat.eq_zero_of_le_zero (hzero ▸ hle))⟩
    | popFront reply =>
      unfold Looking at *
      rw [hplace] at hlooking
      rw [show (s.handleRecv header).place = s.place from rfl, hplace]
      obtain ⟨hsent, hprocessed, hslot, hcount⟩ := hlooking
      have hle := s.queue.count_le_pushBack header
      refine ⟨hsent, hprocessed, ?_, fun hzero => hcount (Nat.eq_zero_of_le_zero (hzero ▸ hle))⟩
      rw [hslot]
      exact (s.queue.slot_pushBack header 0).symm
    | readIp reply =>
      unfold Looking at *
      rw [hplace] at hlooking
      rw [show (s.handleRecv header).place = s.place from rfl, hplace]
      obtain ⟨hsent, before, hlast, hbefore⟩ := hlooking
      have hstays := hlast.pushBack (fun hcount => hkeeps (by simpa [Overwrites, hplace] using hcount)) header
      exact ⟨hsent, before, hstays.1, hbefore⟩
    | readMac reply replyIp =>
      unfold Looking at *
      rw [hplace] at hlooking
      rw [show (s.handleRecv header).place = s.place from rfl, hplace]
      obtain ⟨hsent, before, hlast, hbefore, ⟨n, hread⟩, hinside, hnew⟩ := hlooking
      have hstays := hlast.pushBack (fun hcount => hkeeps (by simpa [Overwrites, hplace] using hcount)) header
      refine ⟨hsent, before, hstays.1, hbefore, ⟨n, ?_⟩, hinside, hnew⟩
      show extractIp4Addr.run ((s.queue.pushBack header).2.buff.get reply).senderProtAddr 0 = _
      rw [hstays.2]
      exact hread

/-- A frame arrives at the tool. -/
theorem Consistent.arrive (hs : s.Consistent mask skipAddrs srcMac srcIp) (hkeeps : ¬s.Overwrites) (data : Bytes) :
    (s.arrive data).Consistent mask skipAddrs srcMac srcIp := by
  have hstored : ∀ reply ∈ s.stored, ∃ data' ∈ s.arrived ++ [data],
      ArpProtocol.connectRecv (some arpOpReply) data' = .ok [reply] := by
    intro reply hreply
    obtain ⟨data', hdata', hrecv⟩ := hs.stored reply hreply
    exact ⟨data', List.mem_append_left _ hdata', hrecv⟩
  unfold Scan.arrive
  split
  · next fault hfault =>
    refine { hs with stored := hstored, looking := .inr ⟨data, List.mem_append_right _ List.mem_cons_self, ?_⟩ }
    unfold Malformed
    rw [hfault]
    trivial
  · next headers hrecv =>
    have harrived : ({ s with arrived := s.arrived ++ [data] } : Scan).Consistent mask skipAddrs srcMac srcIp := by
      refine { hs with stored := hstored, looking := ?_ }
      have hlooking := hs.looking
      unfold Looking at *
      cases hplace : s.place with
      | faulted fault =>
        rw [hplace] at hlooking
        exact hlooking.imp_right fun ⟨data', hdata', hmalformed⟩ => ⟨data', List.mem_append_left _ hdata', hmalformed⟩
      | _ =>
        rw [hplace] at hlooking
        exact hlooking
    obtain rfl | ⟨header, rfl⟩ := connectRecv_cases hrecv
    · exact harrived
    · exact harrived.handleRecv hkeeps ⟨data, List.mem_append_right _ List.mem_cons_self, hrecv⟩

theorem Consistent.step (hs : s.Consistent mask skipAddrs srcMac srcIp) {e : ScanEvent} (hallowed : s.Allowed e)
    (h : s.step e = some s') : s'.Consistent mask skipAddrs srcMac srcIp := by
  cases e with
  | arrive data =>
    simp only [Scan.step] at h
    split at h
    · cases h
    · obtain rfl := Option.some.inj h
      exact hs.arrive hallowed data
  | proceed => exact hs.proceed h

end Scan
end NetworkingFramework.ArpTool
