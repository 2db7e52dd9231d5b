import NetworkingFramework.Lemmas.PtpForwarding

/-!
# Forwarding at a node

A node walks along the path of a packet to the first action that it does not step over. If that is an end endpoint, the packet is
given to the receiver behind the node, at that action and with one more jump; any other action drops it; and when there is none,
`get_curr_action` throws.
-/

namespace NetworkingFramework
namespace PtpProtocol

open Wire

/-- A packet of at most 255 actions that fits the packet buffer, at a node with a receiver behind it. With `k` the first index from
the current one on of an action that the node does not step over: at an end endpoint one packet is delivered, with the same path
and payload, the current action `k` and one more jump; at any other action none; and the throw in `get_curr_action` is reached if
and only if there is no such `k`. The calls of `handle_packet` end, and its index grows by one each time, without wrapping. -/
theorem ptp_node_forwards (node : Node) (hreceiver : node.hasRecvEndpointEnd = true) (h : PtpHeader) (payload : Bytes)
    (hlen : h.actions.length ≤ 255) (htag : ∀ a ∈ h.actions, a.Tagged)
    (hfit : ∀ w, writePtpHeader h = .ok w → w.length + payload.length ≤ 0x10000) :
    ∃ data, writePacket h payload = .ok data ∧
      (∀ k a, node.StopsAt h k → h.actions[k]? = some a → a.val = .endpoint ⟨ptpEndpointEnd⟩ →
        ∃ packet header, (∀ fuel ≥ 256, node.handleRecv fuel data = .ok [packet]) ∧
          connectRecv (fun _ => .ok true) packet = .ok [(header, payload)] ∧
          header.actions = h.actions ∧ header.currAction.toNat = k ∧ header.noJumps = h.noJumps + 1) ∧
      (∀ k a, node.StopsAt h k → h.actions[k]? = some a → a.val ≠ .endpoint ⟨ptpEndpointEnd⟩ →
        ∀ fuel ≥ 256, node.handleRecv fuel data = .ok []) ∧
      ((¬∃ k, node.StopsAt h k) → ∀ fuel ≥ 256, node.handleRecv fuel data = .error .abort) ∧
      ((∃ n h', node.SelfCalls (jumped h) n h' ∧ h'.getCurrAction = .error .abort) ↔ ¬∃ k, node.StopsAt h k) ∧
      ∀ n h', node.SelfCalls (jumped h) n h' → h'.currAction.toNat = h.currAction.toNat + n := by
  have hsize := hfit _ (writePtpHeader_eq hlen htag)
  have hpacket := ptpPacket_of_fits hlen htag hsize
  refine ⟨ptpHeaderBytes h ++ payload, (writePacket_ok_iff hlen htag).mpr ⟨hsize, rfl⟩, ?_, ?_, ?_, ?_, ?_⟩
  · intro k a hk hget hend
    obtain ⟨hlt, -⟩ := List.getElem?_eq_some_iff.mp hget
    have hindex : h.actions.length - ((h.actions.drop (k + 1)).length + 1) = k := by
      rw [List.length_drop]
      omega
    -- the packet that is delivered
    obtain ⟨n, hn⟩ : ∃ n, n = (h.actions.drop (k + 1)).length + 1 := ⟨_, rfl⟩
    rw [← hn] at hindex
    have hwrite := writePacket_atLast hlen htag hsize n
    have hsize' := ((writePacket_ok_iff (h := atLast (jumped h) n) hlen htag).mp hwrite).1
    have hpacket' := ptpPacket_of_fits (h := atLast (jumped h) n) hlen htag hsize'
    have hdelivers : node.delivers a := ⟨hreceiver, hend⟩
    refine ⟨ptpHeaderBytes (atLast (jumped h) n) ++ payload, atLast (jumped h) n, fun fuel hfuel => ?_, ?_, rfl, ?_, rfl⟩
    · rw [node.handleRecv_eq hpacket hfuel, hk.ahead_eq_cons hget]
      simp only [Node.stopAt, if_pos hdelivers, ← hn, hwrite, map_ok]
    · rw [connectRecv_eq hpacket']
      rfl
    · have hcurr : (atLast (jumped h) n).currAction = UInt8.ofNat (h.actions.length - n) := rfl
      rw [hcurr, hindex, UInt8.toNat_ofNat', Nat.mod_eq_of_lt (by omega)]
  · intro k a hk hget hend fuel hfuel
    rw [node.handleRecv_eq hpacket hfuel, hk.ahead_eq_cons hget]
    have hdelivers : ¬node.delivers a := fun hdel => hend hdel.2
    simp only [Node.stopAt, if_neg hdelivers]
  · intro hno fuel hfuel
    rw [node.handleRecv_eq hpacket hfuel, Node.ahead_eq_nil hno]
  · exact Node.throws_iff hlen
  · intro n h' hcalls
    exact (hcalls.spec (h := jumped h) hlen).2.2

/-- The header of a path to the node of address 2, from its start, with as many jumps as a byte can count. -/
def arrivedHeader : PtpHeader :=
  ⟨[⟨.endpoint, .endpoint ⟨ptpEndpointStart⟩⟩, ⟨.localConn, .localConn ⟨⟨[1]⟩, ⟨[2]⟩⟩⟩, ⟨.endpoint, .endpoint ⟨ptpEndpointEnd⟩⟩],
    0, 255⟩

theorem ptp_node_forwards_arrived : ∃ data packet header, writePacket arrivedHeader [104] = .ok data ∧
    (∀ fuel ≥ 256, (Node.mk ⟨[2]⟩ true).handleRecv fuel data = .ok [packet]) ∧
    connectRecv (fun _ => .ok true) packet = .ok [(header, [104])] ∧ header.currAction.toNat = 2 ∧ header.noJumps = 0 := by
  have hfits : ∀ w, writePtpHeader arrivedHeader = .ok w → w.length + [104].length ≤ 0x10000 := by
    intro w hw
    obtain rfl := Except.ok.inj hw
    decide
  have hstops : (Node.mk ⟨[2]⟩ true).StopsAt arrivedHeader 2 := by
    have hpass : ∀ j < 2, ∀ a ∈ arrivedHeader.actions[j]?, (Node.mk ⟨[2]⟩ true).passes a = true := by decide
    exact ⟨by decide, ⟨_, rfl, rfl⟩, fun j _ hj a ha => hpass j hj a ha⟩
  obtain ⟨data, hdata, hdeliver, -⟩ :=
    ptp_node_forwards (Node.mk ⟨[2]⟩ true) rfl arrivedHeader [104] (by decide) (by decide) hfits
  obtain ⟨packet, header, hrecv, hdecode, -, hcurr, hjumps⟩ := hdeliver 2 _ hstops rfl rfl
  exact ⟨data, packet, header, hdata, hrecv, hdecode, hcurr, hjumps⟩

end PtpProtocol
end NetworkingFramework
