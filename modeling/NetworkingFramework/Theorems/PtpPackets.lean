import NetworkingFramework.Lemmas.PtpPath
import NetworkingFramework.Lemmas.PtpNode

/-!
# PTP packets on the wire and at a node

A packet round trips through the wire; a request along a local connection reaches the node it is addressed to and no other,
and so does the reply along the reversed path; and the vectors a node processes to the end are those that hold a header whose
walk stops, fits the buffer again and, if it stops at this endpoint, can be reversed.
-/

namespace NetworkingFramework
namespace PtpProtocol

open Wire Wire.Decoder

/-! ## The wire -/

/-- What `write_packet` writes, the decoder and the receiver of `connect_recv` take back. -/
theorem writePacket_roundTrip (h : PtpHeader) (payload : Bytes) (hlen : h.actions.length ≤ 255)
    (htag : ∀ a ∈ h.actions, a.Tagged) (hfit : ∀ w, writePtpHeader h = .ok w → w.length + payload.length ≤ 0x10000) :
    ∃ w, writePtpHeader h = .ok w ∧ writePacket h payload = .ok (w ++ payload) ∧
      extractPtpHeader.run (w ++ payload) 0 = .ok (h, w.length) ∧
      ∀ cond, cond h = .ok true → connectRecv cond (w ++ payload) = .ok [(h, payload)] := by
  have hw := writePtpHeader_eq hlen htag
  have hsize := hfit _ hw
  refine ⟨ptpHeaderBytes h, hw, (writePacket_ok_iff hlen htag).mpr ⟨hsize, rfl⟩, ?_, ?_⟩
  · exact (roundTrips_ptpHeader hlen htag (by omega)).run_append payload
  · intro cond hcond
    rw [connectRecv_eq (ptpPacket_of_fits hlen htag hsize), hcond]
    rfl

/-- A header of three actions: an endpoint of no known type, an empty address, and ids that hold the delimiter's bytes. -/
theorem writePacket_roundTrip_delimiters :
    let h : PtpHeader := ⟨[⟨.endpoint, .endpoint ⟨7⟩⟩, ⟨.localConn, .localConn ⟨⟨[]⟩, ⟨[0, 1, 0]⟩⟩⟩,
      ⟨.netSwitch, .netSwitch ⟨⟨[0]⟩, ⟨[1]⟩⟩⟩], 9, 255⟩
    ∃ w, writePtpHeader h = .ok w ∧ writePacket h [0, 1, 2] = .ok (w ++ [0, 1, 2]) ∧
      extractPtpHeader.run (w ++ [0, 1, 2]) 0 = .ok (h, w.length) ∧
      ∀ cond, cond h = .ok true → connectRecv cond (w ++ [0, 1, 2]) = .ok [(h, [0, 1, 2])] := by
  refine writePacket_roundTrip _ _ (by decide) (by decide) ?_
  intro w hw
  obtain rfl := Except.ok.inj hw
  decide

/-! ## Request and reply -/

/-- The path of one local connection: `endpoint start ; local_conn a -> b ; endpoint end`. -/
def localPath (a b : PtpAddr) : List PtpAction :=
  [⟨.endpoint, .endpoint ⟨ptpEndpointStart⟩⟩, ⟨.localConn, .localConn ⟨a, b⟩⟩, ⟨.endpoint, .endpoint ⟨ptpEndpointEnd⟩⟩]

theorem localPath_tagged (a b : PtpAddr) : ∀ x ∈ localPath a b, x.Tagged := by
  intro x hx
  rcases List.mem_cons.mp hx with rfl | hx
  · trivial
  rcases List.mem_cons.mp hx with rfl | hx
  · trivial
  obtain rfl := List.mem_singleton.mp hx
  trivial

/-- The reverse of a local path is the local path back. -/
theorem createReverseActions_localPath (a b : PtpAddr) : createReverseActions (localPath a b) = .ok (localPath b a) := rfl

/-- The header at the sender of a local path, and the header the node at its end hands on. -/
def sentHeader (a b : PtpAddr) : PtpHeader := ⟨localPath a b, 1, 1⟩

def deliveredHeader (a b : PtpAddr) : PtpHeader := ⟨localPath a b, 2, 2⟩

/-- The data fits the packet buffer behind the header of the local path. -/
def FitsPacket (a b : PtpAddr) (data : Bytes) : Prop :=
  ∀ w, writePtpHeader (sentHeader a b) = .ok w → w.length + data.length ≤ 0x10000

theorem FitsPacket.length_le {a b : PtpAddr} {data : Bytes} (h : FitsPacket a b data) :
    (ptpHeaderBytes (sentHeader a b)).length + data.length ≤ buffSize :=
  h _ (writePtpHeader_eq (by simp [sentHeader, localPath]) (localPath_tagged a b))

theorem netAccessSingleSend_localPath {a b : PtpAddr} {data : Bytes} (h : FitsPacket a b data) :
    netAccessSingleSend (localPath a b) data = .ok (ptpHeaderBytes (sentHeader a b) ++ data) :=
  (writePacket_ok_iff (h := sentHeader a b) (by simp [sentHeader, localPath]) (localPath_tagged a b)).mpr ⟨h.length_le, rfl⟩

/-- What is sent is a packet. -/
theorem FitsPacket.packet {a b : PtpAddr} {data : Bytes} (h : FitsPacket a b data) :
    PtpPacket (ptpHeaderBytes (sentHeader a b) ++ data) (sentHeader a b) data :=
  ptpPacket_of_fits (by simp [sentHeader, localPath]) (localPath_tagged a b) h.length_le

/-- The header that is handed on takes as many bytes. -/
theorem FitsPacket.length_delivered_le {a b : PtpAddr} {data : Bytes} (h : FitsPacket a b data) :
    (ptpHeaderBytes (deliveredHeader a b)).length + data.length ≤ buffSize := by
  have hfit := h.length_le
  rw [ptpHeaderBytes_length] at hfit ⊢
  exact hfit

/-- The node at the end of a local path hands the packet on, standing at the last action. -/
theorem receives_localPath {a b : PtpAddr} {data : Bytes} (h : FitsPacket a b data) {node : Node}
    (hset : node.hasRecvEndpointEnd = true) (haddr : node.myAddr = b) :
    node.Receives (ptpHeaderBytes (sentHeader a b) ++ data) [ptpHeaderBytes (deliveredHeader a b) ++ data] := by
  have hahead : node.ahead (sentHeader a b) = [⟨.endpoint, .endpoint ⟨ptpEndpointEnd⟩⟩] := by
    have hne : ptpEndpointEnd ≠ ptpEndpointStart := by decide
    simp [Node.ahead, sentHeader, localPath, List.dropWhile, Node.passes, haddr, hne]
  refine (node.receives_iff h.packet _).mpr ⟨_, [], hahead, ?_⟩
  have hwrite : writePacket (deliveredHeader a b) data = .ok (ptpHeaderBytes (deliveredHeader a b) ++ data) :=
    (writePacket_ok_iff (by simp [deliveredHeader, localPath]) (localPath_tagged a b)).mpr ⟨h.length_delivered_le, rfl⟩
  have hat : atLast (jumped (sentHeader a b)) 1 = deliveredHeader a b := rfl
  rw [Node.stopAt, if_pos ⟨hset, rfl⟩, List.length_nil, hat, hwrite]
  rfl

/-- Every node with another address drops it. -/
theorem receives_localPath_other {a b : PtpAddr} {data : Bytes} (h : FitsPacket a b data) {node : Node} (haddr : node.myAddr ≠ b) :
    node.Receives (ptpHeaderBytes (sentHeader a b) ++ data) [] := by
  have hahead : node.ahead (sentHeader a b) =
      [⟨.localConn, .localConn ⟨a, b⟩⟩, ⟨.endpoint, .endpoint ⟨ptpEndpointEnd⟩⟩] := by
    simp [Node.ahead, sentHeader, localPath, Node.passes, haddr.symm]
  refine (node.receives_iff h.packet _).mpr ⟨_, _, hahead, ?_⟩
  rw [Node.stopAt, if_neg]
  intro hdel
  rcases hdel with ⟨-, hend⟩
  cases hend

/-- The packet handed on is accepted at the endpoint, with the path and the data. -/
theorem connectRecv_delivered {a b : PtpAddr} {data : Bytes} (h : FitsPacket a b data) :
    connectRecv ptpIsEndpointEnd (ptpHeaderBytes (deliveredHeader a b) ++ data) = .ok [(deliveredHeader a b, data)] := by
  have hlen : (deliveredHeader a b).actions.length ≤ 255 := by simp [deliveredHeader, localPath]
  have hend : (deliveredHeader a b).AtEnd := ⟨rfl, rfl⟩
  rw [connectRecv_eq (ptpPacket_of_fits hlen (localPath_tagged a b) h.length_delivered_le),
    ptpIsEndpointEnd_eq hlen (localPath_tagged a b)]
  simp [hend]

/-- The request reaches the node it is addressed to, the reply built on the path it arrived with reaches the sender, each
once and with its payload, and every node with another address drops them. -/
theorem ptp_request_reply (a b : PtpAddr) (p q : Bytes) (hp : FitsPacket a b p) (hq : FitsPacket b a q) :
    ∃ request, netAccessSingleSend (localPath a b) p = .ok request ∧
      (∀ node : Node, node.myAddr ≠ b → node.Receives request []) ∧
      ∀ server : Node, server.hasRecvEndpointEnd = true → server.myAddr = b →
        ∃ delivered header, server.Receives request [delivered] ∧
          connectRecv ptpIsEndpointEnd delivered = .ok [(header, p)] ∧ header.actions = localPath a b ∧
          ∃ reverse reply, createReverseActions header.actions = .ok reverse ∧
            netAccessSingleSend reverse q = .ok reply ∧
            (∀ node : Node, node.myAddr ≠ a → node.Receives reply []) ∧
            ∀ client : Node, client.hasRecvEndpointEnd = true → client.myAddr = a →
              ∃ delivered' header', client.Receives reply [delivered'] ∧
                connectRecv ptpIsEndpointEnd delivered' = .ok [(header', q)] := by
  refine ⟨_, netAccessSingleSend_localPath hp, fun node hne => receives_localPath_other hp hne, fun server hset haddr => ?_⟩
  refine ⟨_, _, receives_localPath hp hset haddr, connectRecv_delivered hp, rfl, ?_⟩
  refine ⟨_, _, createReverseActions_localPath a b, netAccessSingleSend_localPath hq, ?_, ?_⟩
  · exact fun node hne => receives_localPath_other hq hne
  · intro client hset' haddr'
    exact ⟨_, _, receives_localPath hq hset' haddr', connectRecv_delivered hq⟩

/-- A client at `[1]` and a server at `[2, 0]`. -/
theorem ptp_request_reply_one_two : ∃ request, netAccessSingleSend (localPath ⟨[1]⟩ ⟨[2, 0]⟩) [104, 105] = .ok request ∧
    (∀ node : Node, node.myAddr ≠ ⟨[2, 0]⟩ → node.Receives request []) ∧
    ∀ server : Node, server.hasRecvEndpointEnd = true → server.myAddr = ⟨[2, 0]⟩ →
      ∃ delivered header, server.Receives request [delivered] ∧
        connectRecv ptpIsEndpointEnd delivered = .ok [(header, [104, 105])] ∧
        header.actions = localPath ⟨[1]⟩ ⟨[2, 0]⟩ ∧
        ∃ reverse reply, createReverseActions header.actions = .ok reverse ∧
          netAccessSingleSend reverse [] = .ok reply ∧
          (∀ node : Node, node.myAddr ≠ ⟨[1]⟩ → node.Receives reply []) ∧
          ∀ client : Node, client.hasRecvEndpointEnd = true → client.myAddr = ⟨[1]⟩ →
            ∃ delivered' header', client.Receives reply [delivered'] ∧
              connectRecv ptpIsEndpointEnd delivered' = .ok [(header', [])] := by
  refine ptp_request_reply ⟨[1]⟩ ⟨[2, 0]⟩ [104, 105] [] ?_ ?_
  · intro w hw
    obtain rfl := Except.ok.inj hw
    decide
  · intro w hw
    obtain rfl := Except.ok.inj hw
    decide

/-! ## Arbitrary vectors -/

/-- The node, and the generator behind it, return from a vector. -/
def Node.Processes (node : Node) (data : Bytes) : Prop :=
  ∃ enough out, ∀ fuel ≥ enough, node.process fuel data = .ok out

/-- A header lies at the start of the vector and the node's walk stops inside its path. If it stops at this endpoint, the packet
fits the buffer of `write_packet`, and if that is the last action, every endpoint of the path is a start or an end. -/
def Node.CanProcess (node : Node) (data : Bytes) : Prop :=
  ∃ h payload, PtpPacket data h payload ∧ ∃ a rest, node.ahead h = a :: rest ∧
    (node.delivers a → (ptpHeaderBytes h).length + payload.length ≤ buffSize ∧
      (rest = [] → ∀ x ∈ h.actions, x.Reversible))

/-- A generator returns from a packet unless it has to reverse a path that has none. -/
theorem generatorRecv_ok_iff {h : PtpHeader} {payload : Bytes} (hlen : h.actions.length ≤ 255)
    (htag : ∀ a ∈ h.actions, a.Tagged) (hfit : (ptpHeaderBytes h).length + payload.length ≤ buffSize) :
    (∃ out, generatorRecv (ptpHeaderBytes h ++ payload) = .ok out) ↔ (h.AtEnd → ∀ x ∈ h.actions, x.Reversible) := by
  have hrecv : connectRecv ptpIsEndpointEnd (ptpHeaderBytes h ++ payload) = .ok (if h.AtEnd then [(h, payload)] else []) := by
    rw [connectRecv_eq (ptpPacket_of_fits hlen htag hfit), ptpIsEndpointEnd_eq hlen htag]
    simp
  rw [generatorRecv, hrecv, ok_bind]
  by_cases hend : h.AtEnd
  · simp only [hend, if_true, forall_const]
    constructor
    · intro h
      rcases h with ⟨out, hout⟩
      obtain ⟨b, hb⟩ := exists_ok_of_mapM hout (h, payload) List.mem_cons_self
      obtain ⟨reverse, hreverse, -⟩ := (bind_eq_ok_iff _ _ _).mp hb
      exact reversible_of_createReverseActions hreverse
    · intro hrev
      exact ⟨_, by simp [createReverseActions_eq htag hrev]; rfl⟩
  · exact ⟨fun _ hend' => absurd hend' hend, fun _ => ⟨[], by simp [hend]⟩⟩

/-- A packet that stops at an end endpoint stands at the end of its path when nothing is ahead of that endpoint. -/
theorem atEnd_atLast_iff {node : Node} {h : PtpHeader} {a : PtpAction} {rest : List PtpAction}
    (hlen : h.actions.length ≤ 255) (hahead : node.ahead h = a :: rest) (ha : a.val = .endpoint ⟨ptpEndpointEnd⟩) :
    (atLast h (rest.length + 1)).AtEnd ↔ rest = [] := by
  obtain ⟨before, hbefore⟩ : ∃ before, h.actions = before ++ a :: rest := by
    obtain ⟨pre, hpre⟩ := (List.dropWhile_suffix node.passes).trans (List.drop_suffix h.currAction.toNat h.actions)
    exact ⟨pre, by rw [← hpre, ← hahead]; rfl⟩
  have hsize : h.actions.length = before.length + (rest.length + 1) := by
    rw [hbefore, List.length_append, List.length_cons]
  have hidx : (atLast h (rest.length + 1)).currAction.toNat = before.length := by
    rw [atLast, UInt8.toNat_ofNat', Nat.mod_eq_of_lt (by omega)]
    omega
  have hget : h.actions[before.length]? = some a := by
    rw [hbefore, List.getElem?_append_right (Nat.le_refl _), Nat.sub_self]
    rfl
  rw [PtpHeader.AtEnd, hidx]
  have hactions : (atLast h (rest.length + 1)).actions = h.actions := rfl
  rw [hactions, hget, hsize]
  constructor
  · intro h
    rcases h with ⟨hlast, -⟩
    exact List.eq_nil_of_length_eq_zero (by omega)
  · rintro rfl
    exact ⟨rfl, congrArg some ha⟩

/-- A node returns from exactly the vectors it can process; on every other one it reads or writes outside a buffer, its count
overflows, or it throws. -/
theorem node_processes_iff (node : Node) (data : Bytes) : node.Processes data ↔ node.CanProcess data := by
  constructor
  · intro h
    rcases h with ⟨enough, out, hrun⟩
    obtain ⟨packets, hpackets, hgen⟩ := (bind_eq_ok_iff _ _ _).mp (hrun (max enough 256) (Nat.le_max_left _ _))
    obtain ⟨h, payload, hp⟩ := Node.handleRecv_ok hpackets
    obtain ⟨hlen, htag⟩ := hp.wellFormed
    rw [node.handleRecv_eq hp (Nat.le_max_right _ _)] at hpackets
    cases hahead : node.ahead h with
    | nil => rw [hahead] at hpackets; nomatch hpackets
    | cons a rest =>
      rw [hahead] at hpackets
      refine ⟨h, payload, hp, a, rest, hahead, fun hdel => ?_⟩
      simp only [Node.stopAt, if_pos hdel] at hpackets
      obtain ⟨packet, hpacket, rfl⟩ := (map_eq_ok_iff _ _ _).mp hpackets
      obtain ⟨hfit, rfl⟩ := (writePacket_ok_iff (h := atLast (jumped h) (rest.length + 1)) hlen htag).mp hpacket
      refine ⟨by rw [ptpHeaderBytes_length] at hfit ⊢; exact hfit, fun hrest => ?_⟩
      obtain ⟨calls, hcalls, -⟩ := (bind_eq_ok_iff _ _ _).mp hgen
      have hone := exists_ok_of_mapM hcalls _ List.mem_cons_self
      exact (generatorRecv_ok_iff (h := atLast (jumped h) (rest.length + 1)) hlen htag hfit).mp hone
        ((atEnd_atLast_iff hlen hahead hdel.2).mpr hrest)
  · intro h
    rcases h with ⟨h, payload, hp, a, rest, hahead, hdo⟩
    obtain ⟨hlen, htag⟩ := hp.wellFormed
    by_cases hdel : node.delivers a
    · obtain ⟨hfit, hrev⟩ := hdo hdel
      have hpacket := writePacket_atLast hlen htag hfit (rest.length + 1)
      have hfit' := ((writePacket_ok_iff (h := atLast (jumped h) (rest.length + 1)) hlen htag).mp hpacket).1
      obtain ⟨out, hout⟩ := (generatorRecv_ok_iff (h := atLast (jumped h) (rest.length + 1)) hlen htag hfit').mpr
        fun hend => hrev ((atEnd_atLast_iff hlen hahead hdel.2).mp hend)
      refine ⟨256, [out].flatten, fun fuel hfuel => ?_⟩
      rw [Node.process, node.handleRecv_eq hp hfuel, hahead]
      simp only [Node.stopAt, if_pos hdel, hpacket, map_ok, ok_bind, List.mapM_cons, List.mapM_nil, hout, pure_eq_ok]
    · refine ⟨256, [], fun fuel hfuel => ?_⟩
      rw [Node.process, node.handleRecv_eq hp hfuel, hahead]
      simp [Node.stopAt, hdel]

/-- A packet whose only action is a start endpoint ends the process of a node: the walk goes past the list and throws. -/
theorem node_processes_counterexample : ¬(Node.mk ⟨[1]⟩ true).Processes [1, 0, 0, 0, 0] := by
  intro h
  rcases h with ⟨enough, out, hrun⟩
  have hthrow : (Node.mk ⟨[1]⟩ true).process (enough + 2) [1, 0, 0, 0, 0] = .error .abort := rfl
  rw [hrun (enough + 2) (by omega)] at hthrow
  nomatch hthrow

end PtpProtocol
end NetworkingFramework
