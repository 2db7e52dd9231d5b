import NetworkingFramework.PtpProtocol
import NetworkingFramework.Lemmas.PtpCodec

/-!
# What a node does with a packet

A node steps over the actions it `passes` and stops at the first one it does not (`Node.ahead`). If that is an end endpoint
the packet goes to `recv_endpoint_end` with the index of that action, and any other action drops it
(`Node.handlePacket_eq`). From this follow what a node does with a packet well encoded (`Node.handleRecv_eq`) and with any
vector at all (`Node.handleRecv_ok`).
-/

namespace NetworkingFramework
namespace PtpProtocol

open Wire Wire.Decoder

/-! ## Packets -/

theorem ptpHeaderBytes_length (h : PtpHeader) :
    (ptpHeaderBytes h).length = (h.actions.map ptpActionBytes).flatten.length + 3 := by
  simp [ptpHeaderBytes]

theorem writePacket_ok_iff {h : PtpHeader} {data packet : Bytes} (hlen : h.actions.length ≤ 255)
    (htag : ∀ a ∈ h.actions, a.Tagged) : writePacket h data = .ok packet ↔
      (ptpHeaderBytes h).length + data.length ≤ buffSize ∧ packet = ptpHeaderBytes h ++ data := by
  rw [writePacket, writePtpHeader_eq hlen htag, ok_bind]
  by_cases hover : buffSize < (ptpHeaderBytes h).length + data.length
  · have hno : ¬(ptpHeaderBytes h).length + data.length ≤ buffSize := by omega
    simp [hover, hno]
  · have hfit : (ptpHeaderBytes h).length + data.length ≤ buffSize := by omega
    simp [hover, hfit, eq_comm]

/-- What the encoder writes fits the buffer, and so an `int` counts it. -/
theorem ptpPacket_of_fits {h : PtpHeader} {payload : Bytes} (hlen : h.actions.length ≤ 255) (htag : ∀ a ∈ h.actions, a.Tagged)
    (hfit : (ptpHeaderBytes h).length + payload.length ≤ buffSize) : PtpPacket (ptpHeaderBytes h ++ payload) h payload := by
  have hsize : buffSize < 2 ^ 31 := by decide
  exact ptpPacket_bytes hlen htag (by omega) payload

/-- The receiver of `connect_recv` on a packet. -/
theorem connectRecv_eq {data payload : Bytes} {h : PtpHeader} (hp : PtpPacket data h payload)
    (cond : PtpHeader → Except Fault Bool) : connectRecv cond data = (cond h).map fun b => if b then [(h, payload)] else [] := by
  obtain ⟨n, hat, rfl⟩ := hp
  rw [connectRecv, (extractPtpHeader_ok_iff data h n).mpr hat, ok_bind]
  cases hc : cond h with
  | error e => simp [hc]
  | ok b => cases b <;> simp [hc, suffixFrom, hat.size_le]

theorem connectRecvWithOriginal_eq {data payload : Bytes} {h : PtpHeader} (hp : PtpPacket data h payload) :
    connectRecvWithOriginal (fun _ => .ok true) data = .ok [(data, h, payload)] := by
  obtain ⟨n, hat, rfl⟩ := hp
  rw [connectRecvWithOriginal, (extractPtpHeader_ok_iff data h n).mpr hat]
  simp [suffixFrom, hat.size_le]

/-- The data behind a header is copied when the size of the header is not negative. -/
theorem ptpPacket_of_suffix {data payload : Bytes} {h : PtpHeader} {sz : Int}
    (hrun : extractPtpHeader.run data 0 = .ok (h, sz)) (hsuffix : suffixFromInt data sz = .ok payload) :
    PtpPacket data h payload := by
  have hat := (extractPtpHeader_ok_iff data h sz).mp hrun
  unfold suffixFromInt at hsuffix
  split at hsuffix
  · nomatch hsuffix
  · obtain ⟨n, rfl⟩ := Int.eq_ofNat_of_zero_le (by omega : 0 ≤ sz)
    rw [Int.toNat_natCast, suffixFrom, if_pos hat.size_le] at hsuffix
    exact ⟨n, hat, (Except.ok.inj hsuffix).symm⟩

/-! ## The walk along the actions -/

/-- The node steps over the action: a start endpoint, or a local connection to the node itself. -/
def Node.passes (node : Node) (a : PtpAction) : Bool :=
  match a.val with
  | .endpoint e => e.type = ptpEndpointStart
  | .localConn c => c.destAddr = node.myAddr
  | .netSwitch _ => false

/-- The node gives a packet that stops at the action to `recv_endpoint_end`. -/
def Node.delivers (node : Node) (a : PtpAction) : Prop :=
  node.hasRecvEndpointEnd = true ∧ a.val = .endpoint ⟨ptpEndpointEnd⟩

instance (node : Node) (a : PtpAction) : Decidable (node.delivers a) := by unfold Node.delivers; infer_instance

/-- The actions from the first one the node does not step over. -/
def Node.ahead (node : Node) (h : PtpHeader) : List PtpAction :=
  (h.actions.drop h.currAction.toNat).dropWhile node.passes

/-- The header whose current action is the first of the last `n`. -/
def atLast (h : PtpHeader) (n : Nat) : PtpHeader := { h with currAction := UInt8.ofNat (h.actions.length - n) }

/-- What the node does where it stops. -/
def Node.stopAt (node : Node) (a : PtpAction) (h : PtpHeader) (data : Bytes) : Except Fault (List Bytes) :=
  if node.delivers a then (writePacket h data).map fun packet => [packet] else .ok []

/-- One step of `handle_packet`: over the current action, or a stop at it. -/
theorem Node.handlePacket_succ (node : Node) (fuel : Nat) {h : PtpHeader} {a : PtpAction} (data : Bytes)
    (hget : h.actions[h.currAction.toNat]? = some a) (htag : a.Tagged) :
    node.handlePacket (fuel + 1) h data =
      if node.passes a then node.handlePacket fuel { h with currAction := h.currAction + 1 } data
      else node.stopAt a h data := by
  have hcurr : h.getCurrAction = .ok a := by rw [PtpHeader.getCurrAction, hget]
  rw [Node.handlePacket, hcurr, ok_bind]
  obtain ⟨type, val⟩ := a
  cases type <;> cases val <;> first | exact htag.elim | skip
  · rename_i e
    by_cases hs : e.type = ptpEndpointStart
    · simp [PtpActionVal.getEndpoint, Node.passes, hs]
    · by_cases he : e.type = ptpEndpointEnd
      · obtain rfl : e = ⟨ptpEndpointEnd⟩ := by cases e; exact congrArg PtpEndpoint.mk he
        simp [PtpActionVal.getEndpoint, Node.passes, hs, Node.stopAt, Node.delivers, bind_ok_eq_map]
      · have hne : e ≠ ⟨ptpEndpointEnd⟩ := fun h' => he (congrArg PtpEndpoint.type h')
        simp [PtpActionVal.getEndpoint, Node.passes, hs, he, hne, Node.stopAt, Node.delivers]
  · rename_i c
    by_cases hd : c.destAddr = node.myAddr
    · simp [PtpActionVal.getLocalConn, Node.passes, hd]
    · simp [PtpActionVal.getLocalConn, Node.passes, hd, Node.stopAt, Node.delivers]
  · simp [PtpActionVal.getNetSwitch, Node.passes, Node.stopAt, Node.delivers]

/-- Past the last action `get_curr_action` throws. -/
theorem Node.handlePacket_past (node : Node) (fuel : Nat) {h : PtpHeader} (data : Bytes)
    (hget : h.actions[h.currAction.toNat]? = none) : node.handlePacket (fuel + 1) h data = .error .abort := by
  rw [Node.handlePacket, PtpHeader.getCurrAction, hget]
  rfl

/-- The run of `handle_packet`: it stops at the first action the node does not step over, or throws at the end. -/
theorem Node.handlePacket_eq (node : Node) (fuel : Nat) (h : PtpHeader) (data : Bytes) (hlen : h.actions.length ≤ 255)
    (htag : ∀ a ∈ h.actions, a.Tagged) (hfuel : h.actions.length - h.currAction.toNat < fuel) :
    node.handlePacket fuel h data =
      match node.ahead h with
      | [] => .error .abort
      | a :: rest => node.stopAt a (atLast h (rest.length + 1)) data := by
  induction fuel generalizing h with
  | zero => omega
  | succ fuel ih =>
    cases hget : h.actions[h.currAction.toNat]? with
    | none =>
      have hge : h.actions.length ≤ h.currAction.toNat := List.getElem?_eq_none_iff.mp hget
      rw [Node.handlePacket_past node fuel data hget, Node.ahead, List.drop_eq_nil_of_le hge]
      rfl
    | some a =>
      obtain ⟨hlt, ha⟩ := List.getElem?_eq_some_iff.mp hget
      have htag' : a.Tagged := htag a (List.mem_of_getElem? hget)
      have hdrop : h.actions.drop h.currAction.toNat = a :: h.actions.drop (h.currAction.toNat + 1) := by
        rw [List.drop_eq_getElem_cons hlt, ha]
      rw [Node.handlePacket_succ node fuel data hget htag']
      by_cases hp : node.passes a = true
      · -- the list has at most 255 actions, so the index does not wrap
        have hnext : (h.currAction + 1).toNat = h.currAction.toNat + 1 := by
          rw [UInt8.toNat_add, UInt8.toNat_one]
          exact Nat.mod_eq_of_lt (by omega)
        have hahead : node.ahead { h with currAction := h.currAction + 1 } = node.ahead h := by
          rw [Node.ahead, Node.ahead, hdrop, List.dropWhile_cons_of_pos hp]
          simp only [hnext]
        rw [if_pos hp, ih { h with currAction := h.currAction + 1 } hlen htag (by simp only [hnext]; omega), hahead]
        rfl
      · have hahead : node.ahead h = a :: h.actions.drop (h.currAction.toNat + 1) := by
          rw [Node.ahead, hdrop, List.dropWhile_cons_of_neg hp]
        have hat : atLast h ((h.actions.drop (h.currAction.toNat + 1)).length + 1) = h := by
          have hidx : h.actions.length - ((h.actions.drop (h.currAction.toNat + 1)).length + 1) = h.currAction.toNat := by
            rw [List.length_drop]; omega
          rw [atLast, hidx, UInt8.ofNat_toNat]
        rw [if_neg hp, hahead]
        simp only [hat]

/-! ## Whole packets -/

/-- The header a node handles: one more jump. -/
def jumped (h : PtpHeader) : PtpHeader := { h with noJumps := h.noJumps + 1 }

/-- A header with another index and count of jumps takes as many bytes, so the packet fits again. -/
theorem writePacket_atLast {h : PtpHeader} {data : Bytes} (hlen : h.actions.length ≤ 255) (htag : ∀ a ∈ h.actions, a.Tagged)
    (hfit : (ptpHeaderBytes h).length + data.length ≤ buffSize) (n : Nat) :
    writePacket (atLast (jumped h) n) data = .ok (ptpHeaderBytes (atLast (jumped h) n) ++ data) := by
  refine (writePacket_ok_iff (h := atLast (jumped h) n) hlen htag).mpr ⟨?_, rfl⟩
  rw [ptpHeaderBytes_length] at hfit ⊢
  exact hfit

/-- What a node does with a packet. -/
theorem Node.handleRecv_eq (node : Node) {data payload : Bytes} {h : PtpHeader} (hp : PtpPacket data h payload) {fuel : Nat}
    (hfuel : 256 ≤ fuel) :
    node.handleRecv fuel data =
      match node.ahead h with
      | [] => .error .abort
      | a :: rest => node.stopAt a (atLast (jumped h) (rest.length + 1)) payload := by
  obtain ⟨hlen, htag⟩ := hp.wellFormed
  have hrun := node.handlePacket_eq fuel (jumped h) payload hlen htag (by simp only [jumped]; omega)
  have hahead : node.ahead (jumped h) = node.ahead h := rfl
  rw [hahead] at hrun
  rw [Node.handleRecv, connectRecvWithOriginal_eq hp, ok_bind, List.mapM_cons, List.mapM_nil, ← hrun]
  cases hrest : node.handlePacket fuel (jumped h) payload with
  | error e => simp [show ({ h with noJumps := h.noJumps + 1 } : PtpHeader) = jumped h from rfl, hrest]
  | ok out => simp [show ({ h with noJumps := h.noJumps + 1 } : PtpHeader) = jumped h from rfl, hrest]

/-- A node that returns from a vector found a packet in it. -/
theorem Node.handleRecv_ok {node : Node} {fuel : Nat} {data : Bytes} {out : List Bytes}
    (h : node.handleRecv fuel data = .ok out) : ∃ header payload, PtpPacket data header payload := by
  obtain ⟨packets, hpackets, -⟩ := (bind_eq_ok_iff _ _ _).mp h
  obtain ⟨⟨header, sz⟩, hrun, hrest⟩ := (bind_eq_ok_iff _ _ _).mp hpackets
  obtain ⟨b, hb, hrest⟩ := (bind_eq_ok_iff _ _ _).mp hrest
  obtain rfl := Except.ok.inj hb
  obtain ⟨payload, hsuffix, -⟩ := (bind_eq_ok_iff _ _ _).mp hrest
  exact ⟨header, payload, ptpPacket_of_suffix hrun hsuffix⟩

/-- The packets a node gives out for a packet. -/
theorem Node.receives_iff (node : Node) {data payload : Bytes} {h : PtpHeader} (hp : PtpPacket data h payload)
    (out : List Bytes) :
    node.Receives data out ↔ ∃ a rest, node.ahead h = a :: rest ∧
      node.stopAt a (atLast (jumped h) (rest.length + 1)) payload = .ok out := by
  constructor
  · intro h
    rcases h with ⟨enough, henough⟩
    have hrun := henough (max enough 256) (Nat.le_max_left _ _)
    rw [node.handleRecv_eq hp (Nat.le_max_right _ _)] at hrun
    cases hahead : node.ahead h with
    | nil => rw [hahead] at hrun; nomatch hrun
    | cons a rest => rw [hahead] at hrun; exact ⟨a, rest, rfl, hrun⟩
  · intro h
    rcases h with ⟨a, rest, hahead, hstop⟩
    refine ⟨256, fun fuel hfuel => ?_⟩
    rw [node.handleRecv_eq hp hfuel, hahead]
    exact hstop

end PtpProtocol
end NetworkingFramework
