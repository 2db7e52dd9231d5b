import NetworkingFramework.Ptp

/-!
# The PTP protocol

`protocols/ptp/ptp_protocol`: packets, the receivers that `connect_recv` installs, the net access of one path and the node
that walks a packet's actions.

A receiver is the list of the calls it makes to the receiver behind it, in order. `handle_packet` calls itself once for every
action it steps over, and on a header with more actions than its index can count it need not return: it takes fuel.
-/

namespace NetworkingFramework
namespace PtpProtocol

open Wire Wire.Decoder

/-! ## Packets -/

/-- The size of the static buffer of `write_packet`. -/
def buffSize : Nat := 0x10000

/-- `write_packet`: the header and the encapsulated data, written to the static buffer without a check that they fit. -/
def writePacket (header : PtpHeader) (data : Bytes) : Except Fault Bytes := do
  let headerBytes ← writePtpHeader header
  if buffSize < headerBytes.length + data.length then throw .outOfBounds
  return headerBytes ++ data

/-- The receiver of `connect_recv`: the header and the encapsulated data of a packet that meets the condition. -/
def connectRecv (cond : PtpHeader → Except Fault Bool) (data : Bytes) : Except Fault (List (PtpHeader × Bytes)) := do
  let (header, headerSz) ← extractPtpHeader.run data 0
  if ← cond header then return [(header, ← suffixFromInt data headerSz)]
  else return []

/-- The receiver of `connect_recv_with_original`: the same, with the packet itself. -/
def connectRecvWithOriginal (cond : PtpHeader → Except Fault Bool) (data : Bytes) :
    Except Fault (List (Bytes × PtpHeader × Bytes)) := do
  let (header, headerSz) ← extractPtpHeader.run data 0
  if ← cond header then return [(data, header, ← suffixFromInt data headerSz)]
  else return []

/-! ## `net_access_single` -/

/-- `send_data` of a `net_access_single`: the packet it hands to the net access below. -/
def netAccessSingleSend (list : List PtpAction) (data : Bytes) : Except Fault Bytes :=
  let header : PtpHeader := { actions := list, currAction := 0, noJumps := 0 }
  writePacket { header with currAction := header.currAction + 1, noJumps := header.noJumps + 1 } data

/-- The receiver of a `net_access_single`: the payloads it forwards. Nothing in it looks at the path. -/
def netAccessSingleRecv (data : Bytes) : Except Fault (List Bytes) := do
  return (← connectRecv ptpIsEndpointEnd data).map Prod.snd

/-! ## `node` -/

/-- `node`: its address and whether a receiver is set in `recv_endpoint_end`. -/
structure Node where
  myAddr : PtpAddr
  hasRecvEndpointEnd : Bool

/-- `handle_packet`: the packets given to `recv_endpoint_end`. -/
def Node.handlePacket (node : Node) : Nat → PtpHeader → Bytes → Except Fault (List Bytes)
  | 0, _, _ => .error .diverges
  | fuel + 1, header, encapData => do
    let action ← header.getCurrAction
    match action.type with
    | .endpoint => do
      let endpoint ← action.val.getEndpoint
      if endpoint.type = ptpEndpointStart then
        node.handlePacket fuel { header with currAction := header.currAction + 1 } encapData
      else if endpoint.type = ptpEndpointEnd then
        if node.hasRecvEndpointEnd then return [← writePacket header encapData]
        else return []
      else return []
    | .localConn => do
      let localConn ← action.val.getLocalConn
      if localConn.destAddr = node.myAddr then
        node.handlePacket fuel { header with currAction := header.currAction + 1 } encapData
      else return []
    | .netSwitch => do
      let _netSwitch ← action.val.getNetSwitch
      return []

/-- `handle_recv` of a node's receiver: one more jump, and the packet is handled. -/
def Node.handleRecv (node : Node) (fuel : Nat) (data : Bytes) : Except Fault (List Bytes) := do
  let packets ← connectRecvWithOriginal (fun _ => .ok true) data
  let calls ← packets.mapM fun (_, header, encapData) =>
    node.handlePacket fuel { header with noJumps := header.noJumps + 1 } encapData
  return calls.flatten

/-- The node returns from a packet, and gives these packets to `recv_endpoint_end`. -/
def Node.Receives (node : Node) (data : Bytes) (out : List Bytes) : Prop :=
  ∃ enough, ∀ fuel ≥ enough, node.handleRecv fuel data = .ok out

/-! ## `my_net_access_generator_listener` -/

/-- A packet at a generator: the path it came along, the path of the net access made for it, and its payload. -/
structure GeneratorPacket where
  actions : List PtpAction
  reverse : List PtpAction
  encapData : Bytes
  deriving DecidableEq, Repr

/-- `handle_recv` of a generator behind `connect_net_access_generator_listener`: the packets it makes net accesses for, among
those that end at this endpoint. -/
def generatorRecv (data : Bytes) : Except Fault (List GeneratorPacket) := do
  (← connectRecv ptpIsEndpointEnd data).mapM fun (header, encapData) =>
    return ⟨header.actions, ← createReverseActions header.actions, encapData⟩

/-- The whole processing of a vector a node receives, a generator standing behind its `recv_endpoint_end`. -/
def Node.process (node : Node) (fuel : Nat) (data : Bytes) : Except Fault (List GeneratorPacket) := do
  return (← (← node.handleRecv fuel data).mapM generatorRecv).flatten

end PtpProtocol
end NetworkingFramework
