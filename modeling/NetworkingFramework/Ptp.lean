import NetworkingFramework.Lib.Reader
import NetworkingFramework.VarLenInts

/-!
# PTP headers

`protocols/ptp`: a path is a list of actions (an endpoint, a connection inside a network, a switch to another network), and a
header carries the path, the index of the current action and a count of jumps.

`ptp_action_t` has three values here. In the source it is a byte, but the decoder throws on every other byte and nothing else
builds one, so the `default` branches of the other switches are never taken. `ptp_endpoint_t` stays a byte: the decoder takes
any. Every decoder returns the distance of two pointers as an `int`, and the pointer before it is moved by that.
-/

namespace NetworkingFramework

open Wire Wire.Decoder

/-! ## Actions -/

/-- `ptp_endpoint`: its type is any byte; `start` and `end` are two of them. -/
structure PtpEndpoint where
  type : UInt8
  deriving DecidableEq, Repr

/-- `ptp_endpoint_t::start`. -/
def ptpEndpointStart : UInt8 := 0

/-- `ptp_endpoint_t::end`. -/
def ptpEndpointEnd : UInt8 := 1

/-- `ptp_addr`; its `operator==` compares the sizes and the octets. -/
structure PtpAddr where
  octets : Bytes
  deriving DecidableEq, Repr

/-- `ptp_local_conn`. -/
structure PtpLocalConn where
  srcAddr : PtpAddr
  destAddr : PtpAddr
  deriving DecidableEq, Repr

/-- `ptp_net_id`. -/
structure PtpNetId where
  vals : Bytes
  deriving DecidableEq, Repr

/-- `ptp_net_switch`. -/
structure PtpNetSwitch where
  srcId : PtpNetId
  destId : PtpNetId
  deriving DecidableEq, Repr

/-- `ptp_action_t`. -/
inductive PtpActionT where
  | endpoint | localConn | netSwitch
  deriving DecidableEq, Repr

/-- The alternatives of `ptp_action::val`. -/
inductive PtpActionVal where
  | endpoint (e : PtpEndpoint)
  | localConn (c : PtpLocalConn)
  | netSwitch (s : PtpNetSwitch)
  deriving DecidableEq, Repr

/-- `ptp_action`: a type tag and a variant. Nothing but the code that builds one keeps the two in step. -/
structure PtpAction where
  type : PtpActionT
  val : PtpActionVal
  deriving DecidableEq, Repr

/-- The tag names the variant's alternative. -/
def PtpAction.Tagged (a : PtpAction) : Prop :=
  match a.type, a.val with
  | .endpoint, .endpoint _ => True
  | .localConn, .localConn _ => True
  | .netSwitch, .netSwitch _ => True
  | _, _ => False

instance (a : PtpAction) : Decidable a.Tagged := by unfold PtpAction.Tagged; split <;> infer_instance

/-- `std::get<ptp_endpoint>`. -/
def PtpActionVal.getEndpoint : PtpActionVal → Except Fault PtpEndpoint
  | .endpoint e => .ok e
  | _ => .error .abort

/-- `std::get<ptp_local_conn>`. -/
def PtpActionVal.getLocalConn : PtpActionVal → Except Fault PtpLocalConn
  | .localConn c => .ok c
  | _ => .error .abort

/-- `std::get<ptp_net_switch>`. -/
def PtpActionVal.getNetSwitch : PtpActionVal → Except Fault PtpNetSwitch
  | .netSwitch s => .ok s
  | _ => .error .abort

/-- The byte of an action type on the wire. -/
def PtpActionT.toByte : PtpActionT → UInt8
  | .endpoint => 0
  | .localConn => 1
  | .netSwitch => 2

/-- The action type of a byte, if a switch has a case for it. -/
def PtpActionT.ofByte (b : UInt8) : Option PtpActionT :=
  if b = 0 then some .endpoint
  else if b = 1 then some .localConn
  else if b = 2 then some .netSwitch
  else none

/-! ## The codec of an action -/

/-- `write_in_network_order(ptp_endpoint)`. -/
def writePtpEndpoint (src : PtpEndpoint) : Bytes := [src.type]

/-- `extract_from_network_order(ptp_endpoint)`. -/
def extractPtpEndpoint : Decoder PtpEndpoint := do
  let b ← byte
  return ⟨b⟩

/-- `write_in_network_order(ptp_local_conn)`. -/
def writePtpLocalConn (src : PtpLocalConn) : Bytes :=
  varLenEncodeBytes src.srcAddr.octets ++ varLenEncodeBytes src.destAddr.octets

/-- `extract_from_network_order(ptp_local_conn)`. -/
def extractPtpLocalConn : Reader PtpLocalConn :=
  Reader.narrowed do
    let srcOctets ← Reader.ofDecoder varLenDecodeBytesInt
    let destOctets ← Reader.ofDecoder varLenDecodeBytesInt
    return ⟨⟨srcOctets⟩, ⟨destOctets⟩⟩

/-- `write_in_network_order(ptp_net_switch)`. -/
def writePtpNetSwitch (src : PtpNetSwitch) : Bytes :=
  varLenEncodeBytes src.srcId.vals ++ varLenEncodeBytes src.destId.vals

/-- `extract_from_network_order(ptp_net_switch)`. -/
def extractPtpNetSwitch : Reader PtpNetSwitch :=
  Reader.narrowed do
    let srcVals ← Reader.ofDecoder varLenDecodeBytesInt
    let destVals ← Reader.ofDecoder varLenDecodeBytesInt
    return ⟨⟨srcVals⟩, ⟨destVals⟩⟩

/-- `write_in_network_order(ptp_action)`. -/
def writePtpAction (src : PtpAction) : Except Fault Bytes :=
  match src.type with
  | .endpoint => do return src.type.toByte :: writePtpEndpoint (← src.val.getEndpoint)
  | .localConn => do return src.type.toByte :: writePtpLocalConn (← src.val.getLocalConn)
  | .netSwitch => do return src.type.toByte :: writePtpNetSwitch (← src.val.getNetSwitch)

/-- The first byte of an action and the `default` of the switch on it. -/
def extractPtpActionT : Decoder PtpActionT := do
  let b ← byte
  match PtpActionT.ofByte b with
  | some t => return t
  | none => lift (.error .abort)

/-- `extract_from_network_order(ptp_action)`. -/
def extractPtpAction : Reader PtpAction :=
  Reader.narrowed do
    let type ← Reader.ofDecoder extractPtpActionT
    match type with
    | .endpoint => do
      let e ← Reader.ofDecoder extractPtpEndpoint
      return ⟨.endpoint, .endpoint e⟩
    | .localConn => do
      let c ← extractPtpLocalConn
      return ⟨.localConn, .localConn c⟩
    | .netSwitch => do
      let s ← extractPtpNetSwitch
      return ⟨.netSwitch, .netSwitch s⟩

/-! ## Headers -/

/-- `ptp_header`. -/
structure PtpHeader where
  actions : List PtpAction
  currAction : UInt8
  noJumps : UInt8
  deriving DecidableEq, Repr

/-- `ptp_header::get_curr_action`: it throws when the index is past the list. -/
def PtpHeader.getCurrAction (h : PtpHeader) : Except Fault PtpAction :=
  match h.actions[h.currAction.toNat]? with
  | some a => .ok a
  | none => .error .abort

/-- `write_in_network_order(ptp_header)`: it throws when the count does not fit a byte. -/
def writePtpHeader (src : PtpHeader) : Except Fault Bytes := do
  if ¬src.actions.length < 256 then throw .abort
  let words ← src.actions.mapM writePtpAction
  return UInt8.ofNat src.actions.length :: (words.flatten ++ [src.currAction, src.noJumps])

/-- `extract_from_network_order(ptp_header)`. -/
def extractPtpHeader : Reader PtpHeader :=
  Reader.narrowed do
    let noActions ← Reader.ofDecoder byte
    let actions ← extractPtpAction.times noActions.toNat
    let currAction ← Reader.ofDecoder byte
    let noJumps ← Reader.ofDecoder byte
    return ⟨actions, currAction, noJumps⟩

/-- `create_reverse_action(ptp_endpoint)`: it throws on a type that is neither start nor end. -/
def createReverseEndpoint (endpoint : PtpEndpoint) : Except Fault PtpEndpoint :=
  if endpoint.type = ptpEndpointStart then .ok ⟨ptpEndpointEnd⟩
  else if endpoint.type = ptpEndpointEnd then .ok ⟨ptpEndpointStart⟩
  else .error .abort

/-- `create_reverse_action(ptp_action)`. -/
def createReverseAction (action : PtpAction) : Except Fault PtpAction :=
  match action.type with
  | .endpoint => do return ⟨.endpoint, .endpoint (← createReverseEndpoint (← action.val.getEndpoint))⟩
  | .localConn => do
    let c ← action.val.getLocalConn
    return ⟨.localConn, .localConn ⟨c.destAddr, c.srcAddr⟩⟩
  | .netSwitch => do
    let s ← action.val.getNetSwitch
    return ⟨.netSwitch, .netSwitch ⟨s.destId, s.srcId⟩⟩

/-- `create_reverse_actions`: the actions from last to first, each reversed. -/
def createReverseActions (actions : List PtpAction) : Except Fault (List PtpAction) :=
  actions.reverse.mapM createReverseAction

/-- `ptp_is_endpoint_end`. The index is compared with `actions.size() - 1` as an unsigned 64-bit number. -/
def ptpIsEndpointEnd (header : PtpHeader) : Except Fault Bool := do
  if header.currAction.toNat ≠ (header.actions.length + (UInt64.size - 1)) % UInt64.size then return false
  let action ← header.getCurrAction
  if action.type ≠ .endpoint then return false
  let endpoint ← action.val.getEndpoint
  if endpoint.type ≠ ptpEndpointEnd then return false
  return true

end NetworkingFramework
