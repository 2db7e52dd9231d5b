import NetworkingFramework.Ether2
import NetworkingFramework.Ip4
import NetworkingFramework.Udp
import NetworkingFramework.Emp

/-!
# Stacks of net accesses

A net access of a single source sends through the net access below it and receives what that one forwards. A stack is the list
of its layers, the top one first; what its last layer sends goes to the medium.
-/

namespace NetworkingFramework

open Wire Wire.Decoder

/-- A layer of a stack: the `net_access_single` of one of the protocols. -/
inductive Layer where
  | ether2 (access : Ethernet2Protocol.NetAccessSingle)
  | ip4 (access : Ip4Protocol.NetAccessSingle)
  | udp (access : UdpProtocol.NetAccessSingle)
  | emp (access : EmpProtocol.NetAccessSingle)

/-- `send_data` of a layer: what it hands to the one below. -/
def Layer.sendData (layer : Layer) (data : Bytes) : Except Fault Bytes :=
  match layer with
  | .ether2 access => .ok (access.sendData data)
  | .ip4 access => .ok (access.sendData data)
  | .udp access => .ok (access.sendData data)
  | .emp access => access.sendData data

/-- The receiver of a layer: what it forwards to the one above. -/
def Layer.recv (layer : Layer) (data : Bytes) : Except Fault (List Bytes) :=
  match layer with
  | .ether2 access => access.recv data
  | .ip4 access => access.recv data
  | .udp access => access.recv data
  | .emp access => access.recv data

/-- `send_data` of the top of a stack: what reaches the medium. -/
def stackSend : List Layer → Bytes → Except Fault Bytes
  | [], data => .ok data
  | layer :: below, data => do stackSend below (← layer.sendData data)

/-- What the receiver on top of a stack is given for the bytes the medium delivers. -/
def stackRecv : List Layer → Bytes → Except Fault (List Bytes)
  | [], data => .ok [data]
  | layer :: below, data => do
    let payloads ← stackRecv below data
    return (← payloads.mapM layer.recv).flatten

/-- What the receiver of `udp_protocol::connect_recv` hands on, installed on a net access that forwards the payloads of
`ip4_protocol::connect_recv`. -/
def recvUdpOverIp4 (srcAddr destAddr : Option Ip4Addr) (prot : Option UInt8) (srcPort destPort : Option UInt16)
    (data : Bytes) : Except Fault (List (UdpHeader × Bytes)) := do
  let packets ← Ip4Protocol.connectRecv srcAddr destAddr prot data
  return (← packets.mapM fun packet => UdpProtocol.connectRecv srcPort destPort packet.2).flatten

/-- The layer has room for the data: a layer of EMP writes its header and the data to a buffer of fixed size. -/
def Layer.HasRoom (layer : Layer) (data : Bytes) : Prop :=
  match layer with
  | .emp access => (writeEmpHeader access.header).length + data.length ≤ 0x1000
  | _ => True

instance (layer : Layer) (data : Bytes) : Decidable (layer.HasRoom data) := by
  unfold Layer.HasRoom; split <;> infer_instance

/-- Every layer has room for what the layers above it send. -/
def StackHasRoom : List Layer → Bytes → Prop
  | [], _ => True
  | layer :: below, data => layer.HasRoom data ∧ ∀ packet, layer.sendData data = .ok packet → StackHasRoom below packet

/-- Two hosts' layers of one protocol. -/
def Layer.SameProtocol (a b : Layer) : Prop :=
  match a, b with
  | .ether2 _, .ether2 _ => True
  | .ip4 _, .ip4 _ => True
  | .udp _, .udp _ => True
  | .emp _, .emp _ => True
  | _, _ => False

/-- Two hosts' layers of one protocol with each other's source and destination. -/
def Layer.Mirrored (a b : Layer) : Prop :=
  match a, b with
  | .ether2 x, .ether2 y => x.destAddr = some y.srcAddr ∧ y.destAddr = some x.srcAddr ∧ x.prot = y.prot
  | .ip4 x, .ip4 y => x.destAddr = some y.srcAddr ∧ y.destAddr = some x.srcAddr ∧ x.prot = y.prot
  | .udp x, .udp y => x.srcPort = some y.destPort ∧ y.srcPort = some x.destPort
  | .emp x, .emp y => x.srcPort = some y.destPort ∧ y.srcPort = some x.destPort
  | _, _ => False

/-- The values one host's layer filters on are those the other host's layer writes. -/
def Layer.AcceptsFrom (b a : Layer) : Prop :=
  match a, b with
  | .ether2 x, .ether2 y =>
    Accepts (some y.srcAddr) x.header.srcAddr ∧ Accepts y.destAddr x.header.destAddr ∧ Accepts y.prot x.header.prot
  | .ip4 x, .ip4 y =>
    Accepts (some y.srcAddr) (x.header []).srcAddr ∧ Accepts y.destAddr (x.header []).destAddr ∧
      Accepts y.prot (x.header []).prot
  | .udp x, .udp y => Accepts y.srcPort x.header.srcPort ∧ Accepts (some y.destPort) x.header.destPort
  | .emp x, .emp y => Accepts y.srcPort x.header.srcPort ∧ Accepts (some y.destPort) x.header.destPort
  | _, _ => False

instance (b a : Layer) : Decidable (b.AcceptsFrom a) := by unfold Layer.AcceptsFrom; split <;> infer_instance

end NetworkingFramework
