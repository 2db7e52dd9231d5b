import NetworkingFramework.NetAccess

/-!
# UDP

`protocols/udp`: the datagram header, `send`, the receiver of `connect_recv` and the net access of a single source port.
-/

namespace NetworkingFramework

open Wire Wire.Decoder

/-- `udp_header`. -/
structure UdpHeader where
  srcPort : UInt16
  destPort : UInt16
  len : UInt16
  checksum : UInt16
  deriving DecidableEq

/-- `write_in_network_order(udp_header)`. -/
def writeUdpHeader (src : UdpHeader) : Bytes :=
  storeU16 (htons src.srcPort) ++ storeU16 (htons src.destPort) ++ storeU16 (htons src.len) ++ storeU16 (htons src.checksum)

/-- `extract_from_network_order(udp_header)`. -/
def extractUdpHeader : Decoder UdpHeader := do
  let srcPort ← netU16
  let destPort ← netU16
  let len ← netU16
  let checksum ← netU16
  return ⟨srcPort, destPort, len, checksum⟩

namespace UdpProtocol

/-- `sizeof(udp_header)`. -/
def headerSize : Nat := 8

/-- `send`: the datagram, with its length filled in and no checksum. -/
def send (header : UdpHeader) (data : Bytes) : Bytes :=
  writeUdpHeader { header with len := UInt16.ofNat (headerSize + data.length), checksum := 0 } ++ data

/-- The receiver of `connect_recv`. -/
def connectRecv (srcPort destPort : Option UInt16) (data : Bytes) : Except Fault (List (UdpHeader × Bytes)) :=
  recvFiltered extractUdpHeader (fun header => Accepts srcPort header.srcPort ∧ Accepts destPort header.destPort) data

/-- The parameters of a `net_access_single`. -/
structure NetAccessSingle where
  srcPort : Option UInt16
  destPort : UInt16

/-- The header its `send_data` hands to `send`, which sets the other two fields. -/
def NetAccessSingle.header (access : NetAccessSingle) : UdpHeader where
  srcPort := access.destPort
  destPort := access.srcPort.getD 0
  len := 0
  checksum := 0

/-- `send_data`. -/
def NetAccessSingle.sendData (access : NetAccessSingle) (data : Bytes) : Bytes := send access.header data

/-- Its receiver: the payloads it forwards. -/
def NetAccessSingle.recv (access : NetAccessSingle) (data : Bytes) : Except Fault (List Bytes) := do
  return (← connectRecv access.srcPort (some access.destPort) data).map Prod.snd

end UdpProtocol
end NetworkingFramework
