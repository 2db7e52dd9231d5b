import NetworkingFramework.NetAccess
import NetworkingFramework.VarLenInts

/-!
# EMP

`protocols/emp`: like UDP, with ports that are byte strings of any length. Both are written to a buffer of fixed size.
-/

namespace NetworkingFramework

open Wire Wire.Decoder

/-- `emp_port`; its `operator==` compares the sizes and the values. -/
structure EmpPort where
  vals : Bytes
  deriving DecidableEq, Repr

/-- `emp_port_empty`: one zero byte. -/
def empPortEmpty : EmpPort := ⟨[0]⟩

/-- `emp_header`. -/
structure EmpHeader where
  srcPort : EmpPort
  destPort : EmpPort
  deriving DecidableEq, Repr

/-- `extract_from_network_order(emp_port)`. -/
def extractEmpPort : Decoder EmpPort := do
  let vals ← varLenDecodeBytesInt
  return ⟨vals⟩

/-- `write_in_network_order(emp_header)`. -/
def writeEmpHeader (src : EmpHeader) : Bytes := varLenEncodeBytes src.srcPort.vals ++ varLenEncodeBytes src.destPort.vals

/-- `extract_from_network_order(emp_header)`. -/
def extractEmpHeader : Reader EmpHeader :=
  Reader.narrowed do
    let srcPort ← Reader.ofDecoder extractEmpPort
    let destPort ← Reader.ofDecoder extractEmpPort
    return ⟨srcPort, destPort⟩

namespace EmpProtocol

/-- The size of the buffer in `send`. -/
def buffSize : Nat := 0x1000

/-- `send`: the header and the data, written to the buffer without a check that they fit. -/
def send (header : EmpHeader) (data : Bytes) : Except Fault Bytes :=
  let packet := writeEmpHeader header ++ data
  if packet.length ≤ buffSize then .ok packet else .error .outOfBounds

/-- The receiver of `connect_recv`. -/
def connectRecv (srcPort destPort : Option EmpPort) (data : Bytes) : Except Fault (List (EmpHeader × Bytes)) :=
  recvFilteredInt extractEmpHeader (fun header => Accepts srcPort header.srcPort ∧ Accepts destPort header.destPort) data

/-- The parameters of a `net_access_single`. -/
structure NetAccessSingle where
  srcPort : Option EmpPort
  destPort : EmpPort

/-- The header its `send_data` writes. -/
def NetAccessSingle.header (access : NetAccessSingle) : EmpHeader where
  srcPort := access.destPort
  destPort := access.srcPort.getD empPortEmpty

/-- `send_data`. -/
def NetAccessSingle.sendData (access : NetAccessSingle) (data : Bytes) : Except Fault Bytes := send access.header data

/-- Its receiver: the payloads it forwards. -/
def NetAccessSingle.recv (access : NetAccessSingle) (data : Bytes) : Except Fault (List Bytes) := do
  return (← connectRecv access.srcPort (some access.destPort) data).map Prod.snd

end EmpProtocol
end NetworkingFramework
