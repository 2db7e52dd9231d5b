import NetworkingFramework.NetAccess

/-!
# Ethernet 2

`protocols/ether2`: the frame header, `send`, the receiver of `connect_recv` and the net access of a single source.
-/

namespace NetworkingFramework

open Wire Wire.Decoder

/-- `mac_addr`. -/
structure MacAddr where
  octets : List.Vector UInt8 6
  deriving DecidableEq

/-- `mac_addr_empty`. -/
def macAddrEmpty : MacAddr := ⟨⟨[0, 0, 0, 0, 0, 0], rfl⟩⟩

/-- `ethernet2_header`. An `ethertype` is any 16-bit value; two of them have names. -/
structure Ethernet2Header where
  srcAddr : MacAddr
  destAddr : MacAddr
  prot : UInt16
  deriving DecidableEq

/-- `extract_from_network_order(mac_addr)`. -/
def extractMacAddr : Decoder MacAddr := do
  let octets ← octets 6
  return ⟨octets⟩

/-- `write_in_network_order(ethernet2_header)`. -/
def writeEthernet2Header (src : Ethernet2Header) : Bytes :=
  src.destAddr.octets.toList ++ src.srcAddr.octets.toList ++ storeU16 (htons src.prot)

/-- `extract_from_network_order(ethernet2_header)`. -/
def extractEthernet2Header : Decoder Ethernet2Header := do
  let destAddr ← extractMacAddr
  let srcAddr ← extractMacAddr
  let prot ← netU16
  return ⟨srcAddr, destAddr, prot⟩

namespace Ethernet2Protocol

/-- `send`: the frame handed to the net access below. -/
def send (header : Ethernet2Header) (data : Bytes) : Bytes := writeEthernet2Header header ++ data

/-- The receiver of `connect_recv`. -/
def connectRecv (srcAddr destAddr : Option MacAddr) (type : Option UInt16) (data : Bytes) :
    Except Fault (List (Ethernet2Header × Bytes)) :=
  recvFiltered extractEthernet2Header (fun ethHeader => Accepts srcAddr ethHeader.srcAddr ∧
    Accepts destAddr ethHeader.destAddr ∧ Accepts type ethHeader.prot) data

/-- The parameters of a `net_access_single`. -/
structure NetAccessSingle where
  srcAddr : MacAddr
  destAddr : Option MacAddr
  prot : Option UInt16

/-- The header its `send_data` writes. -/
def NetAccessSingle.header (access : NetAccessSingle) : Ethernet2Header where
  srcAddr := access.destAddr.getD macAddrEmpty
  destAddr := access.srcAddr
  prot := access.prot.getD 0

/-- `send_data`. -/
def NetAccessSingle.sendData (access : NetAccessSingle) (data : Bytes) : Bytes := send access.header data

/-- Its receiver: the payloads it forwards. -/
def NetAccessSingle.recv (access : NetAccessSingle) (data : Bytes) : Except Fault (List Bytes) := do
  return (← connectRecv (some access.srcAddr) access.destAddr access.prot data).map Prod.snd

end Ethernet2Protocol
end NetworkingFramework
