import NetworkingFramework.NetAccess

/-!
# IPv4

`protocols/ip4`: the packet header and its checksum, `send`, the receiver of `connect_recv` and the net access of a single
source.
-/

namespace NetworkingFramework

open Wire Wire.Decoder

/-- `ip4_addr`. -/
structure Ip4Addr where
  octets : List.Vector UInt8 4
  deriving DecidableEq

/-- `ip4_addr_empty`. -/
def ip4AddrEmpty : Ip4Addr := ⟨⟨[0, 0, 0, 0], rfl⟩⟩

/-- `ip4_header`; four of its fields are bit fields. An `ip_prot_values` is any byte; three of them have names. -/
structure Ip4Header where
  version : BitVec 4
  headerLen : BitVec 4
  typeOfService : UInt8
  totalLen : UInt16
  id : UInt16
  flags : BitVec 3
  fragOff : BitVec 13
  ttl : UInt8
  prot : UInt8
  checksum : UInt16
  srcAddr : Ip4Addr
  destAddr : Ip4Addr
  deriving DecidableEq

/-- `extract_from_network_order(ip4_addr)`. -/
def extractIp4Addr : Decoder Ip4Addr := do
  let octets ← octets 4
  return ⟨octets⟩

/-- `write_in_network_order(ip4_header)`. The checksum is not swapped. -/
def writeIp4Header (src : Ip4Header) : Bytes :=
  [UInt8.ofNat (src.version.toNat * 16 + src.headerLen.toNat)] ++ [src.typeOfService] ++
    storeU16 (htons src.totalLen) ++ storeU16 (htons src.id) ++
    storeU16 (htons (UInt16.ofNat (src.flags.toNat * 8192 + src.fragOff.toNat))) ++
    [src.ttl] ++ [src.prot] ++ storeU16 src.checksum ++ src.srcAddr.octets.toList ++ src.destAddr.octets.toList

/-- `extract_from_network_order(ip4_header)`. The three bits of the flags are masked but not shifted down before they go to a
field of three bits. -/
def extractIp4Header : Decoder Ip4Header := do
  let b ← byte
  let typeOfService ← byte
  let totalLen ← netU16
  let id ← netU16
  let word ← netU16
  let ttl ← byte
  let prot ← byte
  let checksum ← loadU16
  let srcAddr ← extractIp4Addr
  let destAddr ← extractIp4Addr
  return {
    version := BitVec.ofNat 4 (b.toNat / 16), headerLen := BitVec.ofNat 4 (b.toNat % 16), typeOfService, totalLen, id
    flags := BitVec.ofNat 3 (word.toNat / 8192 * 8192), fragOff := BitVec.ofNat 13 (word.toNat % 8192), ttl, prot
    checksum, srcAddr, destAddr }

/-- The loop of `internet_checksum`: the 16-bit words of the buffer summed, and a last odd byte. -/
def internetChecksumSum : Bytes → UInt32 → UInt32
  | [], sum => sum
  | [b], sum => sum + UInt32.ofNat b.toNat
  | b₀ :: b₁ :: rest, sum => internetChecksumSum rest (sum + UInt32.ofNat (b₀.toNat + b₁.toNat * 256))

/-- `internet_checksum`. -/
def internetChecksum (buf : Bytes) : UInt16 :=
  let sum := internetChecksumSum buf 0
  let sum := (sum >>> 16) + (sum &&& 0xFFFF)
  let sum := sum + (sum >>> 16)
  (~~~sum).toUInt16

namespace Ip4Protocol

/-- `sizeof(ip4_header)`. -/
def headerSize : Nat := 20

/-- `send`: the packet, its header's checksum filled in. -/
def send (header : Ip4Header) (data : Bytes) : Bytes :=
  let tmpHeader := { header with checksum := 0 }
  let tmpHeader := { tmpHeader with checksum := internetChecksum (writeIp4Header tmpHeader) }
  writeIp4Header tmpHeader ++ data

/-- The receiver of `connect_recv`. -/
def connectRecv (srcAddr destAddr : Option Ip4Addr) (prot : Option UInt8) (data : Bytes) :
    Except Fault (List (Ip4Header × Bytes)) :=
  recvFiltered extractIp4Header (fun ipHeader => Accepts srcAddr ipHeader.srcAddr ∧
    Accepts destAddr ipHeader.destAddr ∧ Accepts prot ipHeader.prot) data

/-- The parameters of a `net_access_single`. -/
structure NetAccessSingle where
  srcAddr : Ip4Addr
  destAddr : Option Ip4Addr
  prot : Option UInt8

/-- The header its `send_data` hands to `send`. -/
def NetAccessSingle.header (access : NetAccessSingle) (data : Bytes) : Ip4Header where
  headerLen := 5
  version := 4
  typeOfService := 0
  totalLen := UInt16.ofNat (headerSize + data.length)
  id := 1234
  flags := 0
  fragOff := 0
  ttl := 255
  prot := access.prot.getD 0
  checksum := 0
  srcAddr := access.destAddr.getD ip4AddrEmpty
  destAddr := access.srcAddr

/-- `send_data`. -/
def NetAccessSingle.sendData (access : NetAccessSingle) (data : Bytes) : Bytes := send (access.header data) data

/-- Its receiver: the payloads it forwards. -/
def NetAccessSingle.recv (access : NetAccessSingle) (data : Bytes) : Except Fault (List Bytes) := do
  return (← connectRecv (some access.srcAddr) access.destAddr access.prot data).map Prod.snd

end Ip4Protocol
end NetworkingFramework
