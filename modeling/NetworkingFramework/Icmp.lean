import NetworkingFramework.Ip4

/-!
# ICMP

`protocols/icmp`: the message header, `send` and the receiver of `connect_recv`.
-/

namespace NetworkingFramework

open Wire Wire.Decoder

/-- `icmp_header`. An `icmp_type` is any byte; five of them have names. The content is a union, read and written as its raw
word. -/
structure IcmpHeader where
  type : UInt8
  code : UInt8
  checksum : UInt16
  content : UInt32
  deriving DecidableEq

/-- `write_in_network_order(icmp_header)`. The checksum is not swapped. -/
def writeIcmpHeader (src : IcmpHeader) : Bytes :=
  [src.type] ++ [src.code] ++ storeU16 src.checksum ++ storeU32 (htonl src.content)

/-- `extract_from_network_order(icmp_header)`. -/
def extractIcmpHeader : Decoder IcmpHeader := do
  let type ← byte
  let code ← byte
  let checksum ← loadU16
  let content ← loadU32
  return ⟨type, code, checksum, ntohl content⟩

namespace IcmpProtocol

/-- `send`: the message, the checksum over all of it filled in. -/
def send (header : IcmpHeader) (data : Bytes) : Bytes :=
  let tmpHeader := { header with checksum := 0 }
  let buff := writeIcmpHeader tmpHeader ++ data
  let tmpHeader := { tmpHeader with checksum := internetChecksum buff }
  writeIcmpHeader tmpHeader ++ data

/-- The receiver of `connect_recv`. It hands on the whole message, its header included. -/
def connectRecv (type : Option UInt8) (data : Bytes) : Except Fault (List (IcmpHeader × Bytes)) := do
  let (header, _) ← extractIcmpHeader.run data 0
  if Accepts type header.type then return [(header, data)]
  else return []

end IcmpProtocol
end NetworkingFramework
