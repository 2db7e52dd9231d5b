import NetworkingFramework.NetAccess

/-!
# ARP

`protocols/arp`: the header, whose addresses are as long as two of its fields say, and what is sent and received of it.
-/

namespace NetworkingFramework

open Wire Wire.Decoder

/-- `arp_op_values::request`. -/
def arpOpRequest : UInt16 := 1

/-- `arp_op_values::reply`. -/
def arpOpReply : UInt16 := 2

/-- `arp_header`. A type, or an `arp_op_values`, is any 16-bit value. -/
structure ArpHeader where
  hardType : UInt16
  protType : UInt16
  hardAddrSz : UInt8
  protAddrSz : UInt8
  op : UInt16
  senderHardAddr : Bytes
  senderProtAddr : Bytes
  targetHardAddr : Bytes
  targetProtAddr : Bytes
  deriving DecidableEq

/-- `sizeof(arp_header)` on a 64-bit host: five fields of eight bytes in all, and four vectors. -/
def sizeofArpHeader : Nat := 8 + 4 * 24

/-- `calc_sz`. -/
def ArpHeader.calcSz (header : ArpHeader) : Nat :=
  2 + 2 + 1 + 1 + 2 + header.hardAddrSz.toNat + header.protAddrSz.toNat + header.hardAddrSz.toNat + header.protAddrSz.toNat

/-- An address is written behind what was written, unless its length is not the one in the header. -/
def writeArpAddr (written addr : Bytes) (addrSz : UInt8) : Except Bytes Bytes :=
  if addr.length ≠ addrSz.toNat then .error written else .ok (written ++ addr)

/-- `write_in_network_order(arp_header)`. The error is what was written before the program is aborted. -/
def writeArpHeader (src : ArpHeader) : Except Bytes Bytes := do
  let written := storeU16 (htons src.hardType) ++ storeU16 (htons src.protType) ++ [src.hardAddrSz] ++ [src.protAddrSz] ++
    storeU16 (htons src.op)
  let written ← writeArpAddr written src.senderHardAddr src.hardAddrSz
  let written ← writeArpAddr written src.senderProtAddr src.protAddrSz
  let written ← writeArpAddr written src.targetHardAddr src.hardAddrSz
  writeArpAddr written src.targetProtAddr src.protAddrSz

/-- `extract_from_network_order(arp_header)`. -/
def extractArpHeader : Decoder ArpHeader := do
  let hardType ← netU16
  let protType ← netU16
  let hardAddrSz ← byte
  let protAddrSz ← byte
  let op ← netU16
  let senderHardAddr ← octets hardAddrSz.toNat
  let senderProtAddr ← octets protAddrSz.toNat
  let targetHardAddr ← octets hardAddrSz.toNat
  let targetProtAddr ← octets protAddrSz.toNat
  return {
    hardType, protType, hardAddrSz, protAddrSz, op
    senderHardAddr := senderHardAddr.toList, senderProtAddr := senderProtAddr.toList
    targetHardAddr := targetHardAddr.toList, targetProtAddr := targetProtAddr.toList }

namespace ArpProtocol

/-- `send`: what is handed to the net access below. The buffer is as large as the header is in memory, not as the header is when
it is written, and all of it is sent. -/
def send (header : ArpHeader) : Except Fault Bytes :=
  match writeArpHeader header with
  | .ok written =>
    if written.length ≤ sizeofArpHeader then .ok (written ++ List.replicate (sizeofArpHeader - written.length) 0)
    else .error .outOfBounds
  | .error written => if written.length ≤ sizeofArpHeader then .error .abort else .error .outOfBounds

/-- The receiver of `connect_recv`. -/
def connectRecv (op : Option UInt16) (data : Bytes) : Except Fault (List ArpHeader) := do
  let (header, _) ← extractArpHeader.run data 0
  return if Accepts op header.op then [header] else []

end ArpProtocol
end NetworkingFramework
