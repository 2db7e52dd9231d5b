import NetworkingFramework.DnsName

/-!
# DNS messages

`protocols/dns`: the header, queries, records and messages, and their codecs. Both sides count the bytes of an item in an `int` and
return it. The reserved bit `z` of the header is left out: neither side of the codec touches it and nothing reads it.
-/

namespace NetworkingFramework

open Wire Wire.Decoder

/-! ## Data -/

/-- `dns_record_type::a`. A `dns_record_type` is any 16-bit value; six of them have names. -/
def dnsRecordTypeA : UInt16 := 1

/-- `dns_record_type::soa`. -/
def dnsRecordTypeSoa : UInt16 := 6

/-- `dns_record_type::mx`. -/
def dnsRecordTypeMx : UInt16 := 15

/-- `dns_record_class::in`. A `dns_record_class` is any 16-bit value; two of them have names. -/
def dnsRecordClassIn : UInt16 := 1

/-- `dns_header`. The flags are bit fields. -/
structure DnsHeader where
  id : UInt16
  rd : Bool
  tc : Bool
  aa : Bool
  opcode : BitVec 4
  qr : Bool
  rcode : BitVec 4
  cd : Bool
  ad : Bool
  ra : Bool
  queryCount : UInt16
  ansCount : UInt16
  authCount : UInt16
  addCount : UInt16
  deriving DecidableEq, Repr

/-- `dns_query`. -/
structure DnsQuery where
  qName : Bytes
  qType : UInt16
  qClass : UInt16
  deriving DecidableEq, Repr

/-- `dns_answer`. -/
structure DnsAnswer where
  name : Bytes
  type : UInt16
  class_ : UInt16
  ttl : UInt32
  dataLen : UInt16
  rdata : Bytes
  deriving DecidableEq, Repr

/-- `dns_message`. -/
structure DnsMessage where
  header : DnsHeader
  queries : List DnsQuery
  ans : List DnsAnswer
  ansAuth : List DnsAnswer
  ansAddit : List DnsAnswer
  deriving DecidableEq, Repr

/-! ## Writing -/

/-- `write_in_network_order(dns_header)`. A shift binds tighter than `|`, so the opcode and `ra` are not written: they are
distances that the bits before them are shifted by. -/
def writeDnsHeader (source : DnsHeader) : Except Fault Bytes := do
  let aa ← shiftLeft (source.aa.toNat <<< 2) (source.opcode.toNat <<< 3)
  let ad ← shiftLeft (source.ad.toNat <<< 5) (source.ra.toNat <<< 7)
  return storeU16 (htons source.id) ++
    [UInt8.ofNat (source.rd.toNat ||| source.tc.toNat <<< 1 ||| aa ||| source.qr.toNat <<< 7)] ++
    [UInt8.ofNat (source.rcode.toNat ||| source.cd.toNat <<< 4 ||| ad)] ++
    storeU16 (htons source.queryCount) ++ storeU16 (htons source.ansCount) ++ storeU16 (htons source.authCount) ++
    storeU16 (htons source.addCount)

/-- What is written behind a pointer is counted in an `int`, and the pointer moves by it. A count that does not fit in one is
negative, and what is written next lands before what was written last: this is a fault. -/
def countWritten (w : Bytes) : Except Fault Bytes := if w.length < 2 ^ 31 then .ok w else .error .unrepresentable

/-- `write_in_network_order(dns_query)`. -/
def writeDnsQuery (source : DnsQuery) : Except Fault Bytes := do
  let encodedQName ← encodeDnsName source.qName
  countWritten (encodedQName ++ storeU16 (htons source.qType) ++ storeU16 (htons source.qClass))

/-- `write_in_network_order(dns_answer)`. The TTL goes through `htons`, which takes its low 16 bits. -/
def writeDnsAnswer (source : DnsAnswer) : Except Fault Bytes := do
  let encodedName ← encodeDnsName source.name
  if source.rdata.length < source.dataLen.toNat then throw .outOfBounds
  countWritten (encodedName ++ storeU16 (htons source.type) ++ storeU16 (htons source.class_) ++
    storeU32 (UInt32.ofNat (htons (UInt16.ofNat source.ttl.toNat)).toNat) ++ storeU16 (htons source.dataLen) ++
    source.rdata.take source.dataLen.toNat)

/-- A section of records, after the check that the header counts them. -/
def writeDnsAnswers (count : UInt16) (answers : List DnsAnswer) : Except Fault Bytes := do
  if count.toNat ≠ answers.length then throw .abort
  return (← answers.mapM writeDnsAnswer).flatten

/-- `write_in_network_order(dns_message)`: it throws when a count of the header is not the size of its section. -/
def writeDnsMessage (src : DnsMessage) : Except Fault Bytes := do
  let header ← writeDnsHeader src.header
  if src.header.queryCount.toNat ≠ src.queries.length then throw .abort
  let queries ← src.queries.mapM writeDnsQuery
  let ans ← writeDnsAnswers src.header.ansCount src.ans
  let ansAuth ← writeDnsAnswers src.header.authCount src.ansAuth
  let ansAddit ← writeDnsAnswers src.header.addCount src.ansAddit
  return header ++ queries.flatten ++ ans ++ ansAuth ++ ansAddit

/-! ## Extracting -/

/-- `extract_from_network_order(dns_header)`. -/
def extractDnsHeader : Decoder DnsHeader := do
  let id ← netU16
  let b ← byte
  let c ← byte
  let queryCount ← netU16
  let ansCount ← netU16
  let authCount ← netU16
  let addCount ← netU16
  return {
    id, qr := b.toNat.testBit 7, opcode := BitVec.ofNat 4 ((b.toNat &&& 0b1111 <<< 3) >>> 3), aa := b.toNat.testBit 2
    tc := b.toNat.testBit 1, rd := b.toNat.testBit 0, ra := c.toNat.testBit 7, ad := c.toNat.testBit 5
    cd := c.toNat.testBit 4, rcode := BitVec.ofNat 4 (c.toNat &&& 0b1111), queryCount, ansCount, authCount, addCount }

/-- `extract_from_network_order(dns_query)`. A sum with a `sizeof` is assigned to `cnt`. -/
def extractDnsQuery : Fueled DnsQuery := do
  let (qName, cnt) ← Fueled.peek 0 extractDnsName
  let (qType, _) ← Fueled.peek cnt (Fueled.ofDecoder netU16)
  let cnt := narrow (cnt + 2)
  let (qClass, _) ← Fueled.peek cnt (Fueled.ofDecoder netU16)
  let cnt := narrow (cnt + 2)
  Fueled.move cnt
  return ⟨qName, qType, qClass⟩

/-- `extract_from_network_order(dns_answer)`. -/
def extractDnsAnswer : Fueled DnsAnswer := do
  let (name, cnt) ← Fueled.peek 0 extractDnsName
  let (type, _) ← Fueled.peek cnt (Fueled.ofDecoder netU16)
  let cnt := narrow (cnt + 2)
  let (class_, _) ← Fueled.peek cnt (Fueled.ofDecoder netU16)
  let cnt := narrow (cnt + 2)
  let (ttl, _) ← Fueled.peek cnt (Fueled.ofDecoder netLowHalfU32)
  let cnt := narrow (cnt + 4)
  let (dataLen, _) ← Fueled.peek cnt (Fueled.ofDecoder netU16)
  let cnt := narrow (cnt + 2)
  let (rdata, _) ← Fueled.peek cnt ((Fueled.ofDecoder byte).times dataLen.toNat)
  let cnt ← Fueled.lift (addInts cnt dataLen.toNat)
  Fueled.move cnt
  return ⟨name, type, class_, ttl, dataLen, rdata⟩

/-- `extract_from_network_order(dns_message)`: as many queries and records as the header counts. -/
def extractDnsMessage : Fueled DnsMessage := Fueled.narrowed do
  let header ← Fueled.ofDecoder extractDnsHeader
  let queries ← extractDnsQuery.times header.queryCount.toNat
  let ans ← extractDnsAnswer.times header.ansCount.toNat
  let ansAuth ← extractDnsAnswer.times header.authCount.toNat
  let ansAddit ← extractDnsAnswer.times header.addCount.toNat
  return ⟨header, queries, ans, ansAuth, ansAddit⟩

namespace DnsProtocol

/-- The size of the static buffer of `send`. -/
def buffSize : Nat := 0x10000

/-- `send`: the message, written to the static buffer without a check that it fits. -/
def send (msg : DnsMessage) : Except Fault Bytes := do
  let buff ← writeDnsMessage msg
  if buffSize < buff.length then throw .outOfBounds
  return buff

/-- The receiver of `connect_recv` decodes a packet to a message it hands on. -/
def Receives (data : Bytes) (msg : DnsMessage) : Prop := ∃ n, extractDnsMessage.Returns data 0 msg n

end DnsProtocol
end NetworkingFramework
