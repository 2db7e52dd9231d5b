import NetworkingFramework.DnsName

/-!
# The data of MX and SOA records

`mx_rdata_t`, `soa_rdata_t` and their codecs. The `convert_to_rdata` for SOA makes each of its vectors from a local word up to the
end of the first word, `serial_num`, so what it returns, and whether it does, depends on where the words lie on the stack.
-/

namespace NetworkingFramework

open Wire Wire.Decoder

/-- The bytes of a string literal. -/
def chars (s : String) : Bytes := s.toList.map fun c => UInt8.ofNat c.toNat

theorem chars_dot : chars "." = ['.'.toUInt8] := rfl

/-- `mx_rdata_t`. -/
structure MxRdata where
  preference : UInt16
  domain : Bytes

/-- `convert_to_rdata(mx_rdata_t)`. -/
def convertMxToRdata (source : MxRdata) : Except Fault Bytes := do
  return storeU16 (htons source.preference) ++ (← encodeDnsName source.domain)

/-- `extract_from_network_order(mx_rdata_t)`. -/
def extractMxRdata : Fueled MxRdata := do
  let (preference, _) ← Fueled.peek 0 (Fueled.ofDecoder netU16)
  let cnt := 2
  let (domain, n) ← Fueled.peek cnt extractDnsName
  let cnt ← Fueled.lift (addInts cnt n)
  Fueled.move cnt
  return ⟨preference, domain⟩

/-- `soa_rdata_t`. -/
structure SoaRdata where
  primaryServer : Bytes
  adminMailServer : Bytes
  serialNum : UInt32
  refreshInterval : UInt32
  retryInterval : UInt32
  expireLimit : UInt32
  maxTtl : UInt32

/-- The stack frame of a call of `convert_to_rdata(soa_rdata_t)`: the addresses of its five local words, which do not overlap,
and what lies elsewhere on the stack when the `n`-th of its vectors is made. -/
structure SoaFrame where
  serialNum : Nat
  refreshInterval : Nat
  retryInterval : Nat
  expireLimit : Nat
  maxTtl : Nat
  stack : Nat → Nat → UInt8
  disjoint : [serialNum, refreshInterval, retryInterval, expireLimit, maxTtl].Pairwise fun a b => a + 4 ≤ b ∨ b + 4 ≤ a

namespace SoaFrame

/-- The local words with their addresses. -/
def locals (frame : SoaFrame) (source : SoaRdata) : List (Nat × UInt32) :=
  [(frame.serialNum, htonl source.serialNum), (frame.refreshInterval, htonl source.refreshInterval),
    (frame.retryInterval, htonl source.retryInterval), (frame.expireLimit, htonl source.expireLimit),
    (frame.maxTtl, htonl source.maxTtl)]

/-- The byte at an address when the `n`-th vector is made. -/
def memory (frame : SoaFrame) (source : SoaRdata) (n addr : Nat) : UInt8 :=
  match (frame.locals source).find? fun word => word.1 ≤ addr ∧ addr < word.1 + 4 with
  | some word => (storeU32 word.2).getD (addr - word.1) 0
  | none => frame.stack n addr

/-- The `n`-th vector: the bytes from an address up to the end of `serial_num`. The vector's constructor takes the distance for
a length, and throws when it is negative. -/
def vector (frame : SoaFrame) (source : SoaRdata) (n first : Nat) : Except Fault Bytes :=
  let last := frame.serialNum + 4
  if first ≤ last then .ok ((List.range' first (last - first)).map (frame.memory source n)) else .error .abort

end SoaFrame

/-- `convert_to_rdata(soa_rdata_t)`. -/
def convertSoaToRdata (frame : SoaFrame) (source : SoaRdata) : Except Fault Bytes := do
  let primaryServer ← encodeDnsName source.primaryServer
  let adminMailServer ← encodeDnsName source.adminMailServer
  let serialNum ← frame.vector source 0 frame.serialNum
  let refreshInterval ← frame.vector source 1 frame.refreshInterval
  let retryInterval ← frame.vector source 2 frame.retryInterval
  let expireLimit ← frame.vector source 3 frame.expireLimit
  let maxTtl ← frame.vector source 4 frame.maxTtl
  return primaryServer ++ adminMailServer ++ serialNum ++ refreshInterval ++ retryInterval ++ expireLimit ++ maxTtl

/-- `extract_from_network_order(soa_rdata_t)`. Each word goes through `ntohs`. -/
def extractSoaRdata : Fueled SoaRdata := do
  let (primaryServer, cnt) ← Fueled.peek 0 extractDnsName
  let (adminMailServer, n) ← Fueled.peek cnt extractDnsName
  let cnt ← Fueled.lift (addInts cnt n)
  let (serialNum, _) ← Fueled.peek cnt (Fueled.ofDecoder netLowHalfU32)
  let cnt := narrow (cnt + 4)
  let (refreshInterval, _) ← Fueled.peek cnt (Fueled.ofDecoder netLowHalfU32)
  let cnt := narrow (cnt + 4)
  let (retryInterval, _) ← Fueled.peek cnt (Fueled.ofDecoder netLowHalfU32)
  let cnt := narrow (cnt + 4)
  let (expireLimit, _) ← Fueled.peek cnt (Fueled.ofDecoder netLowHalfU32)
  let cnt := narrow (cnt + 4)
  let (maxTtl, _) ← Fueled.peek cnt (Fueled.ofDecoder netLowHalfU32)
  let cnt := narrow (cnt + 4)
  Fueled.move cnt
  return ⟨primaryServer, adminMailServer, serialNum, refreshInterval, retryInterval, expireLimit, maxTtl⟩

end NetworkingFramework
