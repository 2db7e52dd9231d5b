import NetworkingFramework.Dns
import NetworkingFramework.DnsDatabase
import NetworkingFramework.DnsRdata

/-!
# The DNS server

`dns_tool`: how a server answers a message from its database.
-/

namespace NetworkingFramework

open Wire

/-- `string((char*) data.data())`: the bytes before the first null byte, which is not looked for at the end of the vector. -/
def cString (data : Bytes) : Except Fault Bytes :=
  if 0 ∈ data then .ok (data.takeWhile (· ≠ 0)) else .error .outOfBounds

namespace DnsTool

/-- The data of the record below. -/
def myStartOfAuthority : SoaRdata where
  primaryServer := chars "none" ++ [0]
  adminMailServer := chars "none" ++ [0]
  serialNum := 69
  refreshInterval := 60 * 30
  retryInterval := 60 * 15
  expireLimit := 7 * 24 * 60 * 60
  maxTtl := 1 * 24 * 60 * 60

/-- `get_my_start_of_authority`. The record is static, but made anew by every call. -/
def getMyStartOfAuthority (frame : SoaFrame) : Except Fault DnsAnswer := do
  let rdata ← convertSoaToRdata frame myStartOfAuthority
  return {
    name := chars "some local dns server" ++ [0], type := dnsRecordTypeSoa, class_ := dnsRecordClassIn, ttl := 60 * 15
    dataLen := UInt16.ofNat rdata.length, rdata }

/-- The body of the loop of `handle_query`: what it pushes to `answers` and to `auth_ans`. -/
def answerQuery (database : DnsDatabase) (frame : SoaFrame) (query : DnsQuery) :
    Except Fault (List DnsAnswer × List DnsAnswer) :=
  if query.qType = dnsRecordTypeA then do
    match ← database.searchRecordA (← cString query.qName) with
    | none => return ([], [← getMyStartOfAuthority frame])
    | some res => return ([⟨query.qName, query.qType, query.qClass, 3600, 4, res.octets.toList⟩], [])
  else if query.qType = dnsRecordTypeMx then do
    match ← database.searchRecordMx (← cString query.qName) with
    | none => return ([], [← getMyStartOfAuthority frame])
    | some res =>
      let rdata ← convertMxToRdata ⟨10, res⟩
      return ([⟨query.qName, query.qType, query.qClass, 3600, UInt16.ofNat rdata.length, rdata⟩], [])
  else do
    return ([], [← getMyStartOfAuthority frame])

/-- The loop of `handle_query`, from the query `i` on, `count` queries being left. The header's count is not compared with the
number of queries. -/
def answerQueries (database : DnsDatabase) (frames : Nat → SoaFrame) (queries : List DnsQuery) :
    Nat → Nat → Except Fault (List DnsAnswer × List DnsAnswer)
  | 0, _ => .ok ([], [])
  | count + 1, i =>
    match queries[i]? with
    | none => .error .outOfBounds
    | some query => do
      let (answers, authAns) ← answerQuery database (frames i) query
      let (answers', authAns') ← answerQueries database frames queries count (i + 1)
      return (answers ++ answers', authAns ++ authAns')

/-- The reply of `handle_query`, from what its loop has pushed. The bits `cd` and `ad` are not initialized. -/
def replyTo (cd ad : Bool) (msg : DnsMessage) (answers authAns : List DnsAnswer) : DnsMessage where
  header := {
    id := msg.header.id, rd := false, tc := false, aa := false, opcode := 0, qr := true, rcode := 0, cd, ad, ra := false
    queryCount := msg.header.queryCount, ansCount := UInt16.ofNat answers.length
    authCount := UInt16.ofNat authAns.length, addCount := 0 }
  queries := msg.queries
  ans := answers
  ansAuth := authAns
  ansAddit := []

/-- `handle_query`; `frames i` is the frame in which the record of authority for the query `i` is made, when it is. -/
def handleQuery (database : DnsDatabase) (frames : Nat → SoaFrame) (cd ad : Bool) (msg : DnsMessage) :
    Except Fault DnsMessage := do
  let (answers, authAns) ← answerQueries database frames msg.queries msg.header.queryCount.toNat 0
  return replyTo cd ad msg answers authAns

end DnsTool
end NetworkingFramework
