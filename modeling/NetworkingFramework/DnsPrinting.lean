import NetworkingFramework.DnsTool
import NetworkingFramework.Ip4Text

/-!
# Printing DNS messages

`print_dns_message`: what it prints of a message. It reads as many queries and records as the header counts, a name up to its null
character, and four bytes of the data of an address, and compares none of this with what the message has.
-/

namespace NetworkingFramework

open Wire CText

/-- `dns_record_type::ns`. -/
def dnsRecordTypeNs : UInt16 := 2

/-- `dns_record_type_to_str`. -/
def dnsRecordTypeToStr (type : UInt16) : Option Bytes :=
  if type = dnsRecordTypeA then some (chars "a")
  else if type = dnsRecordTypeMx then some (chars "mx")
  else if type = 12 then some (chars "ptr")
  else if type = 5 then some (chars "cname")
  else if type = dnsRecordTypeNs then some (chars "ns")
  else if type = dnsRecordTypeSoa then some (chars "soa")
  else none

/-- The body of the loop over the queries. -/
def printDnsQuery (query : DnsQuery) : Except Fault Bytes := do
  let name ← cString query.qName
  let type := match dnsRecordTypeToStr query.qType with
    | some str => chars "type: " ++ str
    | none => chars "type: unknown"
  return chars "name: " ++ name ++ chars ", " ++ type ++ chars "\n"

/-- The body of the loops over the records, with what is printed behind the name. -/
def printDnsRecord (data : DnsAnswer → Except Fault Bytes) (ans : DnsAnswer) : Except Fault Bytes := do
  let name ← cString ans.name
  let text ← data ans
  return chars "name: " ++ name ++ chars ", " ++ text ++ chars "\n"

/-- Of an answer, and of an additional one, the address is printed. -/
def printAddress (ans : DnsAnswer) : Except Fault Bytes :=
  if ans.type = dnsRecordTypeA then do
    let (addr, _) ← extractIp4Addr.run ans.rdata 0
    return chars "has ip4 addr: " ++ ip4AddrToStr addr
  else return []

/-- Of an authoritative answer the name server is printed. -/
def printNameServer (ans : DnsAnswer) : Except Fault Bytes :=
  if ans.type = dnsRecordTypeNs then return chars "has nameserver: " ++ (← cString ans.rdata) else return []

/-- A loop over the first elements of a section. -/
def printEach {α : Type} (body : α → Except Fault Bytes) : Nat → List α → Except Fault Bytes
  | 0, _ => return []
  | _ + 1, [] => throw .outOfBounds
  | count + 1, item :: items => return (← body item) ++ (← printEach body count items)

/-- A section is printed below its title, unless it is empty or not asked for. -/
def printSection {α : Type} (title : Bytes) (body : α → Except Fault Bytes) (asked : Bool) (count : UInt16) (items : List α) :
    Except Fault Bytes :=
  if count = 0 ∨ asked = false then return [] else return title ++ (← printEach body count.toNat items)

/-- The numbers that are printed first. -/
def printDnsCounts (header : DnsHeader) : Bytes :=
  chars "number of queries: " ++ printNat 10 header.queryCount.toNat ++ chars "\n" ++
    chars "number of answer: " ++ printNat 10 header.ansCount.toNat ++ chars "\n" ++
    chars "number of authoritative answers: " ++ printNat 10 header.authCount.toNat ++ chars "\n" ++
    chars "number of additional ans: " ++ printNat 10 header.addCount.toNat ++ chars "\n"

/-- `print_dns_message`. -/
def printDnsMessage (msg : DnsMessage) (printQueries printAns : Bool) : Except Fault Bytes := do
  let queries ← printSection (chars "queries:\n") printDnsQuery printQueries msg.header.queryCount msg.queries
  let ans ← printSection (chars "answers:\n") (printDnsRecord printAddress) printAns msg.header.ansCount msg.ans
  let ansAuth ←
    printSection (chars "authoritative answers:\n") (printDnsRecord printNameServer) printAns msg.header.authCount msg.ansAuth
  let ansAddit ←
    printSection (chars "additional answers:\n") (printDnsRecord printAddress) printAns msg.header.addCount msg.ansAddit
  return printDnsCounts msg.header ++ queries ++ ans ++ ansAuth ++ ansAddit

end NetworkingFramework
