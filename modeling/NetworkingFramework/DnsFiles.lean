import NetworkingFramework.DnsServer
import NetworkingFramework.Ip4Text
import NetworkingFramework.Lib.InStream

/-!
# The files of a DNS server

`dns_parse_records_a` and `dns_parse_records_mx` of `protocols/dns/dns_database`, and how `main/dns/dns_server` fills its
database with what they return. A file is its contents, or nothing when it is not given or cannot be opened.
-/

namespace NetworkingFramework

open Wire CText

/-- The loop of both functions, on the words read last and the records pushed before. A pair of words is left out when the second is
not parsed to a value. -/
def parseRecordsLoop {KEY : Type} (parse : Bytes → Except Fault (Option KEY)) :
    Nat → InStream → Bytes → Bytes → List (Bytes × KEY) → Except Fault (List (Bytes × KEY))
  | 0, _, _, _, _ => .error .diverges
  | fuel + 1, input, name, val, res =>
    let (input, name) := input.getWord name
    let (input, val) := input.getWord val
    if input.failed then .ok res
    else do
      match ← parse val with
      | none => parseRecordsLoop parse fuel input name val res
      | some key => parseRecordsLoop parse fuel input name val (res ++ [(name, key)])

/-- `dns_parse_records_a`. -/
def dnsParseRecordsA (fuel : Nat) : Option Bytes → Except Fault (List (Bytes × Ip4Addr))
  | none => .ok []
  | some file => parseRecordsLoop strToIp4Addr fuel (.ofString file) [] [] []

/-- `dns_parse_records_mx`. -/
def dnsParseRecordsMx (fuel : Nat) : Option Bytes → Except Fault (List (Bytes × Bytes))
  | none => .ok []
  | some file => parseRecordsLoop (fun val => .ok (some val)) fuel (.ofString file) [] [] []

namespace DnsServer

/-- What `main` fills the database with. -/
def loadDatabase (dbA dbMx : Option Bytes) (fuel : Nat) : Except Fault DnsDatabase := do
  let database ← (← dnsParseRecordsA fuel dbA).foldlM (fun database r => database.addRecordA r.1 r.2) .empty
  (← dnsParseRecordsMx fuel dbMx).foldlM (fun database r => database.addRecordMx r.1 r.2) database

end DnsServer
end NetworkingFramework
