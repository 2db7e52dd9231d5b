import NetworkingFramework.DnsPrinting
import NetworkingFramework.Lemmas.DnsCodec
import NetworkingFramework.Lemmas.DnsTool
import NetworkingFramework.Lemmas.HeaderCodecs

/-!
# Lemmas: printing DNS messages

What is printed of a section with one record, or with none, and of the records that a server answers with.
-/

namespace NetworkingFramework

open Wire CText

/-! ## Sections -/

section
variable {α : Type} (title : Bytes) (body : α → Except Fault Bytes)

theorem printSection_zero (asked : Bool) (items : List α) : printSection title body asked 0 items = .ok [] := if_pos (.inl rfl)

theorem printSection_not_asked (count : UInt16) (items : List α) : printSection title body false count items = .ok [] :=
  if_pos (.inr rfl)

theorem printSection_one {item : α} {text : Bytes} (h : body item = .ok text) :
    printSection title body true 1 [item] = .ok (title ++ text) := by
  have hasked : ¬((1 : UInt16) = 0 ∨ true = false) := by decide
  have heach : printEach body 1 [item] = .ok (text ++ []) := by
    rw [printEach, h]
    rfl
  rw [printSection, if_neg hasked, show (1 : UInt16).toNat = 1 from rfl, heach, List.append_nil]
  rfl

end

/-! ## Records -/

variable {a : DnsAnswer} {name : Bytes}

theorem printDnsRecord_ok {data : DnsAnswer → Except Fault Bytes} {text : Bytes} (hname : cString a.name = .ok name)
    (hdata : data a = .ok text) : printDnsRecord data a = .ok (chars "name: " ++ name ++ chars ", " ++ text ++ chars "\n") := by
  rw [printDnsRecord, hname, ok_bind, hdata]
  rfl

/-- The address of an answer, as it comes back. -/
theorem printAddress_received {query : DnsQuery} (htype : query.qType = dnsRecordTypeA) (addr : Ip4Addr) :
    printAddress (DnsTool.addressAnswer query addr).received = .ok (chars "has ip4 addr: " ++ ip4AddrToStr addr) := by
  have htype' : (DnsTool.addressAnswer query addr).received.type = dnsRecordTypeA := htype
  have hread : extractIp4Addr.run (DnsTool.addressAnswer query addr).received.rdata 0 = .ok (addr, addr.octets.toList.length) := by
    show extractIp4Addr.run (addr.octets.toList.take 4) 0 = _
    rw [List.take_of_length_le (Nat.le_of_eq addr.octets.toList_length)]
    exact (roundTrips_ip4Addr addr).run_word
  rw [printAddress, if_pos htype', hread]
  rfl

theorem printAddress_other (htype : a.type ≠ dnsRecordTypeA) : printAddress a = .ok [] := if_neg htype

theorem printNameServer_other (htype : a.type ≠ dnsRecordTypeNs) : printNameServer a = .ok [] := if_neg htype

/-! ## Messages -/

/-- The answers of a message without additional ones. -/
theorem printDnsMessage_ans {msg : DnsMessage} {ans ansAuth : Bytes} (hadd : msg.header.addCount = 0)
    (hans : printSection (chars "answers:\n") (printDnsRecord printAddress) true msg.header.ansCount msg.ans = .ok ans)
    (hauth : printSection (chars "authoritative answers:\n") (printDnsRecord printNameServer) true msg.header.authCount
      msg.ansAuth = .ok ansAuth) :
    printDnsMessage msg false true = .ok (printDnsCounts msg.header ++ ans ++ ansAuth) := by
  simp only [printDnsMessage, printSection_not_asked, hans, hauth, hadd, printSection_zero, pure_eq_ok, ok_bind, List.append_nil]

end NetworkingFramework
