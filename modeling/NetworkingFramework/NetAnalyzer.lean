import NetworkingFramework.Arp
import NetworkingFramework.Ether2
import NetworkingFramework.Ip4Text
import NetworkingFramework.MacText

/-!
# The network analyzer

`tools/net_analyzer/parsed_packet.cpp`: a captured frame goes through the receivers of Ethernet 2, ARP and IPv4, each of which
adds a description of its header.
-/

namespace NetworkingFramework

open Wire Wire.Decoder CText

namespace NetAnalyzer

/-- `ethertype::ip4`. -/
def ethertypeIp4 : UInt16 := 0x0800

/-- `ethertype::arp`. -/
def ethertypeArp : UInt16 := 0x0806

/-- `ethertype_to_str`. -/
def ethertypeToStr (prot : UInt16) : Option Bytes :=
  if prot = ethertypeArp then some (chars "arp")
  else if prot = ethertypeIp4 then some (chars "ip4")
  else none

/-- `ip_prot_to_str`. -/
def ipProtToStr (prot : UInt8) : Option Bytes :=
  if prot = 1 then some (chars "icmp")
  else if prot = 17 then some (chars "udp")
  else if prot = 6 then some (chars "tcp")
  else none

/-- `net_analyzer_prot`. -/
inductive Prot where
  | ethernet2
  | arp
  | ip4
  | udp
  | tcp
  | icmp
  | dns
  | mdns
  deriving DecidableEq

/-- `net_analyzer_parsed_status`. -/
inductive ParsedStatus where
  | valid
  | corrupted
  | untested
  | unknown
  deriving DecidableEq

/-- `net_analyzer_parsed_prot`. -/
structure ParsedProt where
  status : ParsedStatus
  prot : Option Prot
  desc : Bytes
  deriving DecidableEq

/-- `net_analyzer_parsed_packet`. Of the sniffed packet it has the data. -/
structure ParsedPacket where
  sniffedPacket : Bytes
  prots : List ParsedProt
  desc : Bytes
  deriving DecidableEq

/-- The switch over the protocol type in `my_recv_arp::handle_recv`, on one of the header's addresses. -/
def describeProtAddr (protType : UInt16) (protAddr : Bytes) : Except Fault Bytes :=
  if protType = ethertypeIp4 then do
    let (ip, _) ← extractIp4Addr.run protAddr 0
    return ip4AddrToStr ip
  else return chars "<unknown>"

/-- The switch over the operation in `my_recv_arp::handle_recv`. A hardware address is read as six bytes whatever its type. -/
def describeOp (data : ArpHeader) : Except Fault Bytes :=
  if data.op = arpOpRequest then do
    return chars "request for " ++ (← describeProtAddr data.protType data.targetProtAddr)
  else if data.op = arpOpReply then do
    let replyIp ← describeProtAddr data.protType data.senderProtAddr
    let (replyMac, _) ← extractMacAddr.run data.senderHardAddr 0
    return chars "reply: " ++ replyIp ++ chars " is " ++ macAddrToStr replyMac
  else return chars "<unsupported op>"

/-- `my_recv_arp::handle_recv`, on what is in `ctx->res`. -/
def recvArp (res : List ParsedProt) (data : ArpHeader) : Except Fault (List ParsedProt) := do
  let desc := (ethertypeToStr data.protType).getD (chars "<unsupported>") ++ chars " -> " ++ chars "mac" ++ chars ", " ++
    (← describeOp data)
  return res ++ [⟨.valid, some .arp, desc⟩]

/-- `my_recv_ip4::handle_recv`. The receivers of the protocols above are not connected. -/
def recvIp4 (res : List ParsedProt) (data : Ip4Header × Bytes) : Except Fault (List ParsedProt) :=
  let desc := chars "src: " ++ ip4AddrToStr data.1.srcAddr ++ chars ", " ++ chars "dest: " ++ ip4AddrToStr data.1.destAddr ++
    chars ", " ++ chars "prot: " ++ (ipProtToStr data.1.prot).getD (chars "<unsupported>")
  return res ++ [⟨.valid, some .ip4, desc⟩]

/-- `my_recv_ether2::handle_recv`. -/
def recvEther2 (res : List ParsedProt) (data : Ethernet2Header × Bytes) : Except Fault (List ParsedProt) := do
  let desc := chars "src: " ++ macAddrToStr data.1.srcAddr ++ chars ", " ++ chars "dest: " ++ macAddrToStr data.1.destAddr ++
    chars ", " ++ chars "ethertype: " ++ (ethertypeToStr data.1.prot).getD (chars "<unsupported>")
  let res := res ++ [⟨.valid, some .ethernet2, desc⟩]
  if data.1.prot = ethertypeArp then (← ArpProtocol.connectRecv none data.2).foldlM recvArp res
  else if data.1.prot = ethertypeIp4 then (← Ip4Protocol.connectRecv none none none data.2).foldlM recvIp4 res
  else return res

/-- `parse_prots`. -/
def parseProts (data : Bytes) : Except Fault (List ParsedProt) := do
  (← Ethernet2Protocol.connectRecv none none none data).foldlM recvEther2 []

/-- `parse_sniffed_packet`. -/
def parseSniffedPacket (sniffedPacket : Bytes) : Except Fault ParsedPacket := do
  return ⟨sniffedPacket, ← parseProts sniffedPacket, chars "some packet"⟩

end NetAnalyzer
end NetworkingFramework
