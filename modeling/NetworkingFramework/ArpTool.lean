import Mathlib.Data.Finset.Defs
import NetworkingFramework.Arp
import NetworkingFramework.Ether2
import NetworkingFramework.Ip4Routing

/-!
# The ARP tool

`tools/arp_tool`: the packets of the tool, and the two loops of a scan of a subnet, over its addresses and over the replies that
have come by then. `ArpScan` has the scan with replies that arrive all the while, and `ArpSearch` the search for one address.
-/

namespace NetworkingFramework

open Wire

namespace ArpTool

/-- `ethertype::ip4`. -/
def ethertypeIp4 : UInt16 := 0x0800

/-- The header that each function of the tool fills in for itself. -/
def header (op : UInt16) (senderMac : MacAddr) (senderIp : Ip4Addr) (targetMac : MacAddr) (targetIp : Ip4Addr) : ArpHeader where
  hardType := 1
  protType := ethertypeIp4
  hardAddrSz := 6
  protAddrSz := 4
  op
  senderHardAddr := senderMac.octets.toList
  senderProtAddr := senderIp.octets.toList
  targetHardAddr := targetMac.octets.toList
  targetProtAddr := targetIp.octets.toList

/-- The header of a request for an address. -/
def request (srcMac : MacAddr) (srcIp currIp : Ip4Addr) : ArpHeader := header arpOpRequest srcMac srcIp macAddrEmpty currIp

/-- `announce_new_pair`: what it sends. -/
def announceNewPair (newIp : Ip4Addr) (newMac : MacAddr) : Except Fault Bytes :=
  ArpProtocol.send (header arpOpReply newMac newIp macAddrEmpty ip4AddrEmpty)

/-- The sending loop of `scan_entire_subnet`, from an address on: the requests it sends. -/
def sendRequests (mask : Ip4SubnetMask) (skipAddrs : Finset Ip4Addr) (srcMac : MacAddr) (srcIp : Ip4Addr) :
    Nat → Ip4Addr → Except Fault (List Bytes)
  | 0, _ => .error .diverges
  | fuel + 1, currIp => do
    if !(← isInsideIp4Subnet mask currIp) then return []
    let sent ← if currIp ∈ skipAddrs then pure [] else do pure [← ArpProtocol.send (request srcMac srcIp currIp)]
    return sent ++ (← sendRequests mask skipAddrs srcMac srcIp fuel (generateNextIp currIp))

/-- The loop over the replies, from what was found so far. -/
def processReplies (mask : Ip4SubnetMask) :
    List (Ip4Addr × MacAddr) → List ArpHeader → Except Fault (List (Ip4Addr × MacAddr))
  | res, [] => .ok res
  | res, reply :: replies => do
    let (replyIp, _) ← extractIp4Addr.run reply.senderProtAddr 0
    if !(← isInsideIp4Subnet mask replyIp) then processReplies mask res replies
    else if replyIp ∈ res.map Prod.fst then processReplies mask res replies
    else do
      let (replyMac, _) ← extractMacAddr.run reply.senderHardAddr 0
      processReplies mask (res ++ [(replyIp, replyMac)]) replies

end ArpTool
end NetworkingFramework
