import NetworkingFramework.ArpSearch

/-!
# Scanning a subnet while replies arrive

`arp_tool::scan_entire_subnet`, step by step: requests are sent, the tool waits, and then it goes through the replies until it
finds the queue empty. Replies are put into the queue all the while, as in a search (`ArpSearch`), and the operations of the
queue are taken as atomic as there: runs where one of them begins before another has ended are left out.
-/

namespace NetworkingFramework

open Wire

namespace ArpTool

/-- Where the tool is in `scan_entire_subnet`. -/
inductive ScanPlace where
  /-- Before `smallest_ip_addr_in_subnet`. -/
  | start
  /-- At the head of the sending loop. -/
  | send
  | wait
  /-- At the head of the loop over the replies. -/
  | isEmpty
  | front
  | popFront (reply : Fin queueSize)
  /-- Before `reply->sender_prot_addr` is read. -/
  | readIp (reply : Fin queueSize)
  /-- Before `reply->sender_hard_addr` is read. -/
  | readMac (reply : Fin queueSize) (replyIp : Ip4Addr)
  | returned
  | faulted (fault : Fault)
  deriving DecidableEq

/-- The parameters and the variables of `scan_entire_subnet`, `res` being a map whose pairs are in the order in which they were
found; and what has happened, as in a `Search`. -/
structure Scan where
  mask : Ip4SubnetMask
  skipAddrs : Finset Ip4Addr
  srcMac : MacAddr
  srcIp : Ip4Addr
  queue : CircularQueue ArpHeader queueSize
  requestCnt : Nat
  currIp : Ip4Addr
  res : List (Ip4Addr × MacAddr)
  place : ScanPlace
  sent : List Bytes
  arrived : List Bytes
  stored : List ArpHeader
  taken : List ArpHeader

/-- What the system does next. -/
inductive ScanEvent where
  | arrive (data : Bytes)
  | proceed

namespace Scan

theorem queueSize_pos : 0 < queueSize := by decide

/-- The state at the call. The source does not initialize `curr_ip` before it assigns to it. -/
def init (mask : Ip4SubnetMask) (skipAddrs : Finset Ip4Addr) (srcMac : MacAddr) (srcIp : Ip4Addr) (currIp : Ip4Addr)
    (buff : List.Vector ArpHeader queueSize) : Scan where
  mask
  skipAddrs
  srcMac
  srcIp
  queue := .init buff queueSize_pos
  requestCnt := 0
  currIp
  res := []
  place := .start
  sent := []
  arrived := []
  stored := []
  taken := []

/-- `recv_queue::handle_recv`. -/
def handleRecv (s : Scan) (header : ArpHeader) : Scan :=
  { s with
    queue := (s.queue.pushBack header).2
    stored := if s.queue.isFull then s.stored else s.stored ++ [header] }

/-- A frame reaches the receiver that is registered for replies. -/
def arrive (s : Scan) (data : Bytes) : Scan :=
  match ArpProtocol.connectRecv (some arpOpReply) data with
  | .error fault => { s with arrived := s.arrived ++ [data], place := .faulted fault }
  | .ok headers => headers.foldl handleRecv { s with arrived := s.arrived ++ [data] }

/-- A turn of the sending loop. -/
def sendTurn (s : Scan) : Except Fault Scan := do
  if !(← isInsideIp4Subnet s.mask s.currIp) then return { s with place := .wait }
  let frames ← if s.currIp ∈ s.skipAddrs then pure [] else do pure [← ArpProtocol.send (request s.srcMac s.srcIp s.currIp)]
  return { s with sent := s.sent ++ frames, currIp := generateNextIp s.currIp, requestCnt := s.requestCnt + 1 }

/-- The first half of a turn of the loop over the replies, up to the reading of the hardware address. -/
def readIp (s : Scan) (reply : Fin queueSize) : Except Fault Scan := do
  let (replyIp, _) ← extractIp4Addr.run (s.queue.buff.get reply).senderProtAddr 0
  if !(← isInsideIp4Subnet s.mask replyIp) then return { s with place := .isEmpty }
  if replyIp ∈ s.res.map Prod.fst then return { s with place := .isEmpty }
  return { s with place := .readMac reply replyIp }

/-- The second half. -/
def readMac (s : Scan) (reply : Fin queueSize) (replyIp : Ip4Addr) : Except Fault Scan := do
  let (replyMac, _) ← extractMacAddr.run (s.queue.buff.get reply).senderHardAddr 0
  return { s with res := s.res ++ [(replyIp, replyMac)], place := .isEmpty }

/-- What may fault. -/
def orFault (s : Scan) : Except Fault Scan → Scan
  | .ok s' => s'
  | .error fault => { s with place := .faulted fault }

/-- The tool's next step. -/
def proceed (s : Scan) : Option Scan :=
  match s.place with
  | .start => some (s.orFault do return { s with currIp := ← smallestIpAddrInSubnet s.mask, place := .send })
  | .send => some (s.orFault s.sendTurn)
  | .wait => some { s with place := .isEmpty }
  | .isEmpty => some { s with place := if s.queue.isEmpty then .returned else .front }
  | .front =>
    -- without an element there is a null pointer at once
    some { s with place := if s.queue.isEmpty then .isEmpty else .popFront ⟨s.queue.baseIn, s.queue.baseIn_lt⟩ }
  | .popFront reply =>
    some { s with queue := s.queue.popFront.2, taken := s.taken ++ s.queue.front.toList, place := .readIp reply }
  | .readIp reply => some (s.orFault (s.readIp reply))
  | .readMac reply replyIp => some (s.orFault (s.readMac reply replyIp))
  | .returned | .faulted _ => none

/-- A step of the system. After a fault there is none. -/
def step (s : Scan) : ScanEvent → Option Scan
  | .arrive data => if s.place matches .faulted _ then none else some (s.arrive data)
  | .proceed => s.proceed

/-- The queue was full before the reply was taken out of it that the tool reads: the next header that arrives is stored in its
place. -/
def Overwrites (s : Scan) : Prop :=
  match s.place with
  | .readIp _ | .readMac _ _ => s.queue.count + 1 = queueSize
  | _ => False

/-- The condition on the steps of a run: nothing arrives where it would be stored in place of the reply that is read. -/
def Allowed (s : Scan) : ScanEvent → Prop
  | .arrive _ => ¬s.Overwrites
  | .proceed => True

end Scan
end ArpTool
end NetworkingFramework
