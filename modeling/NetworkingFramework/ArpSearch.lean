import NetworkingFramework.ArpTool
import NetworkingFramework.CircularQueue
import NetworkingFramework.Lib.Runs

/-!
# Searching for a hardware address

`arp_tool::search_for_mac_addr`: a request is sent again and again until a reply for the searched address is found. Beside the tool
a `recv_queue` puts the header of every reply that arrives into a circular queue. What the tool does between two accesses to the
queue, or to the reply it points to, is one step, and so is a frame that arrives; the waiting for a reply may be over whenever there
is none.

Nothing locks the queue. Its operations are taken as atomic: runs where one of them begins before another has ended are left out.
-/

namespace NetworkingFramework

open Wire

namespace ArpTool

/-- The `BUFF_SZ` of the queue in a `recv_queue`. -/
def queueSize : Nat := 2000

/-- Where the tool is in `search_for_mac_addr`. -/
inductive Place where
  | send
  | front
  | popFront (reply : Fin queueSize)
  /-- Before `reply->sender_prot_addr` is read. -/
  | readIp (reply : Fin queueSize)
  /-- Before `reply->sender_hard_addr` is read. -/
  | readMac (reply : Fin queueSize)
  | clear (res : MacAddr)
  | returned (res : MacAddr)
  | faulted (fault : Fault)
  deriving DecidableEq

/-- The variables of `search_for_mac_addr`, and what has happened: the frames that were sent and that arrived, the waits that timed
out, the headers that were put into the queue, and those that the tool has taken out of it. -/
structure Search where
  searchedIp : Ip4Addr
  arpHeader : ArpHeader
  queue : CircularQueue ArpHeader queueSize
  place : Place
  sent : List Bytes
  arrived : List Bytes
  timeouts : Nat
  stored : List ArpHeader
  taken : List ArpHeader

/-- What the system does next. -/
inductive SearchEvent where
  | arrive (data : Bytes)
  | timeout
  | proceed

namespace Search

/-- The state before the loop. What the elements of the queue are is left open by the source. -/
def init (searchedIp : Ip4Addr) (srcMac : MacAddr) (srcIp : Ip4Addr) (buff : List.Vector ArpHeader queueSize) : Search where
  searchedIp
  arpHeader := request srcMac srcIp searchedIp
  queue := .init buff (by decide)
  place := .send
  sent := []
  arrived := []
  timeouts := 0
  stored := []
  taken := []

/-- `recv_queue::handle_recv`. -/
def handleRecv (s : Search) (header : ArpHeader) : Search :=
  { s with
    queue := (s.queue.pushBack header).2
    stored := if s.queue.isFull then s.stored else s.stored ++ [header] }

/-- A frame reaches the receiver that is registered for replies. -/
def arrive (s : Search) (data : Bytes) : Search :=
  match ArpProtocol.connectRecv (some arpOpReply) data with
  | .error fault => { s with arrived := s.arrived ++ [data], place := .faulted fault }
  | .ok headers => headers.foldl handleRecv { s with arrived := s.arrived ++ [data] }

/-- The tool's next step. In front of an empty queue it waits. -/
def proceed (s : Search) : Option Search :=
  match s.place with
  | .send =>
    match ArpProtocol.send s.arpHeader with
    | .error fault => some { s with place := .faulted fault }
    | .ok frame => some { s with sent := s.sent ++ [frame], place := .front }
  | .front => if s.queue.isEmpty then none else some { s with place := .popFront ⟨s.queue.baseIn, s.queue.baseIn_lt⟩ }
  | .popFront reply =>
    some { s with queue := s.queue.popFront.2, taken := s.taken ++ s.queue.front.toList, place := .readIp reply }
  | .readIp reply =>
    match extractIp4Addr.run (s.queue.buff.get reply).senderProtAddr 0 with
    | .error fault => some { s with place := .faulted fault }
    | .ok (replyIp, _) => some { s with place := if replyIp ≠ s.searchedIp then .send else .readMac reply }
  | .readMac reply =>
    match extractMacAddr.run (s.queue.buff.get reply).senderHardAddr 0 with
    | .error fault => some { s with place := .faulted fault }
    | .ok (res, _) => some { s with place := .clear res }
  | .clear res => some { s with queue := s.queue.clear, place := .returned res }
  | .returned _ | .faulted _ => none

/-- A step of the system. After a fault there is none. -/
def step (s : Search) : SearchEvent → Option Search
  | .arrive data => if s.place matches .faulted _ then none else some (s.arrive data)
  | .timeout => if s.place = .front ∧ s.queue.isEmpty then some { s with timeouts := s.timeouts + 1, place := .send } else none
  | .proceed => s.proceed

/-- The queue was full before the reply was taken out of it that the tool reads: the next header that arrives is stored in its
place. -/
def Overwrites (s : Search) : Prop :=
  match s.place with
  | .readIp _ | .readMac _ => s.queue.count + 1 = queueSize
  | _ => False

/-- The condition on the steps of a run: nothing arrives where it would be stored in place of the reply that is read. -/
def Allowed (s : Search) : SearchEvent → Prop
  | .arrive _ => ¬s.Overwrites
  | .timeout | .proceed => True

end Search

/-- The protocol address of a reply's sender, where it is long enough. -/
def senderIp (reply : ArpHeader) : Option Ip4Addr := (extractIp4Addr.run reply.senderProtAddr 0).toOption.map Prod.fst

/-- The hardware address of a reply's sender, where it is long enough. -/
def senderMac (reply : ArpHeader) : Option MacAddr := (extractMacAddr.run reply.senderHardAddr 0).toOption.map Prod.fst

/-- A frame that the receiver, or the tool after it, reads beyond the end of. -/
def Malformed (data : Bytes) : Prop :=
  match ArpProtocol.connectRecv (some arpOpReply) data with
  | .error _ => True
  | .ok headers => ∃ header ∈ headers, senderIp header = none ∨ senderMac header = none

end ArpTool
end NetworkingFramework
