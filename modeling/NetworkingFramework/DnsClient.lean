import NetworkingFramework.CircularQueue
import NetworkingFramework.DnsPrinting
import NetworkingFramework.DnsServer
import NetworkingFramework.Lib.Runs

/-!
# A client of a DNS server

`dns_tool::send_requests`: a request is sent again as often as no message comes for a while, until there is a message with its id.
Beside the client a `recv_queue` puts every message that arrives into a circular queue. What the client does between two accesses to
the queue is one step. Nothing locks the queue. Its operations are taken as atomic: runs where one of them begins before another has
ended are left out. Then a client and a server, and between them a network that may lose packets, keep them back and repeat them.
-/

namespace NetworkingFramework

open Wire

namespace DnsTool

/-- The `BUFF_SZ` of the queue in a `recv_queue`. -/
def queueSize : Nat := 2000

/-- `make_dns_query`: the name with its null character. -/
def makeDnsQuery (name : Bytes) (type class_ : UInt16) : DnsQuery := ⟨name ++ [0], type, class_⟩

/-- The message that `send_requests` sends. The bits `cd` and `ad` are not initialized. -/
def requestFor (cd ad : Bool) (query : DnsQuery) : DnsMessage where
  header := {
    id := 0x8950, rd := true, tc := false, aa := false, opcode := 0, qr := false, rcode := 0, cd, ad, ra := false
    queryCount := 1, ansCount := 0, authCount := 0, addCount := 0 }
  queries := [query]
  ans := []
  ansAuth := []
  ansAddit := []

/-- Where the client is in `send_requests`. -/
inductive Place where
  | send
  | front
  | popFront (reply : Fin queueSize)
  /-- Before `*reply` is copied. -/
  | copy (reply : Fin queueSize)
  /-- Behind `print_dns_message`, with what it has printed, or the fault of a read in it. -/
  | printed (reply : DnsMessage) (text : Except Fault Bytes)
  | faulted (fault : Fault)
  deriving DecidableEq

/-- The variables of `send_requests`, and what has happened: the packets that were sent and that arrived, the waits that timed
out, the messages that were put into the queue, and those that were taken out of it. -/
structure Client where
  msg : DnsMessage
  queue : CircularQueue DnsMessage queueSize
  place : Place
  sent : List Bytes
  arrived : List Bytes
  timeouts : Nat
  stored : List DnsMessage
  taken : List DnsMessage

/-- What the client does next. A packet that arrives is decoded with so many iterations. -/
inductive ClientEvent where
  | arrive (fuel : Nat) (data : Bytes)
  | timeout
  | proceed

namespace Client

/-- The state before the loop. What the elements of the queue are is left open by the source. -/
def init (msg : DnsMessage) (buff : List.Vector DnsMessage queueSize) : Client where
  msg
  queue := .init buff (by decide)
  place := .send
  sent := []
  arrived := []
  timeouts := 0
  stored := []
  taken := []

/-- `recv_queue::handle_recv`. -/
def handleRecv (s : Client) (msg : DnsMessage) : Client :=
  { s with
    queue := (s.queue.pushBack msg).2
    stored := if s.queue.isFull then s.stored else s.stored ++ [msg] }

/-- A packet reaches the receiver of `dns_protocol::connect_recv`. One that is not decoded leads nowhere. -/
def arrive (s : Client) (fuel : Nat) (data : Bytes) : Option Client :=
  match (extractDnsMessage.run fuel).run data 0 with
  | .error _ => none
  | .ok (msg, _) => some ({ s with arrived := s.arrived ++ [data] }.handleRecv msg)

/-- The client's next step. In front of an empty queue it waits. -/
def proceed (s : Client) : Option Client :=
  match s.place with
  | .send =>
    match DnsProtocol.send s.msg with
    | .error fault => some { s with place := .faulted fault }
    | .ok data => some { s with sent := s.sent ++ [data], place := .front }
  | .front => if s.queue.isEmpty then none else some { s with place := .popFront ⟨s.queue.baseIn, s.queue.baseIn_lt⟩ }
  | .popFront reply => some { s with queue := s.queue.popFront.2, taken := s.taken ++ s.queue.front.toList, place := .copy reply }
  | .copy reply =>
    let dnsReply := s.queue.buff.get reply
    some { s with
      place := if s.msg.header.id ≠ dnsReply.header.id then .front else .printed dnsReply (printDnsMessage dnsReply false true) }
  | .printed _ _ | .faulted _ => none

/-- A step. -/
def step (s : Client) : ClientEvent → Option Client
  | .arrive fuel data => s.arrive fuel data
  | .timeout => if s.place = .front ∧ s.queue.isEmpty then some { s with timeouts := s.timeouts + 1, place := .send } else none
  | .proceed => s.proceed

/-- The queue was full before the message was taken out of it that the client copies: the next one that arrives is stored in its
place. -/
def Overwrites (s : Client) : Prop :=
  match s.place with
  | .copy _ => s.queue.count + 1 = queueSize
  | _ => False

/-- The condition on the steps of a run: nothing arrives where it would be stored in place of the message that is copied. -/
def Allowed (s : Client) : ClientEvent → Prop
  | .arrive _ _ => ¬s.Overwrites
  | .timeout | .proceed => True

end Client
end DnsTool

/-! ## With a server -/

/-- A client, and the packets that its server has sent. The packets between them are never gone: one that is delivered late, or
never, or twice, is one that is used so. -/
structure DnsService where
  client : DnsTool.Client
  replies : List Bytes

/-- What happens next. -/
inductive ServiceEvent where
  /-- A packet of the client reaches the server. -/
  | serve (index fuel : Nat) (stack : StackContents)
  /-- A packet of the server reaches the client. -/
  | deliver (index fuel : Nat)
  | timeout
  | proceed

namespace DnsService

/-- Nothing has happened yet. -/
def init (msg : DnsMessage) (buff : List.Vector DnsMessage DnsTool.queueSize) : DnsService := ⟨.init msg buff, []⟩

/-- A step of the client. -/
def stepClient (s : DnsService) (e : DnsTool.ClientEvent) : Option DnsService :=
  (s.client.step e).map fun client => { s with client }

/-- A step, where the server has a database. -/
def step (database : DnsDatabase) (s : DnsService) : ServiceEvent → Option DnsService
  | .serve index fuel stack =>
    match s.client.sent[index]? with
    | none => none
    | some packet =>
      match DnsServer.receive fuel database stack packet with
      | .error _ => none
      | .ok data => some { s with replies := s.replies ++ [data] }
  | .deliver index fuel =>
    match s.replies[index]? with
    | none => none
    | some data => s.stepClient (.arrive fuel data)
  | .timeout => s.stepClient .timeout
  | .proceed => s.stepClient .proceed

end DnsService
end NetworkingFramework
