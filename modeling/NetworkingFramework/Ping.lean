import NetworkingFramework.CircularQueue
import NetworkingFramework.DnsRdata
import NetworkingFramework.Icmp
import NetworkingFramework.Lib.Runs

/-!
# Ping

`tools/ping/ping_tool.h`: an echo request is sent again and again until it is replied to, and then the next one. Beside the tool
a `recv_queue` puts every message that arrives into a circular queue. What the tool does between two accesses to the queue is one
step, and so is a message that arrives; the waiting for a message may be over whenever there is none. Nothing locks the queue. Its
operations are taken as atomic: runs where one of them begins before another has ended are left out.

The times that are taken and printed are not modelled.
-/

namespace NetworkingFramework

open Wire

/-- `icmp_type::echoreply`. -/
def icmpEchoreply : UInt8 := 0

/-- `icmp_type::dest_unreachable`. -/
def icmpDestUnreachable : UInt8 := 3

/-- `icmp_type::redirect`. -/
def icmpRedirect : UInt8 := 5

/-- `icmp_type::echo`. -/
def icmpEcho : UInt8 := 8

/-- `icmp_type::time_exceeded`. -/
def icmpTimeExceeded : UInt8 := 11

/-- `content.echo.id`, the half of the content that comes first in memory. -/
def IcmpHeader.echoId (header : IcmpHeader) : UInt16 := UInt16.ofNat header.content.toNat

/-- `content.echo.sequence`. -/
def IcmpHeader.echoSequence (header : IcmpHeader) : UInt16 := UInt16.ofNat (header.content.toNat / 65536)

/-- The content of an echo. -/
def echoContent (id sequence : UInt16) : UInt32 := UInt32.ofNat (id.toNat + sequence.toNat * 65536)

namespace PingTool

/-- The `BUFF_SZ` of the queue in a `recv_queue`. -/
def queueSize : Nat := 2000

/-- What is in the queue: a header, and the message it is the header of. -/
abbrev Message := IcmpHeader × Bytes

/-- Where the tool is in `ping`. -/
inductive Place where
  /-- Before the condition of the `for`. -/
  | loopHead
  | clear
  | send
  /-- At `recv_reply`. -/
  | front
  | popFront (reply : Fin queueSize)
  /-- Before `reply` is followed. -/
  | process (reply : Fin queueSize)
  /-- Behind the inner loop. -/
  | advance
  | returned
  deriving DecidableEq

/-- What the tool has done. A reply is logged with the iteration, and with the sequence number that is printed with it. -/
inductive Entry where
  | sent (i : Nat) (request : IcmpHeader)
  | printed (line : Bytes)
  | received (i : Nat) (seqNum : UInt16) (reply : IcmpHeader)
  deriving DecidableEq

/-- The variables of `ping`. -/
structure State where
  cnt : Option Nat
  icmpHeader : IcmpHeader
  i : Nat
  queue : CircularQueue Message queueSize
  place : Place
  log : List Entry

/-- What the system does next. -/
inductive Event where
  | arrive (msg : Message)
  | timeout
  | proceed

/-- The state before the `for`. What the checksum and the elements of the queue are is left open by the source. -/
def init (cnt : Option Nat) (checksum : UInt16) (buff : List.Vector Message queueSize) : State where
  cnt
  icmpHeader := { type := icmpEcho, code := 0, checksum, content := echoContent 0x1234 10 }
  i := 0
  queue := .init buff (by decide)
  place := .loopHead
  log := [.printed (chars "starting pinging")]

namespace State

/-- A line is printed, and the tool goes on elsewhere. -/
def print (s : State) (line : String) (place : Place) : State := { s with log := s.log ++ [.printed (chars line)], place }

/-- The part of the inner loop from the copy of the header on. -/
def processReply (s : State) (icmpReply : IcmpHeader) : State :=
  if icmpReply.echoId ≠ s.icmpHeader.echoId then { s with place := .front }
  else if icmpReply.type = icmpTimeExceeded then s.print "received time Exceeded" .send
  else if icmpReply.type = icmpDestUnreachable then s.print "received destination unreachable" .send
  else if icmpReply.type = icmpRedirect then s.print "received redirect" .send
  else if icmpReply.type = icmpEchoreply then
    if icmpReply.echoId ≠ s.icmpHeader.echoId then s.print "received reply with a different id" .send
    else { s with log := s.log ++ [.received s.i s.icmpHeader.echoSequence icmpReply], place := .advance }
  else s.print "received unknown type of icmp" .send

/-- The tool's next step. In front of an empty queue it waits. -/
def proceed (s : State) : Option State :=
  match s.place with
  | .loopHead => some { s with place := if s.cnt.all (s.i < ·) then .clear else .returned }
  | .clear => some { s with queue := s.queue.clear, place := .send }
  | .send => some { s with log := s.log ++ [.sent s.i s.icmpHeader], place := .front }
  | .front => if s.queue.isEmpty then none else some { s with place := .popFront ⟨s.queue.baseIn, s.queue.baseIn_lt⟩ }
  | .popFront reply => some { s with queue := s.queue.popFront.2, place := .process reply }
  | .process reply => some (s.processReply (s.queue.buff.get reply).1)
  | .advance => some {
      s with
      icmpHeader := { s.icmpHeader with content := echoContent s.icmpHeader.echoId (s.icmpHeader.echoSequence + 1) }
      i := s.i + 1
      place := .loopHead }
  | .returned => none

/-- `recv_queue::handle_recv`. -/
def handleRecv (s : State) (data : Message) : State := { s with queue := (s.queue.pushBack data).2 }

/-- A step of the system. -/
def step (s : State) : Event → Option State
  | .arrive msg => some (s.handleRecv msg)
  | .timeout => if s.place = .front ∧ s.queue.isEmpty then some (s.print "no valid reply, resending" .send) else none
  | .proceed => s.proceed

end State
end PingTool
end NetworkingFramework
