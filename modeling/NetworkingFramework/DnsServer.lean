import NetworkingFramework.DnsTool

/-!
# Hosts that serve DNS

`main/dns/dns_server`: what its handler sends for a message, and two hosts that run it with messages in flight between them. What
the handler prints is left out.
-/

namespace NetworkingFramework

open Wire

/-- What a call of the handler finds in its stack: the frames of the records of authority, and the two bits of the reply that are
not initialized. -/
structure StackContents where
  frames : Nat → SoaFrame
  cd : Bool
  ad : Bool

namespace DnsServer

/-- The size of `tmp_buff`. -/
def tmpBuffSize : Nat := 0x1000

/-- `my_dns_handler::handle_recv`: the packet that it sends, written to `tmp_buff` without a check that it fits. -/
def handleRecv (database : DnsDatabase) (stack : StackContents) (msg : DnsMessage) : Except Fault Bytes := do
  let reply ← DnsTool.handleQuery database stack.frames stack.cd stack.ad msg
  let tmpBuff ← writeDnsMessage reply
  if tmpBuffSize < tmpBuff.length then throw .outOfBounds
  return tmpBuff

/-- The receiver of `dns_protocol::connect_recv` in front of it. -/
def receive (fuel : Nat) (database : DnsDatabase) (stack : StackContents) (data : Bytes) : Except Fault Bytes := do
  let (msg, _) ← (extractDnsMessage.run fuel).run data 0
  handleRecv database stack msg

end DnsServer

/-- One of two hosts. -/
inductive DnsHost where
  | first
  | second
  deriving DecidableEq, Repr

/-- The host that a message comes from. -/
def DnsHost.other : DnsHost → DnsHost
  | .first => .second
  | .second => .first

/-- A packet on its way from the other host. -/
structure DnsDatagram where
  dest : DnsHost
  data : Bytes
  deriving DecidableEq, Repr

/-- Two hosts that serve DNS: what is in flight, and all that was sent, in order. -/
structure DnsHosts where
  database : DnsHost → DnsDatabase
  inFlight : List DnsDatagram
  sent : List DnsDatagram

/-- A delivery: which datagram, the iterations that the decoder is given and the stack that the handler finds. -/
structure DnsDelivery where
  index : Nat
  fuel : Nat
  stack : StackContents

namespace DnsHosts

/-- With some messages in flight and nothing sent yet. -/
def start (database : DnsHost → DnsDatabase) (inFlight : List DnsDatagram) : DnsHosts := ⟨database, inFlight, []⟩

/-- A datagram is delivered, and the reply sent to where it came from. A delivery that the handler does not return from, leads
nowhere. -/
def step (s : DnsHosts) (d : DnsDelivery) : Option DnsHosts :=
  match s.inFlight[d.index]? with
  | none => none
  | some packet =>
    match DnsServer.receive d.fuel (s.database packet.dest) d.stack packet.data with
    | .error _ => none
    | .ok data =>
      let reply : DnsDatagram := ⟨packet.dest.other, data⟩
      some { s with inFlight := s.inFlight.eraseIdx d.index ++ [reply], sent := s.sent ++ [reply] }

end DnsHosts
end NetworkingFramework
