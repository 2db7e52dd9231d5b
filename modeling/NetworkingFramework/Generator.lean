import NetworkingFramework.Lib.Demux
import NetworkingFramework.MultiRecv
import NetworkingFramework.Stack

/-!
# Generators of net accesses

`connect_net_access_generator_listener` of Ethernet, IPv4, UDP and EMP are the same program over different headers. Its
receiver makes a `net_access_single` for the source of each packet it gets, on top of a `multi_net_access` over the same net
access, hands it to the listener and gives it the packet's payload.

The net access below keeps one receiver. The `multi_net_access` sets it first and the generator's own `connect_recv` sets it
again.
-/

namespace NetworkingFramework

open Wire Demux

/-! ## The generator -/

/-- What a protocol gives its generator: the source and the payload of a packet that passes the generator's filters, and the
payloads that the net access of a source forwards. -/
structure GeneratorProtocol (Src : Type) where
  recv : Bytes → Except Fault (List (Src × Bytes))
  singleRecv : Src → Bytes → Except Fault (List Bytes)

/-- The receivers set on the net access below. -/
inductive Receiver where
  | multiRecv
  | generator
  deriving DecidableEq, Repr

/-- A generator at work: the receiver of the net access below, the `multi_net_access` over it, and the sources that net accesses
were made for, by number. The listener installs a receiver on each of them and keeps it. -/
structure Generator (Src : Type) where
  recvAccess : Option Receiver
  multiRecv : MultiRecvListener
  sessions : List Src

/-- `set_recv_access` of a net access with a single receiver: the one before is replaced. -/
def Generator.setRecvAccess {Src : Type} (g : Generator Src) (recv : Receiver) : Generator Src :=
  { g with recvAccess := some recv }

/-- `connect_net_access_generator_listener`: the constructor of `multi_net_access` sets its receiver, and then `connect_recv`
sets the generator's. -/
def connectNetAccessGeneratorListener (Src : Type) : Generator Src :=
  ((⟨none, ⟨∅⟩, []⟩ : Generator Src).setRecvAccess .multiRecv).setRecvAccess .generator

section

variable {Src : Type} (protocol : GeneratorProtocol Src) (addr : Nat → Address)

/-- `handle_recv` of the generator's receiver, for one packet that passed the filters: the receiver of the new net access,
which lies at address `addr k` for the `k`-th, is registered with the `multi_net_access`. -/
def Generator.handleNew (g : Generator Src) (packet : Src × Bytes) : Generator Src × Outcome Src Bytes :=
  let k := g.sessions.length
  ({ g with multiRecv := g.multiRecv.addRecvListener (some (addr k)), sessions := g.sessions ++ [packet.1] },
    ⟨[packet.1], [(k, packet.2)]⟩)

/-- The number of the net access whose receiver lies at an address, the newest one first. -/
def sessionAt (n : Nat) (l : Address) : Option Nat := (List.range n).reverse.find? fun k => addr k = l

/-- The net access at an address gets a packet from the `multi_net_access`. -/
def Generator.sessionRecv (g : Generator Src) (l : Address) (data : Bytes) : Except Fault (List (Nat × Bytes)) :=
  match sessionAt addr g.sessions.length l with
  | none => .ok []
  | some k =>
    match g.sessions[k]? with
    | none => .ok []
    | some src => (protocol.singleRecv src data).map fun payloads => payloads.map fun payload => (k, payload)

/-- A packet arrives at the net access below and goes to the receiver set there. -/
def Generator.handleRecv (fuel : Nat) (g : Generator Src) (data : Bytes) :
    Except Fault (Generator Src × Outcome Src Bytes) :=
  match g.recvAccess with
  | none => .ok (g, ⟨[], []⟩)
  | some .generator => do
    let packets ← protocol.recv data
    return packets.foldl (fun (g, out) packet =>
      let (g', out') := g.handleNew addr packet
      (g', ⟨out.opened ++ out'.opened, out.delivered ++ out'.delivered⟩)) (g, ⟨[], []⟩)
  | some .multiRecv => do
    let (_, _, calls) ← g.multiRecv.handleRecv (fun (_ : Unit) _ _ => .ok ((), [])) fuel () data
    let delivered ← calls.mapM fun (l, data) => g.sessionRecv protocol addr l data
    return (g, ⟨[], delivered.flatten⟩)

/-- What came of each packet of a sequence. -/
def Generator.run (fuel : Nat) (g : Generator Src) : List Bytes → Except Fault (List (Outcome Src Bytes))
  | [] => .ok []
  | data :: packets => do
    let (g', out) ← g.handleRecv protocol addr fuel data
    return out :: (← Generator.run fuel g' packets)

end

/-! ## The four protocols -/

/-- The generator of `ethernet2_protocol`. -/
def Ethernet2Protocol.generator (destAddr : Option MacAddr) (type : Option UInt16) : GeneratorProtocol MacAddr where
  recv data := do return (← connectRecv none destAddr type data).map fun (header, payload) => (header.srcAddr, payload)
  singleRecv srcAddr := (NetAccessSingle.mk srcAddr destAddr type).recv

/-- The generator of `ip4_protocol`. -/
def Ip4Protocol.generator (destAddr : Option Ip4Addr) (prot : Option UInt8) : GeneratorProtocol Ip4Addr where
  recv data := do return (← connectRecv none destAddr prot data).map fun (header, payload) => (header.srcAddr, payload)
  singleRecv srcAddr := (NetAccessSingle.mk srcAddr destAddr prot).recv

/-- The generator of `udp_protocol`. -/
def UdpProtocol.generator (destPort : UInt16) : GeneratorProtocol UInt16 where
  recv data := do return (← connectRecv none (some destPort) data).map fun (header, payload) => (header.srcPort, payload)
  singleRecv srcPort := (NetAccessSingle.mk (some srcPort) destPort).recv

/-- The generator of `emp_protocol`. -/
def EmpProtocol.generator (destPort : EmpPort) : GeneratorProtocol EmpPort where
  recv data := do return (← connectRecv none (some destPort) data).map fun (header, payload) => (header.srcPort, payload)
  singleRecv srcPort := (NetAccessSingle.mk (some srcPort) destPort).recv

/-- The parameters of a call of one of the four. -/
inductive GeneratorParams where
  | ether2 (destAddr : Option MacAddr) (type : Option UInt16)
  | ip4 (destAddr : Option Ip4Addr) (prot : Option UInt8)
  | udp (destPort : UInt16)
  | emp (destPort : EmpPort)

/-- The sources that the protocol's packets come from. -/
def GeneratorParams.Src : GeneratorParams → Type
  | .ether2 _ _ => MacAddr
  | .ip4 _ _ => Ip4Addr
  | .udp _ => UInt16
  | .emp _ => EmpPort

instance (params : GeneratorParams) : DecidableEq params.Src :=
  match params with
  | .ether2 _ _ => inferInstanceAs (DecidableEq MacAddr)
  | .ip4 _ _ => inferInstanceAs (DecidableEq Ip4Addr)
  | .udp _ => inferInstanceAs (DecidableEq UInt16)
  | .emp _ => inferInstanceAs (DecidableEq EmpPort)

/-- The generator of a call. -/
def GeneratorParams.protocol : (params : GeneratorParams) → GeneratorProtocol params.Src
  | .ether2 destAddr type => Ethernet2Protocol.generator destAddr type
  | .ip4 destAddr prot => Ip4Protocol.generator destAddr prot
  | .udp destPort => UdpProtocol.generator destPort
  | .emp destPort => EmpProtocol.generator destPort

end NetworkingFramework
