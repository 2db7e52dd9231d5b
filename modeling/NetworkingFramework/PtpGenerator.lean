import NetworkingFramework.Lib.Demux
import NetworkingFramework.MultiRecv
import NetworkingFramework.PtpProtocol

/-!
# The PTP generator

`ptp_protocol::connect_net_access_generator_listener`: a multiplexer split in two. The first half holds the generator's
receiver; the second is shared by all net accesses the generator makes, and holds the receiver of the newest one. The
multiplexer is a `multi_recv_listener`, so both halves are registered in one set, in the order of their addresses.
-/

namespace NetworkingFramework
namespace PtpProtocol

open Wire Demux

/-- The generator at work: `curr` of the second half, and the paths of the net accesses made, by number. The listener installs
a receiver on each of them and keeps it. -/
structure Generator where
  curr : Option Address
  sessions : List (List PtpAction)

section

-- the address of the generator's receiver, and that of the receiver of each net access
variable (gen : Address) (addr : Nat → Address)

/-- `set_recv_access` of a half: the calls it makes to the multiplexer. -/
def setRecvAccess (curr : Option Address) (recv : Address) : List MultiRecvCall :=
  match curr with
  | none => [.addRecvListener (some recv)]
  | some c => [.removeListener (some c), .addRecvListener (some recv)]

/-- A packet at the generator: a net access on the reversed path, whose receiver goes to the second half, and the payload for
it. -/
def Generator.handleNew (g : Generator) (packet : GeneratorPacket) :
    Generator × Outcome (List PtpAction) Bytes × List MultiRecvCall :=
  let k := g.sessions.length
  (⟨some (addr k), g.sessions ++ [packet.reverse]⟩, ⟨[packet.actions], [(k, packet.encapData)]⟩,
    setRecvAccess g.curr (addr k))

/-- The number of the net access whose receiver lies at an address, the newest one first. -/
def Generator.sessionAt (g : Generator) (l : Address) : Option Nat :=
  (List.range g.sessions.length).reverse.find? fun k => addr k = l

/-- What the receivers registered with the multiplexer do: the generator's, and those of the net accesses. -/
def behaviour : Behaviour (Generator × Outcome (List PtpAction) Bytes) Bytes := fun (g, out) l data =>
  if l = gen then do
    let packets ← generatorRecv data
    return packets.foldl (fun ((g, out), calls) packet =>
      let (g', out', calls') := g.handleNew addr packet
      ((g', ⟨out.opened ++ out'.opened, out.delivered ++ out'.delivered⟩), calls ++ calls')) ((g, out), [])
  else
    match g.sessionAt addr l with
    | none => .ok ((g, out), [])
    | some k => do
      let payloads ← netAccessSingleRecv data
      return ((g, ⟨out.opened, out.delivered ++ payloads.map fun payload => (k, payload)⟩), [])

/-- `connect_net_access_generator_listener`: the multiplexer with the generator's receiver in its first half. -/
def connectNetAccessGeneratorListener : MultiRecvListener × Generator :=
  ((setRecvAccess none gen).foldl MultiRecvListener.after ⟨∅⟩, ⟨none, []⟩)

/-- A packet arrives at the multiplexer. -/
def handleRecv (fuel : Nat) (state : MultiRecvListener × Generator) (data : Bytes) :
    Except Fault ((MultiRecvListener × Generator) × Outcome (List PtpAction) Bytes) := do
  let ((g, out), multiplexer, _) ← state.1.handleRecv (behaviour gen addr) fuel (state.2, ⟨[], []⟩) data
  return ((multiplexer, g), out)

/-- What came of each packet of a sequence. -/
def run (fuel : Nat) (state : MultiRecvListener × Generator) :
    List Bytes → Except Fault (List (Outcome (List PtpAction) Bytes))
  | [] => .ok []
  | data :: packets => do
    let (state', out) ← handleRecv gen addr fuel state data
    return out :: (← run fuel state' packets)

/-- The run returns, and every packet of the sequence goes to the net access of its path, made at its first packet. -/
def Demultiplexes (packets : List Bytes) (sources : List (List PtpAction × Bytes)) : Prop :=
  ∃ enough, ∀ fuel ≥ enough, run gen addr fuel (connectNetAccessGeneratorListener gen) packets = .ok (route [] sources)

end

end PtpProtocol
end NetworkingFramework
