import NetworkingFramework.Lib.Wire

/-!
# Message boundaries over a stream

`protocols/msg_boundary/msg_boundary_seperator` with a size field of 16 bits: a message is sent behind its size, and what the
base connection delivers, in chunks cut anywhere, is put together again. The size is in the host's order, and taken from where
the chunk is read, whether or not both bytes are there.

`recv_msg_t` is the one of `abstract/constructive_packet`. The other side of the base connection is not modelled: it hands over
what `tcp_session` received.
-/

namespace NetworkingFramework

open Wire

/-- `recv_msg_t`. -/
structure RecvMsgT where
  buff : Bytes
  protocolOffsets : List (Nat × Nat)
  currOffset : Nat
  deriving DecidableEq

/-- The message that the worker of `tcp_session_conn` makes of what it received. -/
def tcpReceived (data : Bytes) : RecvMsgT := ⟨data, [], 0⟩

/-- `msg_boundary_seperator<uint16_t>`: its state between calls. -/
structure MsgBoundarySeperator where
  midPacket : Bool
  currMsg : RecvMsgT
  currRead : UInt16

namespace MsgBoundarySeperator

/-- A new one. `curr_read` is not initialized. -/
def init (currRead : UInt16) : MsgBoundarySeperator := ⟨false, ⟨[], [], 0⟩, currRead⟩

/-- `send_data`: what it hands to the base connection. -/
def sendData (data : Bytes) : Bytes :=
  let sz := UInt16.ofNat data.length
  storeU16 sz ++ data.take sz.toNat

/-- What is left of the chunk, and the counter that should be its size. -/
structure Cursor where
  buff : Bytes
  cnt : UInt16

/-- The start of a message in `handle_callback`: its size is read. -/
def readSize (s : MsgBoundarySeperator) (c : Cursor) : Except Fault (MsgBoundarySeperator × Cursor) :=
  match c.buff with
  | b₀ :: b₁ :: rest =>
    let currSz := UInt16.ofNat (b₀.toNat + b₁.toNat * 256)
    .ok ({ s with midPacket := true, currMsg := ⟨List.replicate currSz.toNat 0, [], 0⟩, currRead := 0 }, ⟨rest, c.cnt - 2⟩)
  | _ => .error .outOfBounds

/-- Then as much of the message as there is: copied from the chunk into the buffer of the message. -/
def readBody (s : MsgBoundarySeperator) (c : Cursor) : Except Fault (MsgBoundarySeperator × Cursor) :=
  let readLeft := UInt16.ofNat s.currMsg.buff.length - s.currRead
  let reading := min c.cnt readLeft
  if c.buff.length < reading.toNat ∨ s.currMsg.buff.length < s.currRead.toNat + reading.toNat then .error .outOfBounds
  else
    let buff := s.currMsg.buff.take s.currRead.toNat ++ c.buff.take reading.toNat ++
      s.currMsg.buff.drop (s.currRead.toNat + reading.toNat)
    .ok ({ s with currMsg := { s.currMsg with buff }, currRead := s.currRead + reading },
      ⟨c.buff.drop reading.toNat, c.cnt - reading⟩)

/-- The loop of `handle_callback`: the state behind it, and the messages forwarded. -/
def handleCallbackLoop : Nat → MsgBoundarySeperator → Cursor → Except Fault (MsgBoundarySeperator × List RecvMsgT)
  | 0, s, c => if c.cnt = 0 then .ok (s, []) else .error .diverges
  | fuel + 1, s, c =>
    if c.cnt = 0 then .ok (s, [])
    else do
      let (s, c) ← if ¬s.midPacket then s.readSize c else .ok (s, c)
      let (s, c) ← s.readBody c
      if s.currRead.toNat = s.currMsg.buff.length then
        let (s', forwarded) ← handleCallbackLoop fuel { s with midPacket := false } c
        return (s', s.currMsg :: forwarded)
      else handleCallbackLoop fuel s c

/-- `handle_callback`. -/
def handleCallback (fuel : Nat) (s : MsgBoundarySeperator) (data : RecvMsgT) :
    Except Fault (MsgBoundarySeperator × List RecvMsgT) :=
  handleCallbackLoop fuel s ⟨data.buff.drop data.currOffset, UInt16.ofNat (data.buff.length - data.currOffset)⟩

/-- `handle_callback` on one chunk after another: the messages forwarded in all. -/
def handleCallbacks (fuel : Nat) : MsgBoundarySeperator → List Bytes → Except Fault (MsgBoundarySeperator × List RecvMsgT)
  | s, [] => .ok (s, [])
  | s, chunk :: chunks => do
    let (s', forwarded) ← s.handleCallback fuel (tcpReceived chunk)
    let (s'', rest) ← handleCallbacks fuel s' chunks
    return (s'', forwarded ++ rest)

end MsgBoundarySeperator
end NetworkingFramework
