import NetworkingFramework.Lib.Wire

/-!
# Constructive packets

`abstract/constructive_packet`: a packet that is built by writing data at its ends, inside of it and around it.
-/

namespace NetworkingFramework

open Wire

/-- `constructive_packet`. -/
structure ConstructivePacket where
  buff : Bytes
  deriving DecidableEq

/-- A call that changes a packet. The size of the data is the one it has. -/
inductive PacketCall where
  | clearBuff
  | appendData (data : Bytes)
  | prependData (data : Bytes)
  | encapsulateInsidePacket (data : Bytes) (offset : Nat)
  | encapsulateThePacket (data : Bytes) (offset : Nat)
  deriving DecidableEq

/-- `std::deque::insert` of a range, in front of an element or at the end. -/
def insertRange (buff : Bytes) (pos : Nat) (range : Bytes) : Except Fault Bytes :=
  if pos ≤ buff.length then .ok (buff.take pos ++ range ++ buff.drop pos) else .error .outOfBounds

/-- `--buff.end()`: the place of the last element. -/
def lastPlace (buff : Bytes) : Except Fault Nat := if buff = [] then .error .outOfBounds else .ok (buff.length - 1)

namespace ConstructivePacket

/-- A packet as it is constructed. -/
def empty : ConstructivePacket := ⟨[]⟩

/-- `clear_buff`. -/
def clearBuff (_ : ConstructivePacket) : ConstructivePacket := ⟨[]⟩

/-- `append_data`: each byte is pushed to the back. -/
def appendData (packet : ConstructivePacket) (data : Bytes) : ConstructivePacket :=
  ⟨data.foldl (fun buff b => buff ++ [b]) packet.buff⟩

/-- `prepend_data`: each byte is pushed to the front. -/
def prependData (packet : ConstructivePacket) (data : Bytes) : ConstructivePacket :=
  ⟨data.foldl (fun buff b => b :: buff) packet.buff⟩

/-- `encapsulate_inside_packet`. -/
def encapsulateInsidePacket (packet : ConstructivePacket) (data : Bytes) (offset : Nat) : Except Fault ConstructivePacket := do
  return ⟨← insertRange packet.buff offset data⟩

/-- `encapsulate_the_packet`: the first part of the data is inserted in front of the packet, and the second part in front of its
last byte. -/
def encapsulateThePacket (packet : ConstructivePacket) (data : Bytes) (offset : Nat) : Except Fault ConstructivePacket := do
  if ¬offset ≤ data.length then throw .outOfBounds
  let buff ← insertRange packet.buff 0 (data.take offset)
  let buff ← insertRange buff (← lastPlace buff) (data.drop offset)
  return ⟨buff⟩

/-- A call. -/
def call (packet : ConstructivePacket) : PacketCall → Except Fault ConstructivePacket
  | .clearBuff => .ok packet.clearBuff
  | .appendData data => .ok (packet.appendData data)
  | .prependData data => .ok (packet.prependData data)
  | .encapsulateInsidePacket data offset => packet.encapsulateInsidePacket data offset
  | .encapsulateThePacket data offset => packet.encapsulateThePacket data offset

/-- The packet after some calls. -/
def calls (done : List PacketCall) : Except Fault ConstructivePacket := done.foldlM call empty

end ConstructivePacket

/-! ## What a packet is for -/

namespace PacketCall

/-- What a call makes of the bytes. -/
def apply (bytes : Bytes) : PacketCall → Bytes
  | .clearBuff => []
  | .appendData data => bytes ++ data
  | .prependData data => data ++ bytes
  | .encapsulateInsidePacket data offset => bytes.take offset ++ data ++ bytes.drop offset
  | .encapsulateThePacket data offset => data.take offset ++ bytes ++ data.drop offset

/-- The bytes after some calls. -/
def contents (done : List PacketCall) : Bytes := done.foldl apply []

/-- The offset of a call lies in what it is an offset of. -/
def InRange (bytes : Bytes) : PacketCall → Prop
  | .encapsulateInsidePacket _ offset => offset ≤ bytes.length
  | .encapsulateThePacket data offset => offset ≤ data.length
  | _ => True

/-- A call that keeps the order of the bytes: prepended data is the same from both ends, and data around a packet is, behind the
offset, nothing but the byte that comes before it. -/
def InOrder (bytes : Bytes) : PacketCall → Prop
  | .prependData data => data.reverse = data
  | .encapsulateThePacket data offset => ∃ last, (data.take offset ++ bytes).getLast? = some last ∧ ∀ b ∈ data.drop offset, b = last
  | _ => True

end PacketCall
end NetworkingFramework
