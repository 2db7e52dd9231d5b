import Mathlib.Algebra.Group.Nat.Defs
import NetworkingFramework.Lib.Wire

/-!
# Variable-length numbers

`lib/var_len_encoding.h`: an unsigned number is written in groups of seven bits, the lowest first, with a bit that says whether
another group follows. `utils/udata.h` has a copy of both functions.
-/

namespace NetworkingFramework

open Wire

/-- The types that `NUM_TYPE` stands for. -/
inductive NumType where
  | u8
  | u16
  | u32
  | u64
  deriving DecidableEq

/-- How many bits a number of the type has. -/
def NumType.width : NumType → Nat
  | u8 => 8
  | u16 => 16
  | u32 => 32
  | u64 => 64

/-- `~((uint8_t) 0) ^ (((uint8_t) 1) << 7)`: both operands are promoted to `int`. -/
def groupMask : BitVec 32 := ~~~0#32 ^^^ (1#32 <<< 7)

/-- `num & groupMask`, narrowed to a byte. A number that is shorter than an `int` is promoted to one, and the mask is converted to
a number that is longer. -/
def lowGroup {w : Nat} (num : BitVec w) : UInt8 :=
  ⟨(num.setWidth (max 32 w) &&& groupMask.signExtend (max 32 w)).setWidth 8⟩

/-- The flag of a group that another one follows: `((uint8_t) 1) << 7`. -/
def nextFlag : UInt8 := 0x80

/-- The loop of `var_len_encode_num`: the bytes written. The shifts by seven are by less than the width of any type. -/
def encodeNumLoop {w : Nat} (num : BitVec w) : Bytes :=
  if num = 0#w then []
  else
    let rest := num >>> 7
    (if rest ≠ 0#w then lowGroup num ||| nextFlag else lowGroup num) :: encodeNumLoop rest
termination_by num.toNat
decreasing_by
  rename_i h
  have hpos : 0 < num.toNat := Nat.pos_of_ne_zero fun hzero => h (BitVec.eq_of_toNat_eq (by simpa using hzero))
  rw [BitVec.toNat_ushiftRight, Nat.shiftRight_eq_div_pow]
  exact Nat.div_lt_self hpos (by decide)

/-- `var_len_encode_num`: the bytes written; it returns how many they are. -/
def varLenEncodeNum {w : Nat} (num : BitVec w) : Bytes := if num = 0#w then [0] else encodeNumLoop num

/-- A shift to the left of a 32-bit `int`: it has a value only for a shift by less than 32, the integer modulo `2 ^ 32`. -/
def shiftInt (x : BitVec 32) (n : Nat) : Except Fault (BitVec 32) := if n < 32 then .ok (x <<< n) else .error .wideShift

/-- The loop of `var_len_decode_num` on what is left of the buffer: the number and how many bytes were read. The shift is one of
`int`s, since `next_bits` is promoted to `int`, and its result is converted to the number's type. -/
def decodeNumLoop {w : Nat} (bitsCnt : Nat) (resNum : BitVec w) : Bytes → Except Fault (BitVec w × Nat)
  | [] => .error .outOfBounds
  | b :: rest => do
    let nextBits := lowGroup b.toBitVec
    let shifted ← shiftInt (nextBits.toBitVec.setWidth 32) bitsCnt
    let resNum := resNum ||| shifted.signExtend w
    if b &&& nextFlag ≠ 0 then (decodeNumLoop (bitsCnt + 7) resNum rest).map fun (num, cnt) => (num, cnt + 1)
    else .ok (resNum, 1)

/-- `var_len_decode_num`: the number and the count returned. -/
def varLenDecodeNum (w : Nat) : Bytes → Except Fault (BitVec w × Nat)
  | [] => .error .outOfBounds
  | b :: rest => if b = 0 then .ok (0#w, 1) else decodeNumLoop 0 0#w (b :: rest)

/-- `encode_number`. -/
def encodeNumber {w : Nat} (num : BitVec w) : Bytes := varLenEncodeNum num

/-- `decode_number`. -/
def decodeNumber (w : Nat) (buff : Bytes) : Except Fault (BitVec w × Nat) := varLenDecodeNum w buff

end NetworkingFramework
