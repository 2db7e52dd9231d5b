import Mathlib.Data.Vector.Basic
import NetworkingFramework.Lib.Wire
import NetworkingFramework.Lib.ShiftRegister

/-!
# The frame check sequence

`protocols/ether2/ethernet2_header.cpp`: the table of CRC-32, and the checksum of a buffer a byte at a time from it.
-/

namespace NetworkingFramework

open Wire

/-- `POLY`. -/
def poly : UInt32 := 0xEDB88320

/-- The body of the inner loop of `init_crc32_table`. -/
def shiftCrc (crc : UInt32) : UInt32 := if crc &&& 1 ≠ 0 then poly ^^^ (crc >>> 1) else crc >>> 1

/-- `init_crc32_table`: what `crc32_table` holds. -/
def crc32Table : List.Vector UInt32 256 := List.Vector.ofFn fun i => shiftCrc^[8] (UInt32.ofNat i)

/-- The body of the loop of `ethernet_calc_crc`, `index` being a byte. -/
def stepCrc (crc : UInt32) (byte : UInt8) : UInt32 :=
  let index := (crc ^^^ byte.toUInt32) &&& 0xFF
  (crc >>> 8) ^^^ crc32Table.get (Fin.ofNat 256 index.toNat)

/-- `ethernet_calc_crc`. The table is made anew at each call. -/
def ethernetCalcCrc (data : Bytes) : UInt32 := ~~~(data.foldl stepCrc 0xFFFFFFFF)

/-! ## The checksum a bit at a time -/

/-- The bits of a buffer, those of a byte from the lowest to the highest. -/
def bits (data : Bytes) : List Bool := data.flatMap fun byte => ShiftRegister.bitsOf 8 byte.toNat

/-- CRC-32 by its definition: every bit is fed to a register of ones, and the register is complemented. -/
def bitSerialCrc (data : Bytes) : UInt32 := ⟨~~~ShiftRegister.feed poly.toBitVec (BitVec.allOnes 32) (bits data)⟩

end NetworkingFramework
