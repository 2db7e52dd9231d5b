import NetworkingFramework.DnsRdata
import NetworkingFramework.Ether2
import NetworkingFramework.Lib.InStream
import NetworkingFramework.Lib.Pattern

/-!
# MAC addresses as text

`protocols/ether2/mac_addr.cpp`: an address is printed as six hexadecimal numbers of two digits. A string is matched against a
pattern first, and then read from a stream.
-/

namespace NetworkingFramework

open Wire CText Pattern

/-- `[0-9A-Fa-f]`. -/
def hexClass (c : UInt8) : Bool :=
  ('0'.toUInt8 ≤ c ∧ c ≤ '9'.toUInt8) ∨ ('A'.toUInt8 ≤ c ∧ c ≤ 'F'.toUInt8) ∨ ('a'.toUInt8 ≤ c ∧ c ≤ 'f'.toUInt8)

/-- `[:-]`. -/
def separatorClass (c : UInt8) : Bool := c = ':'.toUInt8 ∨ c = '-'.toUInt8

/-- The pattern `^([0-9A-Fa-f]{2}[:-]){5}([0-9A-Fa-f]{2})$`. A match is of all of the string, so the anchors say nothing. -/
def macAddrPattern : RegularExpression UInt8 := (oneOf hexClass ^ 2 * oneOf separatorClass) ^ 5 * oneOf hexClass ^ 2

/-- The loop of `str_to_mac_addr` with some rounds left, on the stream and the string read last: the octets stored. In the last
round the string is read as a word. -/
def macOctetsLoop (delim : UInt8) : (rounds : Nat) → InStream → Bytes → Except Fault (List.Vector UInt8 rounds)
  | 0, _, _ => .ok .nil
  | rounds + 1, ss, byteStr => do
    let (ss, byteStr) := if 0 < rounds then ss.getline delim byteStr else ss.getWord byteStr
    match stoul byteStr 16 with
    | none => throw .abort
    | some octet => return .cons (UInt8.ofNat octet) (← macOctetsLoop delim rounds ss byteStr)

/-- `str_to_mac_addr`. -/
def strToMacAddr (str : Bytes) : Except Fault (Option MacAddr) :=
  if macAddrPattern.rmatch str then do
    let delim := if ':'.toUInt8 ∈ str then ':'.toUInt8 else '-'.toUInt8
    return some ⟨← macOctetsLoop delim 6 (.ofString str) []⟩
  else .ok none

/-- `%02x`. -/
def printOctet (octet : UInt8) : Bytes :=
  List.replicate (2 - (printNat 16 octet.toNat).length) '0'.toUInt8 ++ printNat 16 octet.toNat

/-- `mac_addr_to_str`: the text that is printed to the buffer. -/
def macAddrToStr (addr : MacAddr) : Bytes := joined (chars ":") (addr.octets.toList.map printOctet)

end NetworkingFramework
