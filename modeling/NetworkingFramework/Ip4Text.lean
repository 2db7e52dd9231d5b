import NetworkingFramework.DnsRdata
import NetworkingFramework.Ip4
import NetworkingFramework.Lib.CText

/-!
# IPv4 addresses as text

`protocols/ip4/ip4_addr.cpp`: an address is printed as four decimal numbers, and parsed by `sscanf`.
-/

namespace NetworkingFramework

open Wire CText

/-- `sscanf` with conversions `%u` and a dot between them: the numbers converted before the first that fails. -/
def scanDotted : Nat → Bytes → Except Fault (List UInt32)
  | 0, _ => return []
  | k + 1, s => do
    match ← scanUnsigned s with
    | none => return []
    | some (number, rest) =>
      if rest.head? = some '.'.toUInt8 then return number :: (← scanDotted k rest.tail)
      else return [number]

/-- `str_to_ip4_addr`: the numbers are narrowed to octets. -/
def strToIp4Addr (str : Bytes) : Except Fault (Option Ip4Addr) := do
  match ← scanDotted 4 (cStr str) with
  | [a, b, c, d] => return some ⟨⟨[a.toUInt8, b.toUInt8, c.toUInt8, d.toUInt8], rfl⟩⟩
  | _ => return none

/-- `ip4_addr_to_str`. -/
def ip4AddrToStr (ipAddr : Ip4Addr) : Bytes :=
  printNat 10 (ipAddr.octets.get 0).toNat ++ chars "." ++ printNat 10 (ipAddr.octets.get 1).toNat ++ chars "." ++
    printNat 10 (ipAddr.octets.get 2).toNat ++ chars "." ++ printNat 10 (ipAddr.octets.get 3).toNat

end NetworkingFramework
