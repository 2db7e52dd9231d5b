import NetworkingFramework.Ptp
import NetworkingFramework.Routing

/-!
# Routing of PTP packets

`protocols/ptp/local_conn/ptp_local_conn_routing_table`, the subnets of `ptp_addr`, and the send access of `ptp_protocol` that
is made from a table.
-/

namespace NetworkingFramework

open Wire Wire.Decoder

/-- `ptp_subnet_mask`. -/
structure PtpSubnetMask where
  prefixAddr : PtpAddr
  deriving DecidableEq

/-- The loop of `is_inside_subnet`, on an address that is longer than the prefix. -/
def samePrefix : Bytes → Bytes → Bool
  | [], _ => true
  | _ :: _, [] => false
  | a :: subnet, b :: addr => if a ≠ b then false else samePrefix subnet addr

/-- `is_inside_subnet`. -/
def isInsidePtpSubnet (subnet : PtpSubnetMask) (ptpAddr : PtpAddr) : Bool :=
  if ¬subnet.prefixAddr.octets.length < ptpAddr.octets.length then false
  else samePrefix subnet.prefixAddr.octets ptpAddr.octets

/-- `ptp_local_conn_routing_table`. -/
abbrev PtpLocalConnRoutingTable : Type := RoutingTable PtpSubnetMask

/-- `find_route` of a `ptp_local_conn_routing_table`. -/
def PtpLocalConnRoutingTable.findRoute (table : PtpLocalConnRoutingTable) (addr : PtpAddr) :
    Except Fault (Option Address) :=
  RoutingTable.findRoute table (fun subnet => .ok (isInsidePtpSubnet subnet addr)) fun subnet =>
    subnet.prefixAddr.octets.length

end NetworkingFramework
