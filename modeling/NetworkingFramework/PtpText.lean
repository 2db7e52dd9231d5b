import Mathlib.Algebra.Group.Int.Defs
import NetworkingFramework.DnsRdata
import NetworkingFramework.Emp
import NetworkingFramework.Ints
import NetworkingFramework.Lib.CText
import NetworkingFramework.Lib.Loops
import NetworkingFramework.Ptp
import NetworkingFramework.SplitStr

/-!
# Paths as text

`protocols/ptp`: the actions of a path, their addresses and network ids, printed and parsed; and the ports of `protocols/emp`, which
are parsed in the same way. An address is printed as its octets in hexadecimal, with a dot between them.

Loops over a container count with an `int`, as the parsers do. Memory has no bound: a loop that pushes for ever does not return.
-/

namespace NetworkingFramework

open Wire CText

/-! ## Octets -/

/-- The loop of the functions that print octets. -/
def printOctetsLoop : Nat → Bytes → Bytes → Except Fault Bytes
  | _, res, [] => .ok res
  | i, res, octet :: rest => do
    let res := if i > 0 then res ++ chars "." else res
    let res := res ++ printNat 16 octet.toNat
    printOctetsLoop (← addInt i 1) res rest

/-- The loop of the functions that parse octets. After an octet the index is advanced by as much as is said, and an exception
ends the function without a result. -/
def parseOctetsLoop (advance : Nat) (str : Bytes) (n : Int) : Nat → Nat → Bytes → Except Fault (Option Bytes)
  | 0, _, _ => .error .diverges
  | fuel + 1, i, octets => do
    if ¬i < str.length then return some octets
    if i ≠ 0 ∧ str[i]? ≠ some '.'.toUInt8 then return none
    let i ← if i ≠ 0 then addInt i 1 else .ok i
    if ¬n - i ≥ 2 then return none
    match stoul ((str.drop i).take 2) 16 with
    | none => return none
    | some octet => parseOctetsLoop advance str n fuel (← addInt i advance) (octets ++ [UInt8.ofNat octet])

/-- `ptp_addr_to_str`. -/
def ptpAddrToStr (addr : PtpAddr) : Except Fault Bytes := printOctetsLoop 0 [] addr.octets

/-- `str_to_ptp_addr`. -/
def strToPtpAddr (str : Bytes) (fuel : Nat) : Except Fault (Option PtpAddr) := do
  return (← parseOctetsLoop 2 str (toInt str.length) fuel 0 []).map PtpAddr.mk

/-- `ptp_net_id_to_str`. -/
def ptpNetIdToStr (netId : PtpNetId) : Except Fault Bytes := printOctetsLoop 0 [] netId.vals

/-- `str_to_ptp_net_id`: the index is not advanced. -/
def strToPtpNetId (str : Bytes) (fuel : Nat) : Except Fault (Option PtpNetId) := do
  return (← parseOctetsLoop 0 str (toInt str.length) fuel 0 []).map PtpNetId.mk

/-- `str_to_emp_port`: the index is not advanced. -/
def strToEmpPort (str : Bytes) (fuel : Nat) : Except Fault (Option EmpPort) := do
  return (← parseOctetsLoop 0 str (toInt str.length) fuel 0 []).map EmpPort.mk

/-! ## Actions -/

/-- `ptp_endpoint_to_str`. -/
def ptpEndpointToStr (endpoint : PtpEndpoint) : Option Bytes :=
  if endpoint.type = ptpEndpointStart then some (chars "start")
  else if endpoint.type = ptpEndpointEnd then some (chars "end")
  else none

/-- `str_to_ptp_endpoint`. -/
def strToPtpEndpoint (str : Bytes) : Option PtpEndpoint :=
  if str = chars "start" then some ⟨ptpEndpointStart⟩
  else if str = chars "end" then some ⟨ptpEndpointEnd⟩
  else none

/-- The functions that print two things with an arrow between them. -/
def printArrow {α : Type} (print : α → Except Fault Bytes) (src dest : α) : Except Fault Bytes := do
  let srcStr ← print src
  let destStr ← print dest
  return srcStr ++ chars " -> " ++ destStr

/-- The functions that parse two things with an arrow between them. -/
def parseArrow {α : Type} (parse : Bytes → Nat → Except Fault (Option α)) (str : Bytes) (fuel : Nat) :
    Except Fault (Option (α × α)) := do
  match ← splitStr str (chars " -> ") fuel with
  | [srcStr, destStr] =>
    match ← parse srcStr fuel with
    | none => return none
    | some src =>
      match ← parse destStr fuel with
      | none => return none
      | some dest => return some (src, dest)
  | _ => return none

/-- `ptp_local_conn_to_str`. -/
def ptpLocalConnToStr (localConn : PtpLocalConn) : Except Fault Bytes :=
  printArrow ptpAddrToStr localConn.srcAddr localConn.destAddr

/-- `str_to_ptp_local_conn`. -/
def strToPtpLocalConn (str : Bytes) (fuel : Nat) : Except Fault (Option PtpLocalConn) := do
  return (← parseArrow strToPtpAddr str fuel).map fun (srcAddr, destAddr) => ⟨srcAddr, destAddr⟩

/-- `ptp_net_switch_to_str`. -/
def ptpNetSwitchToStr (netSwitch : PtpNetSwitch) : Except Fault Bytes :=
  printArrow ptpNetIdToStr netSwitch.srcId netSwitch.destId

/-- `str_to_ptp_net_switch`. -/
def strToPtpNetSwitch (str : Bytes) (fuel : Nat) : Except Fault (Option PtpNetSwitch) := do
  return (← parseArrow strToPtpNetId str fuel).map fun (srcId, destId) => ⟨srcId, destId⟩

/-- `ptp_action_to_str`. -/
def ptpActionToStr (action : PtpAction) : Except Fault (Option Bytes) :=
  match action.type with
  | .endpoint => do return (ptpEndpointToStr (← action.val.getEndpoint)).map (chars "endpoint " ++ ·)
  | .localConn => do return some (chars "conn " ++ (← ptpLocalConnToStr (← action.val.getLocalConn)))
  | .netSwitch => do return some (chars "switch " ++ (← ptpNetSwitchToStr (← action.val.getNetSwitch)))

/-- `str_to_ptp_action`. -/
def strToPtpAction (str : Bytes) (fuel : Nat) : Except Fault (Option PtpAction) := do
  if (chars "endpoint ").isPrefixOf str then
    return (strToPtpEndpoint (str.drop 9)).map fun endpoint => ⟨.endpoint, .endpoint endpoint⟩
  else if (chars "conn ").isPrefixOf str then
    return (← strToPtpLocalConn (str.drop 5) fuel).map fun localConn => ⟨.localConn, .localConn localConn⟩
  else if (chars "switch ").isPrefixOf str then
    return (← strToPtpNetSwitch (str.drop 7) fuel).map fun netSwitch => ⟨.netSwitch, .netSwitch netSwitch⟩
  else return none

/-! ## Paths -/

/-- The loop of `ptp_action_list_to_str`. -/
def ptpActionListToStrLoop : Nat → Bytes → List PtpAction → Except Fault (Option Bytes)
  | _, res, [] => .ok (some res)
  | i, res, action :: rest => do
    let res := if i > 0 then res ++ chars " ; " else res
    match ← ptpActionToStr action with
    | none => return none
    | some str => ptpActionListToStrLoop (← addInt i 1) (res ++ str) rest

/-- `ptp_action_list_to_str`. -/
def ptpActionListToStr (list : List PtpAction) : Except Fault (Option Bytes) := ptpActionListToStrLoop 0 [] list

/-- The loop of `str_to_ptp_action_list`, on the actions parsed before. -/
def strToPtpActionListLoop (fuel : Nat) (list : List PtpAction) : List Bytes → Except Fault (Option (List PtpAction))
  | [] => .ok (some list)
  | actionStr :: rest => do
    match ← strToPtpAction actionStr fuel with
    | none => return none
    | some action => strToPtpActionListLoop fuel (list ++ [action]) rest

/-- `str_to_ptp_action_list`. -/
def strToPtpActionList (str : Bytes) (fuel : Nat) : Except Fault (Option (List PtpAction)) := do
  strToPtpActionListLoop fuel [] (← splitStr str (chars " ; ") fuel)

end NetworkingFramework
