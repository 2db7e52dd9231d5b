import NetworkingFramework.MultiRecv
import NetworkingFramework.Lib.Runs
import Mathlib.Logic.Function.Basic

/-!
# Net accesses that share one

`abstract/net_access/multi_net_access`: net accesses generated over one that is shared. The receivers set on them are kept in
one `multi_recv_listener`, which is the receiver of the shared net access; each generated one remembers its own current
receiver, and takes it out when it gets another one and when it is destroyed.

A generated net access is known by its address while it lives.
-/

namespace NetworkingFramework

open Wire Runs

/-- `multi_net_access`, with the `curr_recv` of each net access it has generated that lives. -/
structure MultiNetAccess where
  multiRecv : MultiRecvListener
  currRecv : Address → Option (Option Address)

/-- A use of a `multi_net_access`. -/
inductive MultiNetAccessCall where
  | generateNetAccess (access : Address)
  | setRecvAccess (access : Address) (recv : Option Address)
  | destroy (access : Address)
  deriving DecidableEq, Repr

namespace MultiNetAccess

/-- The constructor. -/
def init : MultiNetAccess := ⟨⟨∅⟩, fun _ => none⟩

/-- `generate_net_access`: a new object, at an address where none lives. -/
def generateNetAccess (m : MultiNetAccess) (access : Address) : Option MultiNetAccess :=
  match m.currRecv access with
  | some _ => none
  | none => some { m with currRecv := Function.update m.currRecv access (some none) }

/-- `if (curr_recv != nullptr) par->multi_recv->remove_listener(curr_recv)`. -/
def removeCurr (multiRecv : MultiRecvListener) (curr : Option Address) : MultiRecvListener :=
  if curr ≠ none then (multiRecv.removeListener curr).2 else multiRecv

/-- `impl_set_recv_access` of a generated net access. -/
def setRecvAccess (m : MultiNetAccess) (access : Address) (recv : Option Address) : Option MultiNetAccess :=
  match m.currRecv access with
  | none => none
  | some curr => some {
      multiRecv := (removeCurr m.multiRecv curr).addRecvListener recv
      currRecv := Function.update m.currRecv access (some recv) }

/-- The destructor of a generated net access. -/
def destroy (m : MultiNetAccess) (access : Address) : Option MultiNetAccess :=
  match m.currRecv access with
  | none => none
  | some curr => some {
      multiRecv := removeCurr m.multiRecv curr
      currRecv := Function.update m.currRecv access none }

/-- A use, if there is such a net access. -/
def step (m : MultiNetAccess) : MultiNetAccessCall → Option MultiNetAccess
  | .generateNetAccess access => m.generateNetAccess access
  | .setRecvAccess access recv => m.setRecvAccess access recv
  | .destroy access => m.destroy access

/-- The receiver is the current one of a net access that lives. -/
def Current (m : MultiNetAccess) (l : Address) : Prop := ∃ access, m.currRecv access = some (some l)

end MultiNetAccess
end NetworkingFramework
