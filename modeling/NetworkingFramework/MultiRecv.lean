import NetworkingFramework.Lib.OrderedSet

/-!
# Forwarding to many receivers

`abstract/receiving/multi_recv_listener`: a set of receivers, kept by address, each of which gets what is received. A receiver
may register and remove receivers of the same object while it is called, since the lock is not held around the calls.

A receiver's code is a parameter, `Behaviour`: a step of the program's state and the calls it makes back.
-/

namespace NetworkingFramework

open Wire OrderedSet

/-- The address of an object, the key a set of `shared_ptr` is ordered by. A pointer is `some` address or null. -/
abbrev Address : Type := Nat

/-- `multi_recv_listener`: its set of registered listeners. -/
structure MultiRecvListener where
  listeners : Finset Address

/-- `add_recv_listener`. -/
def MultiRecvListener.addRecvListener (m : MultiRecvListener) (listener : Option Address) : MultiRecvListener :=
  match listener with
  | none => m
  | some l => ⟨insert l m.listeners⟩

/-- `remove_all_recv_listeners`. -/
def MultiRecvListener.removeAllRecvListeners (_m : MultiRecvListener) : MultiRecvListener := ⟨∅⟩

/-- `remove_listener`: whether it was there, and the set without it. -/
def MultiRecvListener.removeListener (m : MultiRecvListener) (listener : Option Address) : Bool × MultiRecvListener :=
  match listener with
  | none => (false, m)
  | some l => if l ∈ m.listeners then (true, ⟨m.listeners.erase l⟩) else (false, m)

/-- A call a listener makes back while it is called. -/
inductive MultiRecvCall where
  | addRecvListener (listener : Option Address)
  | removeListener (listener : Option Address)
  | removeAllRecvListeners
  deriving DecidableEq, Repr

/-- The object after a call. -/
def MultiRecvListener.after (m : MultiRecvListener) : MultiRecvCall → MultiRecvListener
  | .addRecvListener l => m.addRecvListener l
  | .removeListener l => (m.removeListener l).2
  | .removeAllRecvListeners => m.removeAllRecvListeners

/-- The change to the set that a call comes to. -/
def MultiRecvCall.changes : MultiRecvCall → List (Change Address)
  | .addRecvListener none | .removeListener none => []
  | .addRecvListener (some l) => [.insert l]
  | .removeListener (some l) => [.erase l]
  | .removeAllRecvListeners => [.clear]

/-- What the listeners do when they are given a datum. -/
abbrev Behaviour (σ TYPE : Type) : Type := σ → Address → TYPE → Except Fault (σ × List MultiRecvCall)

/-- One listener's turn in the loop of `handle_recv`. -/
def Behaviour.visit {σ TYPE : Type} (behave : Behaviour σ TYPE) (data : TYPE) : Visit σ Address :=
  fun st listener => do
    let (st', calls) ← behave st listener data
    return (st', calls.flatMap MultiRecvCall.changes)

/-- `handle_recv`: the copy is made, and the loop walks the set itself. -/
def MultiRecvListener.handleRecv {σ TYPE : Type} (m : MultiRecvListener) (behave : Behaviour σ TYPE) (fuel : Nat) (st : σ)
    (data : TYPE) : Except Fault (σ × MultiRecvListener × List (Address × TYPE)) := do
  let _listenersCopy := m.listeners.sort
  let (st', listeners, called) ← walk (behave.visit data) fuel st m.listeners
  return (st', ⟨listeners⟩, called.map fun l => (l, data))

/-- A call's change is what the call does to the set. -/
theorem MultiRecvListener.after_listeners (m : MultiRecvListener) (call : MultiRecvCall) :
    (m.after call).listeners = applyAll m.listeners call.changes := by
  cases call with
  | addRecvListener l => cases l <;> rfl
  | removeAllRecvListeners => rfl
  | removeListener l =>
    cases l with
    | none => rfl
    | some l =>
      by_cases hl : l ∈ m.listeners
      · simp [after, removeListener, hl, MultiRecvCall.changes, applyAll, Change.apply]
      · simp [after, removeListener, hl, MultiRecvCall.changes, applyAll, Change.apply, Finset.erase_eq_of_notMem]

end NetworkingFramework
