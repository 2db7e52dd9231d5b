import NetworkingFramework.CircularQueue
import NetworkingFramework.MultiRecv
import NetworkingFramework.Lib.Runs

/-!
# Receiving behind a queue

`abstract/receiving/async_recv_listener`: what is received is put into a circular queue, and a worker thread takes it out and
gives it to the listener that is set. Each of its steps holds the lock of the queue, so the threads' steps interleave whole.

The destructor stops the worker and is not modelled.
-/

namespace NetworkingFramework

open Wire Runs

/-- The default `BUFF_SZ` of a `circular_queue`. -/
def asyncBuffSize : Nat := 2000

/-- `async_recv_listener`. -/
structure AsyncRecvListener (TYPE : Type) where
  listener : Option Address
  queue : CircularQueue TYPE asyncBuffSize

namespace AsyncRecvListener

variable {TYPE : Type}

/-- The constructor. -/
def init (buff : List.Vector TYPE asyncBuffSize) : AsyncRecvListener TYPE := ⟨none, .init buff (by decide)⟩

/-- `set_recv_listener`. -/
def setRecvListener (a : AsyncRecvListener TYPE) (listener : Option Address) : AsyncRecvListener TYPE :=
  match listener with
  | none => a
  | some l => { a with listener := some l }

/-- `remove_listener`. -/
def removeListener (a : AsyncRecvListener TYPE) : AsyncRecvListener TYPE := { a with listener := none }

/-- `handle_recv`. -/
def handleRecv (a : AsyncRecvListener TYPE) (data : TYPE) : AsyncRecvListener TYPE :=
  if a.queue.isFull then a else { a with queue := (a.queue.pushBack data).2 }

/-- What one turn of the worker's loop takes out of the queue, and the call it makes with it. -/
structure Turn (TYPE : Type) where
  taken : Option TYPE
  call : Option (Address × TYPE)

/-- One turn of the worker's loop. It follows the pointer that `front` returns. -/
def workerTurn (a : AsyncRecvListener TYPE) : Except Fault (AsyncRecvListener TYPE × Turn TYPE) :=
  if a.queue.isEmpty then .ok (a, ⟨none, none⟩)
  else
    match a.queue.front with
    | none => .error .nullPointer
    | some data =>
      let a := { a with queue := a.queue.popFront.2 }
      match a.listener with
      | none => .ok (a, ⟨some data, none⟩)
      | some l => .ok (a, ⟨some data, some (l, data)⟩)

end AsyncRecvListener

/-- A step of one of the threads. -/
inductive AsyncStep (TYPE : Type) where
  | handleRecv (data : TYPE)
  | workerTurn
  | setRecvListener (listener : Option Address)
  | removeListener
  deriving DecidableEq, Repr

/-- The object and what has happened to it: the data that were offered while there was room, those the worker took out, each
with the listener that was set then, and the calls to listeners. -/
structure AsyncHistory (TYPE : Type) where
  now : AsyncRecvListener TYPE
  accepted : List TYPE
  consumed : List (TYPE × Option Address)
  called : List (Address × TYPE)

namespace AsyncHistory

variable {TYPE : Type}

/-- Nothing has happened. -/
def init (buff : List.Vector TYPE asyncBuffSize) : AsyncHistory TYPE := ⟨.init buff, [], [], []⟩

/-- One step, unless it faults. -/
def step (h : AsyncHistory TYPE) : AsyncStep TYPE → Option (AsyncHistory TYPE)
  | .handleRecv data => some {
      h with
      now := h.now.handleRecv data
      accepted := if h.now.queue.contents.length < asyncBuffSize then h.accepted ++ [data] else h.accepted }
  | .workerTurn =>
    match h.now.workerTurn with
    | .error _ => none
    | .ok (now, turn) => some {
        h with
        now
        consumed := h.consumed ++ turn.taken.toList.map fun data => (data, h.now.listener)
        called := h.called ++ turn.call.toList }
  | .setRecvListener listener => some { h with now := h.now.setRecvListener listener }
  | .removeListener => some { h with now := h.now.removeListener }

end AsyncHistory
end NetworkingFramework
