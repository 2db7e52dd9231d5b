import Mathlib.Logic.Function.Basic
import NetworkingFramework.AsyncRecv
import NetworkingFramework.Lib.Mutex

/-!
# The locks of a receiver behind a queue

`abstract/receiving/async_recv_listener` lock by lock: any number of threads call `handle_recv`, `set_recv_listener` and
`remove_listener`, and the worker takes what is received out of the queue. What a thread does between two operations on a lock or on
the condition variable is one step. The worker gives what it has taken to the listener with both locks held; the listener calls
nothing of the object.

Only the worker locks `awake_mtx`, which is left out, as is the destructor.
-/

namespace NetworkingFramework

open Wire

/-- Who has a lock. -/
inductive LockOwner (Tid : Type) where
  | worker
  | caller (t : Tid)
  deriving DecidableEq

/-- Where the worker is in its loop. -/
inductive WorkerPlace (TYPE : Type) where
  /-- Before the lock in the condition of `wait`. -/
  | condition
  | conditionLocked
  /-- The condition was false, and the worker is about to wait. -/
  | window
  | waiting (notified : Bool)
  /-- Before `lock_q`. -/
  | lockQueue
  | take
  /-- Before `lock_listener`. -/
  | lockListener (data : TYPE)
  | forward (data : TYPE)
  /-- In the listener's `handle_recv`. -/
  | calling
  deriving DecidableEq

/-- `notify_one`, which wakes the worker if it waits and is lost otherwise. -/
def WorkerPlace.notify {TYPE : Type} : WorkerPlace TYPE → WorkerPlace TYPE
  | .waiting _ => .waiting true
  | place => place

/-- Where another thread is in a call. -/
inductive CallerPlace (TYPE : Type) where
  | outside
  | recvLock (data : TYPE)
  | recvPush (data : TYPE)
  | recvNotify
  | recvUnlock
  | setLock (listener : Option Address)
  | setAssign (listener : Option Address)
  | setUnlock
  deriving DecidableEq

/-- The object, its threads and locks; and what has happened to it, as in an `AsyncHistory`. -/
structure AsyncThreads (Tid TYPE : Type) where
  now : AsyncRecvListener TYPE
  worker : WorkerPlace TYPE
  caller : Tid → CallerPlace TYPE
  buffMtx : Option (LockOwner Tid)
  listenerMtx : Option (LockOwner Tid)
  accepted : List TYPE
  consumed : List (TYPE × Option Address)
  called : List (Address × TYPE)

/-- A step of one of the threads. -/
inductive ThreadStep (Tid TYPE : Type) where
  | handleRecv (t : Tid) (data : TYPE)
  | setRecvListener (t : Tid) (listener : Option Address)
  | removeListener (t : Tid)
  /-- The thread goes on in its call. -/
  | caller (t : Tid)
  | worker
  /-- The worker wakes up without a notification. -/
  | wake

namespace AsyncThreads

variable {Tid TYPE : Type}

/-- The worker has just been started. -/
def init (buff : List.Vector TYPE asyncBuffSize) : AsyncThreads Tid TYPE :=
  ⟨.init buff, .condition, fun _ => .outside, none, none, [], [], []⟩

/-- The worker gives both locks back, and its loop begins again. -/
def again (s : AsyncThreads Tid TYPE) : AsyncThreads Tid TYPE :=
  { s with worker := .condition, buffMtx := none, listenerMtx := none }

/-- The worker's next step, unless it waits. -/
def stepWorker (s : AsyncThreads Tid TYPE) : Option (AsyncThreads Tid TYPE) :=
  match s.worker with
  | .condition => if s.buffMtx.isNone then some { s with worker := .conditionLocked, buffMtx := some .worker } else none
  | .conditionLocked => some { s with worker := if s.now.queue.isEmpty then .window else .lockQueue, buffMtx := none }
  | .window => some { s with worker := .waiting false }
  | .waiting notified => if notified then some { s with worker := .condition } else none
  | .lockQueue => if s.buffMtx.isNone then some { s with worker := .take, buffMtx := some .worker } else none
  | .take =>
    if s.now.queue.isEmpty then some { s with worker := .condition, buffMtx := none }
    else s.now.queue.front.map fun data =>
      { s with now := { s.now with queue := s.now.queue.popFront.2 }, worker := .lockListener data }
  | .lockListener data =>
    if s.listenerMtx.isNone then some { s with worker := .forward data, listenerMtx := some .worker } else none
  | .forward data =>
    match s.now.listener with
    | none => some { s.again with consumed := s.consumed ++ [(data, none)] }
    | some l => some {
        s with
        worker := .calling
        consumed := s.consumed ++ [(data, some l)]
        called := s.called ++ [(l, data)] }
  | .calling => some s.again

variable [DecidableEq Tid]

/-- A thread is somewhere else. -/
def goTo (s : AsyncThreads Tid TYPE) (t : Tid) (place : CallerPlace TYPE) : AsyncThreads Tid TYPE :=
  { s with caller := Function.update s.caller t place }

/-- A thread's next step in its call, unless it waits. -/
def stepCaller (s : AsyncThreads Tid TYPE) (t : Tid) : Option (AsyncThreads Tid TYPE) :=
  match s.caller t with
  | .outside => none
  | .recvLock data => if s.buffMtx.isNone then some { s.goTo t (.recvPush data) with buffMtx := some (.caller t) } else none
  | .recvPush data =>
    if s.now.queue.isFull then some (s.goTo t .recvUnlock)
    else some {
      s.goTo t .recvNotify with
      now := { s.now with queue := (s.now.queue.pushBack data).2 }
      accepted := s.accepted ++ [data] }
  | .recvNotify => some { s.goTo t .recvUnlock with worker := s.worker.notify }
  | .recvUnlock => some { s.goTo t .outside with buffMtx := none }
  | .setLock listener =>
    if s.listenerMtx.isNone then some { s.goTo t (.setAssign listener) with listenerMtx := some (.caller t) } else none
  | .setAssign listener => some { s.goTo t .setUnlock with now := { s.now with listener } }
  | .setUnlock => some { s.goTo t .outside with listenerMtx := none }

/-- A thread outside a call makes one. -/
def call (s : AsyncThreads Tid TYPE) (t : Tid) (place : CallerPlace TYPE) : Option (AsyncThreads Tid TYPE) :=
  match s.caller t with
  | .outside => some (s.goTo t place)
  | _ => none

/-- A step. A null listener is not set. -/
def step (s : AsyncThreads Tid TYPE) : ThreadStep Tid TYPE → Option (AsyncThreads Tid TYPE)
  | .handleRecv t data => s.call t (.recvLock data)
  | .setRecvListener t listener => s.call t (if listener.isNone then .outside else .setLock listener)
  | .removeListener t => s.call t (.setLock none)
  | .caller t => s.stepCaller t
  | .worker => s.stepWorker
  | .wake =>
    match s.worker with
    | .waiting _ => some { s with worker := .condition }
    | _ => none

end AsyncThreads

/-- The worker has the lock of the queue. -/
def WorkerPlace.HasBuff {TYPE : Type} : WorkerPlace TYPE → Prop
  | .conditionLocked | .take | .lockListener _ | .forward _ | .calling => True
  | _ => False

/-- The worker has the lock of the listener. -/
def WorkerPlace.HasListener {TYPE : Type} : WorkerPlace TYPE → Prop
  | .forward _ | .calling => True
  | _ => False

/-- What the worker has taken out of the queue, before it knows the listener. -/
def WorkerPlace.inHand {TYPE : Type} : WorkerPlace TYPE → Option TYPE
  | .lockListener data | .forward data => some data
  | _ => none

/-- The thread has the lock of the queue. -/
def CallerPlace.HasBuff {TYPE : Type} : CallerPlace TYPE → Prop
  | .recvPush _ | .recvNotify | .recvUnlock => True
  | _ => False

/-- The thread has the lock of the listener. -/
def CallerPlace.HasListener {TYPE : Type} : CallerPlace TYPE → Prop
  | .setAssign _ | .setUnlock => True
  | _ => False

namespace AsyncThreads

variable {Tid TYPE : Type}

/-- Who is where the lock of the queue is held. -/
def HasBuff (s : AsyncThreads Tid TYPE) : LockOwner Tid → Prop
  | .worker => s.worker.HasBuff
  | .caller t => (s.caller t).HasBuff

/-- Who is where the lock of the listener is held. -/
def HasListener (s : AsyncThreads Tid TYPE) : LockOwner Tid → Prop
  | .worker => s.worker.HasListener
  | .caller t => (s.caller t).HasListener

/-- The object with its threads is where the object whose steps are whole is. What the worker has in hand is still in the other's
queue. -/
structure Refines (s : AsyncThreads Tid TYPE) (h : AsyncHistory TYPE) : Prop where
  accepted : h.accepted = s.accepted
  consumed : h.consumed = s.consumed
  called : h.called = s.called
  listener : h.now.listener = s.now.listener
  queue : match s.worker.inHand with
    | none => h.now.queue = s.now.queue
    | some data => h.now.queue.front = some data ∧ h.now.queue.popFront.2 = s.now.queue

end AsyncThreads
end NetworkingFramework
