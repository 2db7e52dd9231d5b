import NetworkingFramework.CircularQueue
import NetworkingFramework.Lib.SignedWord
import NetworkingFramework.Lib.BoundedDeque

/-!
# The circular queue in machine words

`utils/circular_queue` once more, with the two indices as the `int`s they are and every sum, difference and remainder of them
computed in `int`. A call has no value when one of these overflows or an index lies outside the buffer.
-/

namespace NetworkingFramework

open SignedWord

/-- The largest `int`. -/
def intMax : Nat := 2147483647

/-- `circular_queue`, with nothing known of its indices. -/
structure IntQueue (T : Type) (BUFF_SZ : Nat) where
  buff : List.Vector T BUFF_SZ
  baseIn : Int
  count : Int

namespace IntQueue

variable {T : Type} {BUFF_SZ : Nat}

/-- A queue as it is constructed. -/
def init (buff : List.Vector T BUFF_SZ) : IntQueue T BUFF_SZ := ⟨buff, 0, 0⟩

/-- An index of the buffer. -/
def index (BUFF_SZ : Nat) (i : Int) : Option (Fin BUFF_SZ) :=
  if h : 0 ≤ i ∧ i.toNat < BUFF_SZ then some ⟨i.toNat, h.2⟩ else none

/-- `is_empty`. -/
def isEmpty (q : IntQueue T BUFF_SZ) : Bool := q.count = 0

/-- `is_full`. -/
def isFull (q : IntQueue T BUFF_SZ) : Bool := q.count = BUFF_SZ

/-- `front`: the element that the pointer leads to, or the null pointer. -/
def front (q : IntQueue T BUFF_SZ) : Option (Option T) :=
  if ¬q.isEmpty then do return some (q.buff.get (← index BUFF_SZ q.baseIn)) else some none

/-- `rear`. -/
def rear (q : IntQueue T BUFF_SZ) : Option (Option T) :=
  if ¬q.isEmpty then do
    let last ← sub intMax (← add intMax q.baseIn q.count) 1
    return some (q.buff.get (← index BUFF_SZ (← rem intMax last BUFF_SZ)))
  else some none

/-- `pop_front`. -/
def popFront (q : IntQueue T BUFF_SZ) : Option (Bool × IntQueue T BUFF_SZ) :=
  if q.isEmpty then some (false, q)
  else do
    let baseIn ← rem intMax (← add intMax q.baseIn 1) BUFF_SZ
    let count ← sub intMax q.count 1
    return (true, { q with baseIn, count })

/-- `pop_back`. -/
def popBack (q : IntQueue T BUFF_SZ) : Option (Bool × IntQueue T BUFF_SZ) :=
  if q.isEmpty then some (false, q)
  else do
    let count ← sub intMax q.count 1
    return (true, { q with count })

/-- `clear`. -/
def clear (q : IntQueue T BUFF_SZ) : IntQueue T BUFF_SZ := { q with count := 0 }

/-- `push_back`. -/
def pushBack (q : IntQueue T BUFF_SZ) (val : T) : Option (Bool × IntQueue T BUFF_SZ) :=
  if q.isFull then some (false, q)
  else do
    let i ← index BUFF_SZ (← rem intMax (← add intMax q.baseIn q.count) BUFF_SZ)
    let count ← add intMax q.count 1
    return (true, { q with buff := q.buff.set i val, count })

/-- `push_front`. -/
def pushFront (q : IntQueue T BUFF_SZ) (val : T) : Option (Bool × IntQueue T BUFF_SZ) :=
  if q.isFull then some (false, q)
  else do
    let baseIn ← rem intMax (← add intMax (← sub intMax q.baseIn 1) BUFF_SZ) BUFF_SZ
    let i ← index BUFF_SZ baseIn
    let count ← add intMax q.count 1
    return (true, { buff := q.buff.set i val, baseIn, count })

/-- A call that changes the queue. -/
def call (q : IntQueue T BUFF_SZ) : DequeCall T → Option (Option Bool × IntQueue T BUFF_SZ)
  | .pushBack val => do
    let (done, q) ← q.pushBack val
    return (some done, q)
  | .pushFront val => do
    let (done, q) ← q.pushFront val
    return (some done, q)
  | .popFront => do
    let (done, q) ← q.popFront
    return (some done, q)
  | .popBack => do
    let (done, q) ← q.popBack
    return (some done, q)
  | .clear => return (none, q.clear)

end IntQueue

namespace CircularQueue

variable {T : Type} {BUFF_SZ : Nat}

/-- The machine words of a queue. -/
def ints (q : CircularQueue T BUFF_SZ) : IntQueue T BUFF_SZ := ⟨q.buff, q.baseIn, q.count⟩

/-- A call that changes the queue. -/
def call (q : CircularQueue T BUFF_SZ) : DequeCall T → Option Bool × CircularQueue T BUFF_SZ
  | .pushBack val => ((q.pushBack val).1, (q.pushBack val).2)
  | .pushFront val => ((q.pushFront val).1, (q.pushFront val).2)
  | .popFront => (q.popFront.1, q.popFront.2)
  | .popBack => (q.popBack.1, q.popBack.2)
  | .clear => (none, q.clear)

/-- What the queue holds. -/
def deque (q : CircularQueue T BUFF_SZ) : BoundedDeque T BUFF_SZ := ⟨q.contents, by rw [length_contents]; exact q.count_le⟩

end CircularQueue

/-! ## A queue that receives -/

/-- `recv_queue`, over a `circular_queue` of the default size. -/
structure RecvQueue (T : Type) where
  queue : CircularQueue T 2000

/-- `handle_recv`. -/
def RecvQueue.handleRecv {T : Type} (r : RecvQueue T) (data : T) : RecvQueue T := ⟨(r.queue.pushBack data).2⟩

end NetworkingFramework
