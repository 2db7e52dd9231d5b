import NetworkingFramework.Lemmas.IntQueue

/-!
# Queues

The circular queue is a bounded double-ended queue: every sequence of calls on it is answered as the calls on a list are, and no
index is computed outside of an `int` or used outside of the buffer.
-/

namespace NetworkingFramework

open Refinement

/-- After any calls on an empty queue of 1 to 1073741824 slots: no `int` has overflowed, the calls have returned what they return
on a list with that capacity, and the queue's contents, both ends, emptiness and fullness are those of the list; the indices lie in
their ranges. -/
theorem circularQueue_is_bounded_deque {T : Type} {BUFF_SZ : Nat} (hpos : 1 ≤ BUFF_SZ) (hsize : BUFF_SZ ≤ 1073741824)
    (buff : List.Vector T BUFF_SZ) (calls : List (DequeCall T)) :
    ∃ (q : CircularQueue T BUFF_SZ) (returned : List (Option Bool)) (d : BoundedDeque T BUFF_SZ),
      reference BoundedDeque.call .empty calls = (returned, d) ∧
      answers IntQueue.call (.init buff) calls = some (returned, q.ints) ∧
      q.contents = d.elems ∧
      (q.ints.isEmpty = true ↔ d.elems = []) ∧ (q.ints.isFull = true ↔ d.elems.length = BUFF_SZ) ∧
      q.ints.front = some d.elems.head? ∧ q.ints.rear = some d.elems.getLast? ∧
      0 ≤ q.ints.baseIn ∧ q.ints.baseIn < BUFF_SZ ∧ 0 ≤ q.ints.count ∧ q.ints.count ≤ BUFF_SZ := by
  have hinit : ∃ q : CircularQueue T BUFF_SZ, q.ints = .init buff ∧ q.deque = .empty :=
    ⟨.init buff hpos, rfl, CircularQueue.deque_init buff hpos⟩
  obtain ⟨w, hanswers, q, rfl, hdeque⟩ := (CircularQueue.ints_refines hsize).answers_eq hinit calls
  have hcontents : q.contents = (reference BoundedDeque.call (.empty : BoundedDeque T BUFF_SZ) calls).2.elems := by
    rw [← hdeque, CircularQueue.deque_elems]
  refine ⟨q, _, _, rfl, hanswers, hcontents, ?_, ?_, ?_, ?_, ?_⟩
  · rw [CircularQueue.ints_isEmpty, q.isEmpty_iff, hcontents]
  · rw [CircularQueue.ints_isFull, q.isFull_iff, hcontents]
  · rw [q.ints_front, q.front_eq, hcontents]
  · rw [q.ints_rear hsize, q.rear_eq, hcontents]
  · have hbase := q.baseIn_lt
    have hcount := q.count_le
    simp only [CircularQueue.ints_baseIn, CircularQueue.ints_count]
    omega

/-- A queue of three slots that wraps around at both ends and refuses a push. -/
theorem circularQueue_is_bounded_deque_three : ∃ (q : CircularQueue Nat 3) (d : BoundedDeque Nat 3),
    answers IntQueue.call (.init ⟨[0, 0, 0], rfl⟩)
        [.pushBack 1, .pushFront 2, .pushBack 3, .pushFront 4, .popFront, .pushBack 5, .popBack] =
      some ([some true, some true, some true, some false, some true, some true, some true], q.ints) ∧
      q.contents = d.elems := by
  obtain ⟨q, returned, d, hreference, hanswers, hcontents, _⟩ := @circularQueue_is_bounded_deque Nat 3 (by decide)
    (by decide) ⟨[0, 0, 0], rfl⟩
    [.pushBack 1, .pushFront 2, .pushBack 3, .pushFront 4, .popFront, .pushBack 5, .popBack]
  obtain rfl : _ = returned := congrArg Prod.fst hreference
  exact ⟨q, d, hanswers, hcontents⟩

/-- A `recv_queue` keeps what it received first, up to 2000 items. -/
theorem recvQueue_keeps_first {T : Type} (received : List T) (r : RecvQueue T) :
    (received.foldl RecvQueue.handleRecv r).queue.contents =
      r.queue.contents ++ received.take (2000 - r.queue.contents.length) := by
  induction received generalizing r with
  | nil => simp
  | cons data received ih =>
    rw [List.foldl_cons, ih]
    by_cases hroom : r.queue.contents.length < 2000
    · have hcontents : (r.handleRecv data).queue.contents = r.queue.contents ++ [data] :=
        r.queue.contents_pushBack data hroom
      have hleft : 2000 - r.queue.contents.length = 2000 - (r.queue.contents ++ [data]).length + 1 := by
        rw [List.length_append, List.length_singleton]
        omega
      rw [hcontents, hleft, List.take_succ_cons, List.append_assoc, List.singleton_append]
    · have hfull : r.handleRecv data = r := by
        rw [r.queue.contents_lt_iff, not_not] at hroom
        rw [RecvQueue.handleRecv, CircularQueue.pushBack, dif_pos hroom]
      have hnone : 2000 - r.queue.contents.length = 0 := by omega
      rw [hfull, hnone, List.take_zero, List.take_zero]

end NetworkingFramework
