import NetworkingFramework.CircularQueue

/-!
# Lemmas: what was taken out of a queue

`recv_queue` hands out pointers into the buffer of its queue. What was taken out last stays where it was until the queue is full
again.
-/

namespace NetworkingFramework.CircularQueue

variable {T : Type} {BUFF_SZ : Nat} {q : CircularQueue T BUFF_SZ} {before taken : List T} {slot : Fin BUFF_SZ}

/-- The slot in front of the queue holds the last of what was taken out of it. -/
structure HoldsLast (q : CircularQueue T BUFF_SZ) (before taken : List T) (slot : Fin BUFF_SZ) : Prop where
  place : slot = q.slot (BUFF_SZ - 1)
  behind : taken = before ++ [q.buff.get slot]

theorem toList_front (h : q.count ≠ 0) : q.front.toList = [q.buff.get (q.slot 0)] := by
  rw [q.front_eq, q.contents_eq_cons h]
  rfl

/-- The first element is taken out. -/
theorem holdsLast_popFront (h : q.count ≠ 0) (before : List T) :
    q.popFront.2.HoldsLast before (before ++ q.front.toList) (q.slot 0) := by
  constructor
  · -- a turn of the buffer ahead of the new front is the slot that was the front
    have hturn := q.slot_turn 0
    rw [Nat.zero_add] at hturn
    rw [q.slot_popFront h, Nat.sub_add_cancel q.size_pos, hturn]
  · rw [toList_front h, q.buff_popFront]

theorem HoldsLast.mem (h : q.HoldsLast before taken slot) : q.buff.get slot ∈ taken := by
  rw [h.behind]
  exact List.mem_append_right _ List.mem_cons_self

/-- An element is put into the queue, and not into that slot. -/
theorem HoldsLast.pushBack (h : q.HoldsLast before taken slot) (hcount : q.count + 1 ≠ BUFF_SZ) (val : T) :
    (q.pushBack val).2.HoldsLast before taken slot ∧ (q.pushBack val).2.buff.get slot = q.buff.get slot := by
  by_cases hfull : q.count = BUFF_SZ
  · rw [q.pushBack_full val hfull]
    exact ⟨h, rfl⟩
  · have hother : q.slot q.count ≠ slot := by
      have hle := q.count_le
      have hpos := q.size_pos
      rw [h.place]
      exact q.slot_ne (by omega) (by omega)
    have hget : (q.pushBack val).2.buff.get slot = q.buff.get slot := by
      rw [q.buff_pushBack val hfull]
      exact List.Vector.get_set_of_ne hother val
    refine ⟨⟨?_, ?_⟩, hget⟩
    · rw [q.slot_pushBack]
      exact h.place
    · rw [hget]
      exact h.behind

/-! ## What was stored -/

/-- The elements that were put into a queue, when one more is tried. -/
def storedWith (q : CircularQueue T BUFF_SZ) (stored : List T) (val : T) : List T := if q.isFull then stored else stored ++ [val]

theorem prefix_storedWith (q : CircularQueue T BUFF_SZ) (stored : List T) (val : T) : stored <+: q.storedWith stored val := by
  unfold storedWith
  split
  · exact List.prefix_rfl
  · exact List.prefix_append _ _

theorem mem_of_mem_storedWith {stored : List T} {val x : T} (h : x ∈ q.storedWith stored val) : x ∈ stored ∨ x = val := by
  unfold storedWith at h
  split at h
  · exact .inl h
  · exact (List.mem_append.mp h).imp_right List.mem_singleton.mp

/-- What was stored is what was taken out and what is still there. -/
theorem storedWith_eq {stored : List T} (h : stored = taken ++ q.contents) (val : T) :
    q.storedWith stored val = taken ++ (q.pushBack val).2.contents := by
  unfold storedWith
  by_cases hfull : q.count = BUFF_SZ
  · rw [if_pos (by simpa [isFull] using hfull), q.pushBack_full val hfull, h]
  · have hle := q.count_le
    rw [if_neg (by simpa [isFull] using hfull), q.contents_pushBack val (by rw [length_contents]; omega), h, List.append_assoc]

end NetworkingFramework.CircularQueue
