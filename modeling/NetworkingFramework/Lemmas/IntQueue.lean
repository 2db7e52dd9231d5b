import NetworkingFramework.IntQueue
import NetworkingFramework.Lib.Refinement

/-!
# The circular queue against its views

A queue of at most 1073741824 slots computes its indices in `int` without overflow, and what it holds is a bounded double-ended
queue.
-/

namespace NetworkingFramework

open SignedWord

variable {T : Type} {BUFF_SZ : Nat}

/-! ## The machine words -/

theorem IntQueue.index_natCast {i : Nat} (h : i < BUFF_SZ) : IntQueue.index BUFF_SZ i = some ⟨i, h⟩ := by
  have hbound : 0 ≤ (i : Int) ∧ (i : Int).toNat < BUFF_SZ := ⟨Int.natCast_nonneg i, h⟩
  rw [IntQueue.index, dif_pos hbound]
  rfl

namespace CircularQueue

variable (q : CircularQueue T BUFF_SZ)

@[simp] theorem ints_buff : q.ints.buff = q.buff := rfl

@[simp] theorem ints_baseIn : q.ints.baseIn = q.baseIn := rfl

@[simp] theorem ints_count : q.ints.count = q.count := rfl

@[simp] theorem ints_isEmpty : q.ints.isEmpty = q.isEmpty := by
  simp [IntQueue.isEmpty, isEmpty]

@[simp] theorem ints_isFull : q.ints.isFull = q.isFull := by
  have hiff : (q.count : Int) = BUFF_SZ ↔ q.count = BUFF_SZ := Int.natCast_inj
  simp only [IntQueue.isFull, isFull, ints_count, hiff]

theorem one_le_count (hempty : ¬q.isEmpty = true) : 1 ≤ q.count := by
  have hne : q.count ≠ 0 := by simpa [isEmpty] using hempty
  omega

theorem ints_front : q.ints.front = some q.front := by
  by_cases hempty : q.isEmpty = true
  · simp [IntQueue.front, front, hempty]
  · simp [IntQueue.front, front, hempty, IntQueue.index_natCast q.baseIn_lt]

variable (hsize : BUFF_SZ ≤ 1073741824)
include hsize

/-- The sum of the indices fits an `int`. -/
theorem baseIn_add_count_le : q.baseIn + q.count ≤ intMax := by
  have hbase := q.baseIn_lt
  have hcount := q.count_le
  simp only [intMax]
  omega

theorem ints_rear : q.ints.rear = some q.rear := by
  by_cases hempty : q.isEmpty = true
  · simp [IntQueue.rear, rear, hempty]
  · have hpos := q.one_le_count hempty
    have hsum := q.baseIn_add_count_le hsize
    have hadd : add intMax (q.baseIn : Int) q.count = some ((q.baseIn + q.count : Nat) : Int) := add_natCast hsum
    have hsub : sub intMax ((q.baseIn + q.count : Nat) : Int) 1 = some ((q.baseIn + q.count - 1 : Nat) : Int) :=
      sub_one_natCast (by omega) hsum
    have hrem : rem intMax ((q.baseIn + q.count - 1 : Nat) : Int) BUFF_SZ =
        some (((q.baseIn + q.count - 1) % BUFF_SZ : Nat) : Int) := rem_natCast q.size_pos (by omega)
    have hslot : q.slot (q.count - 1) = ⟨(q.baseIn + q.count - 1) % BUFF_SZ, Nat.mod_lt _ q.size_pos⟩ := by
      have hassoc : q.baseIn + (q.count - 1) = q.baseIn + q.count - 1 := by omega
      rw [slot, Fin.mk.injEq, hassoc]
    have hindex := IntQueue.index_natCast (Nat.mod_lt (q.baseIn + q.count - 1) q.size_pos)
    rw [IntQueue.rear, rear, ints_isEmpty, if_pos hempty, if_pos hempty]
    simp only [ints_baseIn, ints_count, ints_buff, hadd, hsub, hrem, hindex, hslot, Option.bind_eq_bind, Option.bind_some]
    rfl

theorem ints_popFront : q.ints.popFront = some (q.popFront.1, q.popFront.2.ints) := by
  by_cases hempty : q.isEmpty = true
  · simp [IntQueue.popFront, popFront, hempty]
  · have hpos := q.one_le_count hempty
    have hbase := q.baseIn_lt
    have hcount := q.count_le
    have hadd : add intMax (q.baseIn : Int) 1 = some ((q.baseIn + 1 : Nat) : Int) :=
      add_one_natCast (by simp only [intMax]; omega)
    have hrem : rem intMax ((q.baseIn + 1 : Nat) : Int) BUFF_SZ = some (((q.baseIn + 1) % BUFF_SZ : Nat) : Int) :=
      rem_natCast q.size_pos (by simp only [intMax]; omega)
    have hsub : sub intMax (q.count : Int) 1 = some ((q.count - 1 : Nat) : Int) :=
      sub_one_natCast hpos (by simp only [intMax]; omega)
    rw [IntQueue.popFront, popFront, ints_isEmpty, if_neg hempty, if_neg hempty]
    simp only [ints_baseIn, ints_count, hadd, hrem, hsub, Option.bind_eq_bind, Option.bind_some]
    rfl

theorem ints_popBack : q.ints.popBack = some (q.popBack.1, q.popBack.2.ints) := by
  by_cases hempty : q.isEmpty = true
  · simp [IntQueue.popBack, popBack, hempty]
  · have hpos := q.one_le_count hempty
    have hcount := q.count_le
    have hsub : sub intMax (q.count : Int) 1 = some ((q.count - 1 : Nat) : Int) :=
      sub_one_natCast hpos (by simp only [intMax]; omega)
    rw [IntQueue.popBack, popBack, ints_isEmpty, if_neg hempty, if_neg hempty]
    simp only [ints_count, hsub, Option.bind_eq_bind, Option.bind_some]
    rfl

theorem add_count_one : add intMax (q.count : Int) 1 = some ((q.count + 1 : Nat) : Int) := by
  have hcount := q.count_le
  exact add_one_natCast (by simp only [intMax]; omega)

theorem ints_pushBack (val : T) : q.ints.pushBack val = some ((q.pushBack val).1, (q.pushBack val).2.ints) := by
  by_cases hfull : q.count = BUFF_SZ
  · have hisFull : q.isFull = true := by simpa [isFull] using hfull
    simp [IntQueue.pushBack, pushBack, hisFull, hfull]
  · have hisFull : q.isFull = false := by simpa [isFull] using hfull
    have hsum := q.baseIn_add_count_le hsize
    have hadd : add intMax (q.baseIn : Int) q.count = some ((q.baseIn + q.count : Nat) : Int) := add_natCast hsum
    have hrem : rem intMax ((q.baseIn + q.count : Nat) : Int) BUFF_SZ = some (((q.baseIn + q.count) % BUFF_SZ : Nat) : Int) :=
      rem_natCast q.size_pos hsum
    have hindex := IntQueue.index_natCast (Nat.mod_lt (q.baseIn + q.count) q.size_pos)
    rw [IntQueue.pushBack, pushBack, dif_neg hfull, ints_isFull, hisFull, if_neg Bool.false_ne_true]
    simp only [ints_baseIn, ints_count, ints_buff, hadd, hrem, hindex, q.add_count_one hsize, Option.bind_eq_bind,
      Option.bind_some]
    rfl

theorem ints_pushFront (val : T) : q.ints.pushFront val = some ((q.pushFront val).1, (q.pushFront val).2.ints) := by
  by_cases hfull : q.count = BUFF_SZ
  · have hisFull : q.isFull = true := by simpa [isFull] using hfull
    simp [IntQueue.pushFront, pushFront, hisFull, hfull]
  · have hisFull : q.isFull = false := by simpa [isFull] using hfull
    have hbase := q.baseIn_lt
    have hpos := q.size_pos
    have hsub : sub intMax (q.baseIn : Int) 1 = some ((q.baseIn : Int) - 1) :=
      sub_one_natCast' (by simp only [intMax]; omega)
    -- the index before the first is below zero until the size is added
    have hadd : add intMax ((q.baseIn : Int) - 1) BUFF_SZ = some ((q.baseIn + BUFF_SZ - 1 : Nat) : Int) := by
      have hcast : (q.baseIn : Int) - 1 + BUFF_SZ = ((q.baseIn + BUFF_SZ - 1 : Nat) : Int) := by omega
      have hfits : Fits intMax ((q.baseIn + BUFF_SZ - 1 : Nat) : Int) := fits_natCast (by simp only [intMax]; omega)
      rw [add, ofInt, hcast, if_pos hfits]
    have hrem : rem intMax ((q.baseIn + BUFF_SZ - 1 : Nat) : Int) BUFF_SZ =
        some (((q.baseIn + BUFF_SZ - 1) % BUFF_SZ : Nat) : Int) := rem_natCast hpos (by simp only [intMax]; omega)
    have hindex := IntQueue.index_natCast (Nat.mod_lt (q.baseIn + BUFF_SZ - 1) hpos)
    rw [IntQueue.pushFront, pushFront, dif_neg hfull, ints_isFull, hisFull, if_neg Bool.false_ne_true]
    simp only [ints_baseIn, ints_count, ints_buff, hsub, hadd, hrem, hindex, q.add_count_one hsize, Option.bind_eq_bind,
      Option.bind_some]
    rfl

/-- No call overflows. -/
theorem ints_call (c : DequeCall T) : q.ints.call c = some ((q.call c).1, (q.call c).2.ints) := by
  cases c with
  | pushBack val => simp [IntQueue.call, call, q.ints_pushBack hsize]
  | pushFront val => simp [IntQueue.call, call, q.ints_pushFront hsize]
  | popFront => simp [IntQueue.call, call, q.ints_popFront hsize]
  | popBack => simp [IntQueue.call, call, q.ints_popBack hsize]
  | clear => rfl

omit hsize

/-! ## The bounded double-ended queue -/

theorem rear_eq : q.rear = q.contents.getLast? := by
  unfold rear isEmpty contents
  cases hcount : q.count with
  | zero => simp
  | succ n => simp [List.range_succ]

@[simp] theorem deque_elems : q.deque.elems = q.contents := rfl

theorem deque_init (buff : List.Vector T BUFF_SZ) (h : 0 < BUFF_SZ) : (init buff h).deque = .empty := rfl

/-- The queue has room unless it is full. -/
theorem contents_lt_iff : q.contents.length < BUFF_SZ ↔ q.count ≠ BUFF_SZ := by
  have hle := q.count_le
  rw [length_contents]
  omega

/-- Each call answers as that on the double-ended queue does, and does the same to what the queue holds. -/
theorem call_deque (c : DequeCall T) : ((q.call c).1, (q.call c).2.deque) = q.deque.call c := by
  cases c with
  | pushBack val =>
    by_cases h : q.contents.length < BUFF_SZ
    · obtain ⟨e, hcall, helems⟩ := BoundedDeque.call_pushBack_of_lt (d := q.deque) val h
      have hdone : (q.pushBack val).1 = true := by rw [pushBack, dif_neg (q.contents_lt_iff.mp h)]
      have hdeque : (q.pushBack val).2.deque = e := BoundedDeque.ext ((q.contents_pushBack val h).trans helems.symm)
      simp only [call, hdone, hdeque, hcall]
    · have hfull : q.pushBack val = (false, q) := by
        rw [q.contents_lt_iff, not_not] at h
        rw [pushBack, dif_pos h]
      simp only [call, hfull, BoundedDeque.call_pushBack_of_full (d := q.deque) val h]
  | pushFront val =>
    by_cases h : q.contents.length < BUFF_SZ
    · obtain ⟨e, hcall, helems⟩ := BoundedDeque.call_pushFront_of_lt (d := q.deque) val h
      have hdone : (q.pushFront val).1 = true := by rw [pushFront, dif_neg (q.contents_lt_iff.mp h)]
      have hdeque : (q.pushFront val).2.deque = e := BoundedDeque.ext ((q.contents_pushFront val h).trans helems.symm)
      simp only [call, hdone, hdeque, hcall]
    · have hfull : q.pushFront val = (false, q) := by
        rw [q.contents_lt_iff, not_not] at h
        rw [pushFront, dif_pos h]
      simp only [call, hfull, BoundedDeque.call_pushFront_of_full (d := q.deque) val h]
  | popFront =>
    by_cases h : q.contents = []
    · have hempty : q.popFront = (false, q) := by rw [popFront, if_pos (q.isEmpty_iff.mpr h)]
      simp only [call, hempty, BoundedDeque.call_popFront_of_empty (d := q.deque) h]
    · obtain ⟨e, hcall, helems⟩ := BoundedDeque.call_popFront_of_ne (d := q.deque) h
      have hdone : q.popFront.1 = true := by rw [popFront, if_neg (mt q.isEmpty_iff.mp h)]
      have hdeque : q.popFront.2.deque = e := BoundedDeque.ext (q.contents_popFront.trans helems.symm)
      simp only [call, hdone, hdeque, hcall]
  | popBack =>
    by_cases h : q.contents = []
    · have hempty : q.popBack = (false, q) := by rw [popBack, if_pos (q.isEmpty_iff.mpr h)]
      simp only [call, hempty, BoundedDeque.call_popBack_of_empty (d := q.deque) h]
    · obtain ⟨e, hcall, helems⟩ := BoundedDeque.call_popBack_of_ne (d := q.deque) h
      have hdone : q.popBack.1 = true := by rw [popBack, if_neg (mt q.isEmpty_iff.mp h)]
      have hdeque : q.popBack.2.deque = e := BoundedDeque.ext (q.contents_popBack.trans helems.symm)
      simp only [call, hdone, hdeque, hcall]
  | clear => rfl

/-- The machine words refine the double-ended queue. -/
theorem ints_refines (hsize : BUFF_SZ ≤ 1073741824) :
    Refinement.Refines (fun (w : IntQueue T BUFF_SZ) d => ∃ q : CircularQueue T BUFF_SZ, q.ints = w ∧ q.deque = d)
      IntQueue.call BoundedDeque.call := by
  intro w d c h
  obtain ⟨q, rfl, rfl⟩ := h
  refine ⟨(q.call c).2.ints, ?_, (q.call c).2, rfl, congrArg Prod.snd (q.call_deque c)⟩
  rw [q.ints_call hsize, ← q.call_deque]

end CircularQueue
end NetworkingFramework
