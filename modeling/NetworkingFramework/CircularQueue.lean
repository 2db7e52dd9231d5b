import Mathlib.Data.Vector.Basic
import Mathlib.Data.Nat.ModEq

/-!
# The circular queue

`utils/circular_queue`: a buffer of fixed size and the two indices of the part of it that is in use, which wraps around. The
invariant of the indices is part of the type.

`front` and `rear` wait for an element up to a timeout; they are modelled without a producer beside them, so on an empty queue
they return the null pointer.
-/

namespace NetworkingFramework

/-- `circular_queue`. -/
structure CircularQueue (T : Type) (BUFF_SZ : Nat) where
  buff : List.Vector T BUFF_SZ
  baseIn : Nat
  count : Nat
  baseIn_lt : baseIn < BUFF_SZ
  count_le : count ≤ BUFF_SZ

namespace CircularQueue

variable {T : Type} {BUFF_SZ : Nat}

theorem size_pos (q : CircularQueue T BUFF_SZ) : 0 < BUFF_SZ := Nat.zero_lt_of_lt q.baseIn_lt

/-- The index of the buffer `i` places behind the base. -/
def slot (q : CircularQueue T BUFF_SZ) (i : Nat) : Fin BUFF_SZ := ⟨(q.baseIn + i) % BUFF_SZ, Nat.mod_lt _ q.size_pos⟩

/-- A queue as it is constructed, with whatever its buffer holds. -/
def init (buff : List.Vector T BUFF_SZ) (h : 0 < BUFF_SZ) : CircularQueue T BUFF_SZ := ⟨buff, 0, 0, h, Nat.zero_le _⟩

/-- `is_empty`. -/
def isEmpty (q : CircularQueue T BUFF_SZ) : Bool := q.count = 0

/-- `is_full`. -/
def isFull (q : CircularQueue T BUFF_SZ) : Bool := q.count = BUFF_SZ

/-- `front`. -/
def front (q : CircularQueue T BUFF_SZ) : Option T :=
  if ¬q.isEmpty then some (q.buff.get ⟨q.baseIn, q.baseIn_lt⟩) else none

/-- `rear`. -/
def rear (q : CircularQueue T BUFF_SZ) : Option T := if ¬q.isEmpty then some (q.buff.get (q.slot (q.count - 1))) else none

/-- `pop_front`. -/
def popFront (q : CircularQueue T BUFF_SZ) : Bool × CircularQueue T BUFF_SZ :=
  if q.isEmpty then (false, q)
  else (true, {
    q with
    baseIn := (q.baseIn + 1) % BUFF_SZ
    count := q.count - 1
    baseIn_lt := Nat.mod_lt _ q.size_pos
    count_le := Nat.le_trans (Nat.sub_le _ _) q.count_le })

/-- `pop_back`. -/
def popBack (q : CircularQueue T BUFF_SZ) : Bool × CircularQueue T BUFF_SZ :=
  if q.isEmpty then (false, q)
  else (true, { q with count := q.count - 1, count_le := Nat.le_trans (Nat.sub_le _ _) q.count_le })

/-- `clear`. -/
def clear (q : CircularQueue T BUFF_SZ) : CircularQueue T BUFF_SZ := { q with count := 0, count_le := Nat.zero_le _ }

/-- `push_back`. -/
def pushBack (q : CircularQueue T BUFF_SZ) (val : T) : Bool × CircularQueue T BUFF_SZ :=
  if h : q.count = BUFF_SZ then (false, q)
  else (true, {
    q with
    buff := q.buff.set (q.slot q.count) val
    count := q.count + 1
    count_le := Nat.lt_of_le_of_ne q.count_le h })

/-- `push_front`. -/
def pushFront (q : CircularQueue T BUFF_SZ) (val : T) : Bool × CircularQueue T BUFF_SZ :=
  if h : q.count = BUFF_SZ then (false, q)
  else (true, {
    buff := q.buff.set ⟨(q.baseIn + BUFF_SZ - 1) % BUFF_SZ, Nat.mod_lt _ q.size_pos⟩ val
    baseIn := (q.baseIn + BUFF_SZ - 1) % BUFF_SZ
    count := q.count + 1
    baseIn_lt := Nat.mod_lt _ q.size_pos
    count_le := Nat.lt_of_le_of_ne q.count_le h })

/-! ## What a queue holds -/

/-- The elements from front to rear. -/
def contents (q : CircularQueue T BUFF_SZ) : List T := (List.range q.count).map fun i => q.buff.get (q.slot i)

@[simp] theorem length_contents (q : CircularQueue T BUFF_SZ) : q.contents.length = q.count := by
  simp [contents]

@[simp] theorem contents_init (buff : List.Vector T BUFF_SZ) (h : 0 < BUFF_SZ) : (init buff h).contents = [] := rfl

/-- Places within one turn of the buffer are different. -/
theorem slot_ne (q : CircularQueue T BUFF_SZ) {i j : Nat} (hij : i < j) (hj : j < BUFF_SZ) : q.slot i ≠ q.slot j := by
  intro h
  have hmod : q.baseIn + i ≡ q.baseIn + j [MOD BUFF_SZ] := Fin.mk.inj h
  have heq := (Nat.ModEq.add_left_cancel' q.baseIn hmod).eq_of_lt_of_lt (Nat.lt_trans hij hj) hj
  omega

/-- A turn of the buffer leads back to the same place. -/
theorem slot_turn (q : CircularQueue T BUFF_SZ) (i : Nat) : q.slot (i + BUFF_SZ) = q.slot i := by
  apply Fin.ext
  simp only [slot]
  rw [← Nat.add_assoc, Nat.add_mod_right]

theorem slot_zero (q : CircularQueue T BUFF_SZ) : q.slot 0 = ⟨q.baseIn, q.baseIn_lt⟩ :=
  Fin.ext (Nat.mod_eq_of_lt q.baseIn_lt)

theorem isEmpty_iff (q : CircularQueue T BUFF_SZ) : q.isEmpty = true ↔ q.contents = [] := by
  rw [← List.length_eq_zero_iff, length_contents, isEmpty, decide_eq_true_iff]

theorem isFull_iff (q : CircularQueue T BUFF_SZ) : q.isFull = true ↔ q.contents.length = BUFF_SZ := by
  rw [length_contents, isFull, decide_eq_true_iff]

theorem front_eq (q : CircularQueue T BUFF_SZ) : q.front = q.contents.head? := by
  unfold front isEmpty contents
  cases hcount : q.count with
  | zero => simp
  | succ n =>
    simp [List.range_succ_eq_map, slot_zero]

/-- The first element and the others. -/
theorem contents_eq_cons (q : CircularQueue T BUFF_SZ) (h : q.count ≠ 0) :
    q.contents = q.buff.get (q.slot 0) :: q.contents.tail := by
  obtain ⟨n, hn⟩ := Nat.exists_eq_succ_of_ne_zero h
  rw [contents, hn, List.range_succ_eq_map]
  rfl

/-- An element is not taken when there is no room. -/
theorem pushBack_full (q : CircularQueue T BUFF_SZ) (val : T) (h : q.count = BUFF_SZ) : (q.pushBack val).2 = q := by
  rw [pushBack, dif_pos h]

theorem slot_pushBack (q : CircularQueue T BUFF_SZ) (val : T) (i : Nat) : (q.pushBack val).2.slot i = q.slot i := by
  by_cases h : q.count = BUFF_SZ
  · rw [q.pushBack_full val h]
  · rw [pushBack, dif_neg h]
    rfl

theorem count_le_pushBack (q : CircularQueue T BUFF_SZ) (val : T) : q.count ≤ (q.pushBack val).2.count := by
  by_cases h : q.count = BUFF_SZ
  · rw [q.pushBack_full val h]
  · rw [pushBack, dif_neg h]
    exact Nat.le_succ _

theorem buff_pushBack (q : CircularQueue T BUFF_SZ) (val : T) (h : q.count ≠ BUFF_SZ) :
    (q.pushBack val).2.buff = q.buff.set (q.slot q.count) val := by
  rw [pushBack, dif_neg h]

/-- An element is appended. -/
theorem contents_pushBack (q : CircularQueue T BUFF_SZ) (val : T) (h : q.contents.length < BUFF_SZ) :
    (q.pushBack val).2.contents = q.contents ++ [val] := by
  rw [length_contents] at h
  have hne : q.count ≠ BUFF_SZ := Nat.ne_of_lt h
  have hcount : (q.pushBack val).2.count = q.count + 1 := by rw [pushBack, dif_neg hne]
  rw [contents, contents, hcount, List.range_succ, List.map_append, List.map_singleton, q.buff_pushBack val hne, slot_pushBack,
    List.Vector.get_set_same]
  congr 1
  refine List.map_congr_left fun i hi => ?_
  rw [slot_pushBack, List.Vector.get_set_of_ne (Ne.symm (q.slot_ne (List.mem_range.mp hi) h))]

@[simp] theorem buff_popFront (q : CircularQueue T BUFF_SZ) : q.popFront.2.buff = q.buff := by
  unfold popFront
  split <;> rfl

theorem slot_popFront (q : CircularQueue T BUFF_SZ) (h : q.count ≠ 0) (i : Nat) : q.popFront.2.slot i = q.slot (i + 1) := by
  have hempty : ¬q.isEmpty = true := by simpa [isEmpty] using h
  apply Fin.ext
  rw [popFront, if_neg hempty]
  simp only [slot]
  rw [Nat.mod_add_mod, Nat.add_assoc, Nat.add_comm 1 i]

/-- The first element is dropped. -/
theorem contents_popFront (q : CircularQueue T BUFF_SZ) : q.popFront.2.contents = q.contents.tail := by
  by_cases hempty : q.isEmpty = true
  · rw [popFront, if_pos hempty, (isEmpty_iff q).mp hempty]
    rfl
  · have hne : q.count ≠ 0 := by simpa [isEmpty] using hempty
    have hcount : q.count = q.popFront.2.count + 1 := by
      rw [popFront, if_neg hempty]
      simp only
      omega
    rw [contents, contents, hcount, List.range_succ_eq_map, List.map_cons, List.tail_cons, List.map_map]
    exact List.map_congr_left fun i _ => by rw [buff_popFront, slot_popFront q hne, Function.comp_apply]

/-- The last element is dropped. -/
theorem contents_popBack (q : CircularQueue T BUFF_SZ) : q.popBack.2.contents = q.contents.dropLast := by
  by_cases hempty : q.isEmpty = true
  · rw [popBack, if_pos hempty, (isEmpty_iff q).mp hempty]
    rfl
  · have hslot (i : Nat) : q.popBack.2.slot i = q.slot i := by rw [popBack, if_neg hempty]; rfl
    have hbuff : q.popBack.2.buff = q.buff := by rw [popBack, if_neg hempty]
    have hcount : q.count = q.popBack.2.count + 1 := by
      have hne : q.count ≠ 0 := by simpa [isEmpty] using hempty
      rw [popBack, if_neg hempty]
      simp only
      omega
    rw [contents, contents, hcount, List.range_succ, List.map_append, List.map_singleton, List.dropLast_concat]
    exact List.map_congr_left fun i _ => by rw [hbuff, hslot]

@[simp] theorem contents_clear (q : CircularQueue T BUFF_SZ) : q.clear.contents = [] := rfl

/-- An element is put before the others. -/
theorem contents_pushFront (q : CircularQueue T BUFF_SZ) (val : T) (h : q.contents.length < BUFF_SZ) :
    (q.pushFront val).2.contents = val :: q.contents := by
  rw [length_contents] at h
  have hne : q.count ≠ BUFF_SZ := Nat.ne_of_lt h
  have hpos := q.size_pos
  have hslot (i : Nat) : (q.pushFront val).2.slot (i + 1) = q.slot i := by
    apply Fin.ext
    rw [pushFront, dif_neg hne]
    simp only [slot]
    have hturn : q.baseIn + BUFF_SZ - 1 + (i + 1) = q.baseIn + i + BUFF_SZ := by omega
    rw [Nat.mod_add_mod, hturn, Nat.add_mod_right]
  have hbuff : (q.pushFront val).2.buff = q.buff.set ((q.pushFront val).2.slot 0) val := by
    have hzero : (q.pushFront val).2.slot 0 = ⟨(q.baseIn + BUFF_SZ - 1) % BUFF_SZ, Nat.mod_lt _ hpos⟩ := by
      apply Fin.ext
      rw [pushFront, dif_neg hne]
      simp only [slot]
      rw [Nat.add_zero, Nat.mod_mod]
    rw [hzero, pushFront, dif_neg hne]
  have hcount : (q.pushFront val).2.count = q.count + 1 := by rw [pushFront, dif_neg hne]
  rw [contents, hcount, List.range_succ_eq_map, List.map_cons, hbuff, List.Vector.get_set_same, List.map_map, contents]
  congr 1
  refine List.map_congr_left fun i hi => ?_
  have hfar : (q.pushFront val).2.slot 0 ≠ (q.pushFront val).2.slot (i + 1) := by
    refine slot_ne _ (Nat.zero_lt_succ i) ?_
    have hlt := List.mem_range.mp hi
    omega
  rw [Function.comp_apply, List.Vector.get_set_of_ne hfar, hslot]

end CircularQueue
end NetworkingFramework
