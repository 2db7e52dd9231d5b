import Mathlib.Data.List.Basic

/-!
# Bounded double-ended queues

A list of at most `cap` elements that grows and shrinks at both ends. A push at capacity is refused, and so is a pop of the empty
list.
-/

/-- A list of at most `cap` elements. -/
structure BoundedDeque (T : Type) (cap : Nat) where
  elems : List T
  length_le : elems.length ≤ cap

/-- A call on a double-ended queue. -/
inductive DequeCall (T : Type) where
  | pushBack (val : T)
  | pushFront (val : T)
  | popFront
  | popBack
  | clear
  deriving DecidableEq, Repr

namespace BoundedDeque

variable {T : Type} {cap : Nat}

@[ext] theorem ext {d e : BoundedDeque T cap} (h : d.elems = e.elems) : d = e := by
  cases d
  cases e
  congr

/-- Nothing in it. -/
def empty : BoundedDeque T cap := ⟨[], Nat.zero_le _⟩

/-- What a call returns, a boolean unless it clears, and the queue after it. -/
def call (d : BoundedDeque T cap) : DequeCall T → Option Bool × BoundedDeque T cap
  | .pushBack val =>
    if h : d.elems.length < cap then
      (some true, ⟨d.elems ++ [val], by rw [List.length_append, List.length_singleton]; exact h⟩)
    else (some false, d)
  | .pushFront val => if h : d.elems.length < cap then (some true, ⟨val :: d.elems, h⟩) else (some false, d)
  | .popFront =>
    if d.elems = [] then (some false, d)
    else (some true, ⟨d.elems.tail, by rw [List.length_tail]; exact Nat.le_trans (Nat.sub_le _ _) d.length_le⟩)
  | .popBack =>
    if d.elems = [] then (some false, d)
    else (some true, ⟨d.elems.dropLast, by rw [List.length_dropLast]; exact Nat.le_trans (Nat.sub_le _ _) d.length_le⟩)
  | .clear => (none, empty)

variable {d : BoundedDeque T cap}

theorem call_pushBack_of_lt (val : T) (h : d.elems.length < cap) :
    ∃ e : BoundedDeque T cap, d.call (.pushBack val) = (some true, e) ∧ e.elems = d.elems ++ [val] :=
  ⟨_, dif_pos h, rfl⟩

theorem call_pushBack_of_full (val : T) (h : ¬d.elems.length < cap) : d.call (.pushBack val) = (some false, d) := dif_neg h

theorem call_pushFront_of_lt (val : T) (h : d.elems.length < cap) :
    ∃ e : BoundedDeque T cap, d.call (.pushFront val) = (some true, e) ∧ e.elems = val :: d.elems :=
  ⟨_, dif_pos h, rfl⟩

theorem call_pushFront_of_full (val : T) (h : ¬d.elems.length < cap) : d.call (.pushFront val) = (some false, d) := dif_neg h

theorem call_popFront_of_ne (h : d.elems ≠ []) :
    ∃ e : BoundedDeque T cap, d.call .popFront = (some true, e) ∧ e.elems = d.elems.tail :=
  ⟨_, if_neg h, rfl⟩

theorem call_popFront_of_empty (h : d.elems = []) : d.call .popFront = (some false, d) := if_pos h

theorem call_popBack_of_ne (h : d.elems ≠ []) :
    ∃ e : BoundedDeque T cap, d.call .popBack = (some true, e) ∧ e.elems = d.elems.dropLast :=
  ⟨_, if_neg h, rfl⟩

theorem call_popBack_of_empty (h : d.elems = []) : d.call .popBack = (some false, d) := if_pos h

end BoundedDeque
