import Mathlib.Order.Basic

/-!
# Signed words

The arithmetic of a signed machine word, which holds the integers from `-(max + 1)` to `max`. An operation whose result is outside
of these has no value, and neither has a division by zero.
-/

namespace SignedWord

/-- The word holds the integer. -/
def Fits (max : Nat) (i : Int) : Prop := -(max + 1 : Int) ≤ i ∧ i ≤ max

instance (max : Nat) (i : Int) : Decidable (Fits max i) := inferInstanceAs (Decidable (_ ∧ _))

/-- A result, if the word holds it. -/
def ofInt (max : Nat) (i : Int) : Option Int := if Fits max i then some i else none

/-- The sum. -/
def add (max : Nat) (a b : Int) : Option Int := ofInt max (a + b)

/-- The difference. -/
def sub (max : Nat) (a b : Int) : Option Int := ofInt max (a - b)

/-- The remainder of the division that rounds towards zero. -/
def rem (max : Nat) (a b : Int) : Option Int := if b ≠ 0 ∧ Fits max (a.tdiv b) then some (a.tmod b) else none

variable {max : Nat}

/-- A natural number up to the largest value fits. -/
theorem fits_natCast {n : Nat} (h : n ≤ max) : Fits max n := by
  constructor <;> omega

theorem add_natCast {a b : Nat} (h : a + b ≤ max) : add max a b = some ((a + b : Nat) : Int) := by
  rw [add, ofInt, ← Int.natCast_add, if_pos (fits_natCast h)]

theorem add_one_natCast {a : Nat} (h : a + 1 ≤ max) : add max a 1 = some ((a + 1 : Nat) : Int) := add_natCast h

theorem sub_natCast {a b : Nat} (hle : b ≤ a) (h : a ≤ max) : sub max a b = some ((a - b : Nat) : Int) := by
  rw [sub, ofInt, ← Int.natCast_sub hle, if_pos (fits_natCast (Nat.le_trans (Nat.sub_le a b) h))]

theorem rem_natCast {a b : Nat} (hpos : 0 < b) (h : a ≤ max) : rem max a b = some ((a % b : Nat) : Int) := by
  have hdiv : Fits max ((a : Int).tdiv b) := by
    rw [← Int.ofNat_tdiv]
    exact fits_natCast (Nat.le_trans (Nat.div_le_self a b) h)
  have hne : (b : Int) ≠ 0 := by omega
  rw [rem, if_pos ⟨hne, hdiv⟩, Int.ofNat_tmod]

theorem sub_one_natCast {a : Nat} (hpos : 0 < a) (h : a ≤ max) : sub max a 1 = some ((a - 1 : Nat) : Int) :=
  sub_natCast hpos h

/-- One less than a natural number: it may be `-1`. -/
theorem sub_one_natCast' {a : Nat} (h : a ≤ max) : sub max a 1 = some ((a : Int) - 1) := by
  have hfits : Fits max ((a : Int) - 1) := by constructor <;> omega
  rw [sub, ofInt, if_pos hfits]

end SignedWord
