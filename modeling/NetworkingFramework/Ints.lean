import Mathlib.Algebra.Group.Int.Defs
import Mathlib.Algebra.Group.Nat.Defs
import NetworkingFramework.Lib.Wire

/-!
# Counters

Loops that count with an `int`, from zero on.
-/

namespace NetworkingFramework

open Wire

/-- An `int` is increased. -/
def addInt (i k : Nat) : Except Fault Nat := if i + k < 2 ^ 31 then .ok (i + k) else .error .unrepresentable

/-- A `size_t` that is assigned to an `int`. -/
def toInt (n : Nat) : Int := (BitVec.ofNat 32 n).toInt

theorem addInt_ok_iff (i k n : Nat) : addInt i k = .ok n ↔ i + k < 2 ^ 31 ∧ n = i + k := by
  unfold addInt
  split
  · rename_i h
    rw [Except.ok.injEq]
    exact ⟨fun heq => ⟨h, heq.symm⟩, fun heq => heq.2.symm⟩
  · rename_i h
    exact ⟨fun heq => (nomatch heq), fun heq => absurd heq.1 h⟩

theorem addInt_of_lt {i k : Nat} (h : i + k < 2 ^ 31) : addInt i k = .ok (i + k) := if_pos h

theorem toInt_of_lt {n : Nat} (h : n < 2 ^ 31) : toInt n = n := by
  rw [toInt, BitVec.toInt_eq_toNat_of_lt (by rw [BitVec.toNat_ofNat]; omega), BitVec.toNat_ofNat]
  omega

theorem toInt_lt (n : Nat) : toInt n < 2 ^ 31 := by
  have h := BitVec.toInt_lt (x := BitVec.ofNat 32 n)
  unfold toInt
  omega

theorem toInt_le (n : Nat) : toInt n ≤ n := by
  have hle : n % 2 ^ 32 ≤ n := Nat.mod_le _ _
  rw [toInt, BitVec.toInt_eq_toNat_cond, BitVec.toNat_ofNat]
  split <;> omega

/-- Only a small size has itself for an `int`. -/
theorem toInt_eq_iff (n : Nat) : toInt n = n ↔ n < 2 ^ 31 := by
  constructor
  · intro h
    have hlt := toInt_lt n
    omega
  · exact toInt_of_lt

end NetworkingFramework
