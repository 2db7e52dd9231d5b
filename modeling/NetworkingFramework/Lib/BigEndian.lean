import Mathlib.Data.Nat.Digits.Defs
import NetworkingFramework.Lib.Wire

/-!
# Bytes as big-endian numbers

A buffer of a fixed length is a number, its first byte the most significant. Two buffers of one length have the same number only
when they are the same, and the buffers that begin with the same bytes are an interval.
-/

namespace BigEndian

open Wire

/-- The number that a buffer is. -/
def value (w : Bytes) : Nat := Nat.ofDigits 256 (w.reverse.map UInt8.toNat)

@[simp] theorem value_nil : value [] = 0 := rfl

theorem value_append (v w : Bytes) : value (v ++ w) = value v * 256 ^ w.length + value w := by
  rw [value, List.reverse_append, List.map_append, Nat.ofDigits_append, List.length_map, List.length_reverse]
  exact (Nat.add_comm _ _).trans (congrArg (· + value w) (Nat.mul_comm _ _))

@[simp] theorem value_singleton (b : UInt8) : value [b] = b.toNat := by
  rw [value, List.reverse_singleton, List.map_singleton, Nat.ofDigits_singleton]

theorem value_cons (b : UInt8) (w : Bytes) : value (b :: w) = b.toNat * 256 ^ w.length + value w := by
  rw [← List.singleton_append, value_append, value_singleton]

theorem value_concat (v : Bytes) (b : UInt8) : value (v ++ [b]) = value v * 256 + b.toNat := by
  rw [value_append, List.length_singleton, pow_one, value_singleton]

/-- The digits of a number are bytes. -/
theorem digit_lt (w : Bytes) : ∀ d ∈ w.reverse.map UInt8.toNat, d < 256 := by
  intro d hd
  obtain ⟨b, -, rfl⟩ := List.mem_map.mp hd
  exact b.toNat_lt

theorem value_lt (w : Bytes) : value w < 256 ^ w.length := by
  have hlt := Nat.ofDigits_lt_base_pow_length (by decide) (digit_lt w)
  rwa [List.length_map, List.length_reverse] at hlt

@[simp] theorem value_zeros (n : Nat) : value (List.replicate n 0) = 0 := by
  rw [value, List.reverse_replicate, List.map_replicate, UInt8.toNat_zero, Nat.ofDigits_replicate_zero]

/-- Buffers of one length are told apart by their numbers. -/
theorem value_inj {v w : Bytes} (hlen : v.length = w.length) (h : value v = value w) : v = w := by
  have hmap : v.reverse.map UInt8.toNat = w.reverse.map UInt8.toNat :=
    Nat.ofDigits_inj_of_len_eq (by decide) (by simpa using hlen) (digit_lt v) (digit_lt w) h
  have hrev : v.reverse = w.reverse := (List.map_injective_iff.mpr fun a b => UInt8.toNat_inj.mp) hmap
  exact List.reverse_injective hrev

/-- The buffers with the same first bytes are those whose numbers lie in an interval. -/
theorem take_eq_iff {v w : Bytes} {m : Nat} (hlen : w.length = v.length + m) :
    w.take v.length = v ↔ value v * 256 ^ m ≤ value w ∧ value w < value v * 256 ^ m + 256 ^ m := by
  have hpos : 0 < 256 ^ m := Nat.pow_pos (by decide)
  have hdrop : (w.drop v.length).length = m := by rw [List.length_drop, hlen, Nat.add_sub_cancel_left]
  have hsplit : value w = value (w.take v.length) * 256 ^ m + value (w.drop v.length) := by
    conv_lhs => rw [← List.take_append_drop v.length w]
    rw [value_append, hdrop]
  have hlow : value (w.drop v.length) < 256 ^ m := hdrop ▸ value_lt (w.drop v.length)
  have hhigh : value w / 256 ^ m = value (w.take v.length) := by
    rw [hsplit, Nat.mul_comm, Nat.mul_add_div hpos, Nat.div_eq_of_lt hlow, Nat.add_zero]
  have htake : (w.take v.length).length = v.length := by rw [List.length_take, hlen]; omega
  constructor
  · intro h
    rw [hsplit, h]
    omega
  · intro h
    apply value_inj htake
    rw [← hhigh, Nat.div_eq_iff hpos]
    omega

end BigEndian
