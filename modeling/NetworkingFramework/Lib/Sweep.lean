import Mathlib.Data.List.Iterate

/-!
# Sweeping an interval

A loop that starts somewhere, goes from each place to the next, and stops at the first place that is outside. It need not stop: it
is given fuel. When the places are numbered, the next one having the next number, what it visits is the interval of the
numbers from its start on, in order.
-/

namespace Sweep

variable {α : Type} (inside : α → Bool) (next : α → α)

/-- The places visited, if the loop stops. -/
def sweep : Nat → α → Option (List α)
  | 0, _ => none
  | fuel + 1, a => if inside a then (sweep fuel (next a)).map (a :: ·) else some []

/-- A loop none of whose places is outside does not stop. -/
theorem sweep_eq_none (h : ∀ a, inside a = true) (fuel : Nat) (a : α) : sweep inside next fuel a = none := by
  induction fuel generalizing a with
  | zero => rfl
  | succ fuel ih => rw [sweep, if_pos (h a), ih, Option.map_none]

/-- More fuel does not change what is visited. -/
theorem sweep_mono {fuel fuel' : Nat} {a : α} {visited : List α} (hle : fuel ≤ fuel')
    (h : sweep inside next fuel a = some visited) : sweep inside next fuel' a = some visited := by
  induction fuel generalizing fuel' a visited with
  | zero => cases h
  | succ fuel ih =>
    obtain ⟨fuel', rfl⟩ := Nat.exists_eq_succ_of_ne_zero (Nat.ne_of_gt (Nat.zero_lt_of_lt hle))
    rw [sweep] at h ⊢
    by_cases ha : inside a = true
    · rw [if_pos ha, Option.map_eq_some_iff] at h
      obtain ⟨rest, hrest, rfl⟩ := h
      rw [if_pos ha, ih (Nat.le_of_succ_le_succ hle) hrest, Option.map_some]
    · rwa [if_neg ha] at h ⊢

/-- It visits the places up to the first one outside. -/
theorem sweep_eq_iterate {n : Nat} {a : α} (hinside : ∀ k < n, inside (next^[k] a) = true)
    (hout : inside (next^[n] a) = false) {fuel : Nat} (hfuel : n < fuel) :
    sweep inside next fuel a = some (List.iterate next a n) := by
  induction n generalizing fuel a with
  | zero =>
    obtain ⟨fuel, rfl⟩ := Nat.exists_eq_succ_of_ne_zero (Nat.ne_of_gt hfuel)
    have hstop : inside a = false := hout
    rw [sweep, hstop]
    rfl
  | succ n ih =>
    obtain ⟨fuel, rfl⟩ := Nat.exists_eq_succ_of_ne_zero (Nat.ne_of_gt (Nat.zero_lt_of_lt hfuel))
    have hstart : inside a = true := hinside 0 (Nat.succ_pos n)
    have hrest := ih (a := next a) (fun k hk => hinside (k + 1) (Nat.succ_lt_succ hk)) hout (Nat.lt_of_succ_lt_succ hfuel)
    rw [sweep, if_pos hstart, hrest]
    rfl

/-! ## Numbered places -/

section Numbered

variable {next} {number : α → Nat} {a : α} {n : Nat}

/-- Where the next place has the next number, or the number zero when there is none, the places are numbered in a row. -/
theorem number_iterate {size : Nat} (h : ∀ b, number (next b) = (number b + 1) % size) (ha : number a < size) (k : Nat) :
    number (next^[k] a) = (number a + k) % size := by
  induction k with
  | zero => exact (Nat.mod_eq_of_lt ha).symm
  | succ k ih => rw [Function.iterate_succ_apply', h, ih, Nat.mod_add_mod, Nat.add_assoc]

/-- The places visited are those of an interval. -/
theorem mem_iterate_iff (hinj : Function.Injective number) (hrow : ∀ k < n, number (next^[k] a) = number a + k) (b : α) :
    b ∈ List.iterate next a n ↔ number a ≤ number b ∧ number b < number a + n := by
  rw [List.mem_iterate]
  constructor
  · intro h
    obtain ⟨k, hk, rfl⟩ := h
    rw [hrow k hk]
    omega
  · intro h
    refine ⟨number b - number a, by omega, hinj ?_⟩
    rw [hrow _ (by omega)]
    omega

/-- They are visited in increasing order, each once. -/
theorem pairwise_iterate (hrow : ∀ k < n, number (next^[k] a) = number a + k) :
    (List.iterate next a n).Pairwise fun b c => number b < number c := by
  rw [List.pairwise_iff_getElem]
  intro i j hi hj hlt
  rw [List.length_iterate] at hi hj
  rw [List.getElem_iterate, List.getElem_iterate, hrow i hi, hrow j hj]
  omega

end Numbered

end Sweep
