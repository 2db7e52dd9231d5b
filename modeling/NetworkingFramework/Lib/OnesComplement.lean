import Mathlib.Data.Nat.ModEq
import Mathlib.Algebra.BigOperators.Group.List.Basic
import Mathlib.Tactic.Common

/-!
# One's-complement arithmetic

Sums of words of a fixed width in one's complement, over the number `M` of words: a carry out of the top of a word comes back
in at its bottom. A sum may be kept in a wider accumulator and its carries folded back in at the end, since all that matters
of a number is its residue modulo `M - 1` and whether it is zero.
-/

namespace OnesComplement

variable {M : Nat}

/-- The sum of two words with the carry added back in. -/
def add (M a b : Nat) : Nat := if a + b < M then a + b else a + b + 1 - M

/-- The sum of a list of words. -/
def sum (M : Nat) : List Nat → Nat
  | [] => 0
  | w :: ws => add M w (sum M ws)

/-- The carries of a number wider than a word added back in, once. -/
def fold (M n : Nat) : Nat := n / M + n % M

/-- Two numbers stand for the same word: they agree modulo `M - 1`, and both are zero or neither is. -/
def SameWord (M a b : Nat) : Prop := a ≡ b [MOD M - 1] ∧ (a = 0 ↔ b = 0)

namespace SameWord

theorem refl (M a : Nat) : SameWord M a a := ⟨Nat.ModEq.refl a, Iff.rfl⟩

theorem symm {a b : Nat} (h : SameWord M a b) : SameWord M b a := ⟨h.1.symm, h.2.symm⟩

theorem trans {a b c : Nat} (h : SameWord M a b) (h' : SameWord M b c) : SameWord M a c :=
  ⟨h.1.trans h'.1, h.2.trans h'.2⟩

/-- Numbers for the same word are added to the same number with the same result. -/
theorem add_left {a b : Nat} (c : Nat) (h : SameWord M a b) : SameWord M (c + a) (c + b) := by
  have hzero := h.2
  exact ⟨h.1.add_left c, by omega⟩

theorem add_right {a b : Nat} (h : SameWord M a b) (c : Nat) : SameWord M (a + c) (b + c) := by
  rw [Nat.add_comm a c, Nat.add_comm b c]
  exact h.add_left c

/-- Two words that stand for the same word are the same. -/
theorem eq_of_lt {a b : Nat} (h : SameWord M a b) (ha : a < M) (hb : b < M) : a = b := by
  have hzero := h.2
  by_cases ha0 : a = 0
  · rw [ha0, hzero.mp ha0]
  · have hpred : a - 1 ≡ b - 1 [MOD M - 1] := by
      apply Nat.ModEq.add_right_cancel' 1
      rw [Nat.sub_add_cancel (by omega), Nat.sub_add_cancel (by omega)]
      exact h.1
    have heq := hpred.eq_of_lt_of_lt (by omega) (by omega)
    omega

end SameWord

/-- Adding a multiple of `M - 1` to a positive number changes nothing. -/
theorem sameWord_add_mul {n : Nat} (hn : n ≠ 0) (k : Nat) : SameWord M (n + (M - 1) * k) n :=
  ⟨Nat.add_mul_mod_self_left n (M - 1) k, by omega⟩

/-- The sum with the carry added back in stands for the same word as the sum. -/
theorem sameWord_add (hM : 0 < M) (a b : Nat) : SameWord M (add M a b) (a + b) := by
  unfold add
  split
  · exact SameWord.refl M _
  · have hcarry : a + b = a + b + 1 - M + (M - 1) * 1 := by omega
    have hpos : a + b + 1 - M ≠ 0 := by omega
    have hword := (sameWord_add_mul (M := M) hpos 1).symm
    rwa [← hcarry] at hword

theorem add_lt {a b : Nat} (ha : a < M) (hb : b < M) : add M a b < M := by
  unfold add
  split <;> omega

/-- A sum of words is a word. -/
theorem sum_lt (hM : 0 < M) {ws : List Nat} (h : ∀ w ∈ ws, w < M) : sum M ws < M := by
  induction ws with
  | nil => exact hM
  | cons w ws ih => exact add_lt (h w List.mem_cons_self) (ih fun x hx => h x (List.mem_cons_of_mem w hx))

/-- The sum in one's complement stands for the same word as the sum in a wide accumulator. -/
theorem sameWord_sum (hM : 0 < M) (ws : List Nat) : SameWord M (sum M ws) ws.sum := by
  induction ws with
  | nil => exact SameWord.refl M 0
  | cons w ws ih =>
    rw [List.sum_cons]
    exact (sameWord_add hM w (sum M ws)).trans (ih.add_left w)

/-- Folding the carries back in stands for the same word. -/
theorem sameWord_fold (hM : 0 < M) (n : Nat) : SameWord M (fold M n) n := by
  have hdiv : n = fold M n + (M - 1) * (n / M) := by
    have hn := Nat.div_add_mod n M
    have hsub : (M - 1) * (n / M) + n / M = M * (n / M) := by
      rw [← Nat.succ_mul, Nat.succ_eq_add_one, Nat.sub_add_cancel hM]
    unfold fold
    omega
  by_cases hzero : fold M n = 0
  · obtain ⟨hdiv0, hmod0⟩ := Nat.add_eq_zero_iff.mp hzero
    have hn : n = 0 := by
      rw [← Nat.div_add_mod n M, hdiv0, hmod0, Nat.mul_zero]
    rw [hn, fold, Nat.zero_div, Nat.zero_mod]
    exact SameWord.refl M 0
  · have hword := (sameWord_add_mul (M := M) hzero (n / M)).symm
    rwa [← hdiv] at hword

/-- Two folds take a number of two words to a word. -/
theorem fold_fold_lt {n : Nat} (hn : n < M * M) : fold M (fold M n) < M := by
  have hM : 0 < M := by
    rcases Nat.eq_zero_or_pos M with rfl | hM
    · omega
    · exact hM
  have hhi : n / M < M := Nat.div_lt_of_lt_mul hn
  have hlo : n % M < M := Nat.mod_lt n hM
  have hsum : fold M n < M + M := by unfold fold; omega
  have hlast : fold M n ≠ M + M - 1 := by unfold fold; omega
  by_cases hcarry : fold M n < M
  · rw [fold, Nat.div_eq_of_lt hcarry, Nat.mod_eq_of_lt hcarry, Nat.zero_add]
    exact hcarry
  · have hone : fold M n / M = 1 := by
      refine Nat.div_eq_of_lt_le ?_ ?_ <;> omega
    have hrest : fold M n % M = fold M n - M := by
      have h := Nat.div_add_mod (fold M n) M
      rw [hone, Nat.mul_one] at h
      omega
    rw [fold, hone, hrest]
    omega

/-- Two folds of a sum kept in an accumulator of two words give the sum in one's complement. -/
theorem fold_fold_eq_sum {ws : List Nat} (h : ∀ w ∈ ws, w < M) (hfit : ws.sum < M * M) :
    fold M (fold M ws.sum) = sum M ws := by
  have hM : 0 < M := by
    rcases Nat.eq_zero_or_pos M with rfl | hM
    · omega
    · exact hM
  have hfold := (sameWord_fold hM (fold M ws.sum)).trans (sameWord_fold hM ws.sum)
  exact (hfold.trans (sameWord_sum hM ws).symm).eq_of_lt (fold_fold_lt hfit) (sum_lt hM h)

/-- A word in the middle of a list adds to what the others sum to. -/
theorem sameWord_sum_insert (hM : 0 < M) (ws vs : List Nat) (w : Nat) :
    SameWord M (sum M (ws ++ w :: vs)) ((ws ++ vs).sum + w) := by
  have hsum := sameWord_sum hM (ws ++ w :: vs)
  have hperm : (ws ++ w :: vs).sum = (ws ++ vs).sum + w := by
    rw [List.sum_append, List.sum_cons, List.sum_append]
    omega
  rwa [hperm] at hsum

/-- With the complement of their sum among them, words sum to the word of ones. -/
theorem sum_insert_complement (hM : 1 < M) {ws vs : List Nat} (hws : ∀ w ∈ ws, w < M) (hvs : ∀ w ∈ vs, w < M) :
    sum M (ws ++ (M - 1 - sum M (ws ++ 0 :: vs)) :: vs) = M - 1 := by
  have hpos : 0 < M := Nat.zero_lt_of_lt hM
  have hall (w : Nat) (hw : w < M) : ∀ x ∈ ws ++ w :: vs, x < M := by
    intro x hx
    rcases List.mem_append.mp hx with hx | hx
    · exact hws x hx
    · rcases List.mem_cons.mp hx with rfl | hx
      · exact hw
      · exact hvs x hx
  have hr := sum_lt hpos (hall 0 hpos)
  have hrest := sameWord_sum_insert hpos ws vs 0
  have hfull := sameWord_sum_insert hpos ws vs (M - 1 - sum M (ws ++ 0 :: vs))
  have hones := hfull.trans (hrest.symm.add_right (M - 1 - sum M (ws ++ 0 :: vs)))
  rw [Nat.add_sub_cancel' (by omega)] at hones
  exact hones.eq_of_lt (sum_lt hpos (hall _ (by omega))) (by omega)

/-- Of a list of words their sum shows what it is modulo `M - 1`, and whether there is a word that is not zero. -/
theorem sum_eq_sum_iff (hM : 0 < M) {ws vs : List Nat} (hws : ∀ w ∈ ws, w < M) (hvs : ∀ w ∈ vs, w < M) :
    sum M ws = sum M vs ↔ SameWord M ws.sum vs.sum := by
  have hw := sameWord_sum hM ws
  have hv := sameWord_sum hM vs
  constructor
  · intro h
    exact (hw.symm.trans (h ▸ SameWord.refl M _)).trans hv
  · intro h
    exact (hw.trans (h.trans hv.symm)).eq_of_lt (sum_lt hM hws) (sum_lt hM hvs)

/-- Two words differ by a multiple of `M - 1` only when they are the two zeros. -/
theorem modEq_iff_of_lt {a b : Nat} (ha : a < M) (hb : b < M) :
    a ≡ b [MOD M - 1] ↔ a = b ∨ a = 0 ∧ b = M - 1 ∨ a = M - 1 ∧ b = 0 := by
  have hones : M - 1 ≡ 0 [MOD M - 1] := (Nat.modEq_zero_iff_dvd).mpr (Nat.dvd_refl _)
  constructor
  · intro h
    by_cases haM : a = M - 1
    · by_cases hbM : b = M - 1
      · exact .inl (haM.trans hbM.symm)
      · have hzero : b ≡ 0 [MOD M - 1] := h.symm.trans (haM ▸ hones)
        exact .inr (.inr ⟨haM, hzero.eq_of_lt_of_lt (by omega) (by omega)⟩)
    · by_cases hbM : b = M - 1
      · have hzero : a ≡ 0 [MOD M - 1] := h.trans (hbM ▸ hones)
        exact .inr (.inl ⟨hzero.eq_of_lt_of_lt (by omega) (by omega), hbM⟩)
      · exact .inl (h.eq_of_lt_of_lt (by omega) (by omega))
  · rintro (rfl | ⟨rfl, rfl⟩ | ⟨rfl, rfl⟩)
    · exact Nat.ModEq.refl _
    · exact hones.symm
    · exact hones

/-- Another word in the place of one is not seen only when it is the other zero, and there is a word beside it that is not zero. -/
theorem sameWord_add_iff {a b : Nat} (n : Nat) (ha : a < M) (hb : b < M) :
    SameWord M (n + a) (n + b) ↔ a = b ∨ n ≠ 0 ∧ (a = 0 ∧ b = M - 1 ∨ a = M - 1 ∧ b = 0) := by
  have hcancel : n + a ≡ n + b [MOD M - 1] ↔ a ≡ b [MOD M - 1] :=
    ⟨fun h => Nat.ModEq.add_left_cancel' n h, fun h => h.add_left n⟩
  rw [SameWord, hcancel, modEq_iff_of_lt ha hb]
  omega

end OnesComplement
