import Mathlib.Algebra.Group.Nat.Defs
import Mathlib.Data.List.Basic
import Mathlib.Logic.Function.Iterate
import Mathlib.Tactic.Common

/-!
# Shift registers with feedback

A register of `w` bits that is shifted towards its low end; when a one falls out, a polynomial is added to what is left. Bits are
fed to it at the low end, one for each shift. A shift is linear, so some bits can be fed at once: they are added to the register,
and the shifts of its low bits are looked up.
-/

namespace ShiftRegister

variable {w : Nat}

/-- One shift. -/
def shift (poly x : BitVec w) : BitVec w := if x.getLsbD 0 then poly ^^^ (x >>> 1) else x >>> 1

/-- One shift, a bit being added to the one that falls out. -/
def feedBit (poly x : BitVec w) (b : Bool) : BitVec w := if x.getLsbD 0 ^^ b then poly ^^^ (x >>> 1) else x >>> 1

/-- Bits are fed, from the first to the last. -/
def feed (poly x : BitVec w) (bits : List Bool) : BitVec w := bits.foldl (feedBit poly) x

/-- The word of some bits, the first of them the lowest. -/
def word (w : Nat) : List Bool → BitVec w
  | [] => 0#w
  | b :: bits => BitVec.ofNat w b.toNat ^^^ (word w bits <<< 1)

/-- The lowest bits of a number, the lowest first. -/
def bitsOf : Nat → Nat → List Bool
  | 0, _ => []
  | k + 1, n => n.testBit 0 :: bitsOf k (n / 2)

/-- The word of the lowest bits of another. -/
def low (k : Nat) (x : BitVec w) : BitVec w := BitVec.ofNat w (x.toNat % 2 ^ k)

/-! ## Shifts are linear -/

theorem shift_xor (poly x y : BitVec w) : shift poly (x ^^^ y) = shift poly x ^^^ shift poly y := by
  unfold shift
  rw [BitVec.getLsbD_xor, BitVec.ushiftRight_xor_distrib]
  cases x.getLsbD 0 with
  | false =>
    cases y.getLsbD 0 with
    | false => rfl
    | true =>
      simp only [Bool.false_xor, if_true, Bool.false_eq_true, if_false]
      ac_rfl
  | true =>
    cases y.getLsbD 0 with
    | false =>
      simp only [Bool.xor_false, if_true, Bool.false_eq_true, if_false]
      ac_rfl
    | true =>
      -- the polynomial is added twice
      have hcancel : poly ^^^ (x >>> 1) ^^^ (poly ^^^ (y >>> 1)) = (poly ^^^ poly) ^^^ (x >>> 1 ^^^ y >>> 1) := by ac_rfl
      rw [if_pos rfl, if_pos rfl, hcancel, BitVec.xor_self, BitVec.zero_xor]
      rfl

theorem shifts_xor (poly x y : BitVec w) (k : Nat) :
    (shift poly)^[k] (x ^^^ y) = (shift poly)^[k] x ^^^ (shift poly)^[k] y := by
  induction k generalizing x y with
  | zero => rfl
  | succ k ih => rw [Function.iterate_succ_apply, Function.iterate_succ_apply, Function.iterate_succ_apply, shift_xor, ih]

/-- As long as only zeros fall out, the register is shifted and nothing else. -/
theorem shifts_of_low_zero (poly : BitVec w) {x : BitVec w} {k : Nat} (h : ∀ i < k, x.getLsbD i = false) :
    (shift poly)^[k] x = x >>> k := by
  induction k with
  | zero => simp
  | succ k ih =>
    have hzero : (x >>> k).getLsbD 0 = false := by
      rw [BitVec.getLsbD_ushiftRight]
      exact h k (Nat.lt_succ_self k)
    rw [Function.iterate_succ_apply', ih fun i hi => h i (Nat.lt_succ_of_lt hi), shift, hzero, BitVec.shiftRight_add]
    rfl

theorem shift_shiftLeft_one (poly : BitVec w) {x : BitVec w} (h : x.toNat * 2 < 2 ^ w) : shift poly (x <<< 1) = x := by
  have hzero : (x <<< 1).getLsbD 0 = false := by simp
  rw [shift, hzero, if_neg Bool.false_ne_true]
  apply BitVec.eq_of_toNat_eq
  rw [BitVec.toNat_ushiftRight, BitVec.toNat_shiftLeft, Nat.shiftLeft_eq, Nat.pow_one, Nat.mod_eq_of_lt h,
    Nat.shiftRight_eq_div_pow, Nat.pow_one, Nat.mul_div_cancel x.toNat (by decide)]

/-! ## Bits fed at once -/

theorem feedBit_eq (poly x : BitVec w) (b : Bool) (hw : 0 < w) :
    feedBit poly x b = shift poly (x ^^^ BitVec.ofNat w b.toNat) := by
  have hbit : (BitVec.ofNat w b.toNat).getLsbD 0 = b := by
    cases b <;> simp [hw]
  have hrest : BitVec.ofNat w b.toNat >>> 1 = 0#w := by
    apply BitVec.eq_of_toNat_eq
    have hlt : b.toNat % 2 ^ w < 2 := Nat.lt_of_le_of_lt (Nat.mod_le _ _) b.toNat_lt
    rw [BitVec.toNat_ushiftRight, BitVec.toNat_ofNat, Nat.shiftRight_eq_div_pow, Nat.pow_one, Nat.div_eq_of_lt hlt]
    rfl
  rw [shift, BitVec.getLsbD_xor, hbit, BitVec.ushiftRight_xor_distrib, hrest, BitVec.xor_zero, feedBit]

theorem toNat_word (bits : List Bool) : (word w bits).toNat < 2 ^ bits.length := by
  induction bits with
  | nil => simp [word]
  | cons b bits ih =>
    have hpos : 1 ≤ 2 ^ bits.length := Nat.one_le_two_pow
    rw [word, BitVec.toNat_xor, List.length_cons]
    apply Nat.xor_lt_two_pow
    · have hlt : b.toNat % 2 ^ w < 2 := Nat.lt_of_le_of_lt (Nat.mod_le _ _) b.toNat_lt
      rw [BitVec.toNat_ofNat, Nat.pow_succ]
      omega
    · have hle : (word w bits).toNat <<< 1 % 2 ^ w ≤ (word w bits).toNat <<< 1 := Nat.mod_le _ _
      rw [Nat.shiftLeft_eq, Nat.pow_one] at hle
      rw [BitVec.toNat_shiftLeft, Nat.shiftLeft_eq, Nat.pow_one, Nat.pow_succ]
      omega

/-- Feeding bits is adding them to the register, and shifting as often as there are bits. -/
theorem feed_eq (poly x : BitVec w) {bits : List Bool} (h : bits.length ≤ w) :
    feed poly x bits = (shift poly)^[bits.length] (x ^^^ word w bits) := by
  induction bits generalizing x with
  | nil => simp [feed, word]
  | cons b bits ih =>
    have hlt : bits.length < w := h
    have hword : (word w bits).toNat * 2 < 2 ^ w := by
      have hbound := @toNat_word w bits
      have hpow : 2 ^ bits.length * 2 ≤ 2 ^ w := by
        rw [← Nat.pow_succ]
        exact Nat.pow_le_pow_right (by decide) hlt
      omega
    have hrest := ih (feedBit poly x b) (Nat.le_of_lt hlt)
    calc feed poly x (b :: bits) = (shift poly)^[bits.length] (feedBit poly x b ^^^ word w bits) := hrest
      _ = (shift poly)^[bits.length] (shift poly (x ^^^ word w (b :: bits))) := by
        rw [feedBit_eq poly x b (Nat.zero_lt_of_lt hlt), word, ← BitVec.xor_assoc, shift_xor poly (x ^^^ _),
          shift_shiftLeft_one poly hword]
      _ = (shift poly)^[(b :: bits).length] (x ^^^ word w (b :: bits)) := (Function.iterate_succ_apply ..).symm

/-- The word of the lowest bits of a number. -/
theorem word_bitsOf (k n : Nat) : word w (bitsOf k n) = BitVec.ofNat w (n % 2 ^ k) := by
  induction k generalizing n with
  | zero => simp [bitsOf, word, Nat.mod_one]
  | succ k ih =>
    rw [bitsOf, word, ih]
    apply BitVec.eq_of_getLsbD_eq
    intro i hi
    rw [BitVec.getLsbD_xor, BitVec.getLsbD_shiftLeft, BitVec.getLsbD_ofNat, BitVec.getLsbD_ofNat, BitVec.getLsbD_ofNat,
      Nat.testBit_mod_two_pow, Nat.testBit_mod_two_pow]
    cases i with
    | zero => cases n.testBit 0 <;> simp [hi]
    | succ i =>
      have hfirst : (n.testBit 0).toNat.testBit (i + 1) = false := by
        cases n.testBit 0 <;> simp [Nat.testBit_succ]
      rw [hfirst]
      simp [hi, Nat.lt_of_succ_lt hi, Nat.testBit_div_two]

@[simp] theorem length_bitsOf (k n : Nat) : (bitsOf k n).length = k := by
  induction k generalizing n with
  | zero => rfl
  | succ k ih => rw [bitsOf, List.length_cons, ih]

/-- The low bits of a number do not depend on the others. -/
theorem bitsOf_mod (k n : Nat) : bitsOf k (n % 2 ^ k) = bitsOf k n := by
  induction k generalizing n with
  | zero => rfl
  | succ k ih =>
    have hhalf : n % 2 ^ (k + 1) / 2 = n / 2 % 2 ^ k := by rw [Nat.pow_succ, Nat.mul_comm, Nat.mod_mul_right_div_self]
    have hfirst : (n % 2 ^ (k + 1)).testBit 0 = n.testBit 0 := by simp
    rw [bitsOf, bitsOf, hhalf, hfirst, ih]

/-- The bits of a number in two parts. -/
theorem bitsOf_add (j k n : Nat) : bitsOf (j + k) n = bitsOf j n ++ bitsOf k (n / 2 ^ j) := by
  induction j generalizing n with
  | zero => simp [bitsOf]
  | succ j ih =>
    rw [Nat.succ_add, bitsOf, bitsOf, ih, List.cons_append, Nat.div_div_eq_div_mul, Nat.pow_succ, Nat.mul_comm 2]

theorem feed_append (poly x : BitVec w) (bits bits' : List Bool) :
    feed poly x (bits ++ bits') = feed poly (feed poly x bits) bits' := List.foldl_append

/-! ## Shifts looked up -/

/-- The low bits of a register, and the others. -/
theorem low_xor_high (k : Nat) (x : BitVec w) : low k x ^^^ ((x >>> k) <<< k) = x := by
  apply BitVec.eq_of_getLsbD_eq
  intro i hi
  rw [BitVec.getLsbD_xor, low, BitVec.getLsbD_ofNat, BitVec.getLsbD_shiftLeft, BitVec.getLsbD_ushiftRight,
    Nat.testBit_mod_two_pow]
  by_cases hik : i < k
  · simp [hi, hik, BitVec.getLsbD]
  · simp [hi, hik, Nat.add_sub_cancel' (Nat.le_of_not_lt hik)]

/-- Some shifts are those of the low bits, and the other bits moved. -/
theorem shifts_eq_low (poly x : BitVec w) (k : Nat) : (shift poly)^[k] x = (x >>> k) ^^^ (shift poly)^[k] (low k x) := by
  have hhigh : (shift poly)^[k] ((x >>> k) <<< k) = x >>> k := by
    rw [shifts_of_low_zero poly fun i hi => by simp [hi]]
    apply BitVec.eq_of_getLsbD_eq
    intro i hi
    rw [BitVec.getLsbD_ushiftRight, BitVec.getLsbD_shiftLeft, BitVec.getLsbD_ushiftRight, BitVec.getLsbD_ushiftRight]
    by_cases hki : k + i < w
    · simp [hki]
    · simp [hki, BitVec.getLsbD_of_ge x (k + i) (Nat.le_of_not_lt hki)]
  calc (shift poly)^[k] x = (shift poly)^[k] (low k x ^^^ ((x >>> k) <<< k)) := by rw [low_xor_high]
    _ = (x >>> k) ^^^ (shift poly)^[k] (low k x) := by rw [shifts_xor, hhigh, BitVec.xor_comm]

theorem xor_not (x : BitVec w) : x ^^^ ~~~x = BitVec.allOnes w := by
  apply BitVec.eq_of_getLsbD_eq
  intro i hi
  simp [hi]

/-- Fed its own complement, a register loses what was in it. -/
theorem feed_complement (poly x : BitVec w) :
    feed poly x (bitsOf w (~~~x).toNat) = (shift poly)^[w] (BitVec.allOnes w) := by
  have hlen : (bitsOf w (~~~x).toNat).length ≤ w := Nat.le_of_eq (length_bitsOf _ _)
  rw [feed_eq poly x hlen, length_bitsOf, word_bitsOf, Nat.mod_eq_of_lt (~~~x).isLt, BitVec.ofNat_toNat, BitVec.setWidth_eq,
    xor_not]

/-! ## Corrupted bits -/

/-- A register loses nothing in a shift when its polynomial has the highest bit. -/
theorem eq_zero_of_shift {poly : BitVec w} (hpoly : poly.getLsbD (w - 1) = true) {x : BitVec w} (h : shift poly x = 0#w) :
    x = 0#w := by
  have hw := BitVec.lt_of_getLsbD hpoly
  have hlow : x.getLsbD 0 = false := by
    cases hone : x.getLsbD 0 with
    | false => rfl
    | true =>
      -- the highest bit of the polynomial is in what is left
      have htop := congrArg (fun y => y.getLsbD (w - 1)) h
      simp only [shift, hone, if_true, BitVec.getLsbD_xor, hpoly, BitVec.getLsbD_ushiftRight,
        BitVec.getLsbD_of_ge x (1 + (w - 1)) (by omega)] at htop
      simp at htop
  have hhigh : x >>> 1 = 0#w := by
    rwa [shift, hlow, if_neg Bool.false_ne_true] at h
  apply BitVec.eq_of_getLsbD_eq
  intro i hi
  cases i with
  | zero => rw [hlow, BitVec.getLsbD_zero]
  | succ i => rw [Nat.add_comm, ← BitVec.getLsbD_ushiftRight, hhigh]; simp

theorem shift_injective {poly : BitVec w} (hpoly : poly.getLsbD (w - 1) = true) : Function.Injective (shift poly) := by
  intro x y h
  have hzero : shift poly (x ^^^ y) = 0#w := by rw [shift_xor, h, BitVec.xor_self]
  have hxor := eq_zero_of_shift hpoly hzero
  calc x = x ^^^ (y ^^^ y) := by rw [BitVec.xor_self, BitVec.xor_zero]
    _ = y := by rw [← BitVec.xor_assoc, hxor, BitVec.zero_xor]

theorem xor_left_injective (x : BitVec w) : Function.Injective (x ^^^ ·) := by
  intro y z h
  calc y = x ^^^ (x ^^^ y) := by rw [← BitVec.xor_assoc, BitVec.xor_self, BitVec.zero_xor]
    _ = x ^^^ (x ^^^ z) := congrArg _ h
    _ = z := by rw [← BitVec.xor_assoc, BitVec.xor_self, BitVec.zero_xor]

/-- So the same bits are fed to two registers with two results. -/
theorem feed_injective {poly : BitVec w} (hpoly : poly.getLsbD (w - 1) = true) (bits : List Bool) :
    Function.Injective fun x => feed poly x bits := by
  have hw := BitVec.lt_of_getLsbD hpoly
  induction bits with
  | nil => exact fun _ _ h => h
  | cons b bits ih =>
    intro x y h
    have hstep : feedBit poly x b = feedBit poly y b := ih h
    rw [feedBit_eq poly x b (by omega), feedBit_eq poly y b (by omega)] at hstep
    have hxor := shift_injective hpoly hstep
    rw [BitVec.xor_comm x, BitVec.xor_comm y] at hxor
    exact xor_left_injective _ hxor

theorem getLsbD_word (bits : List Bool) {i : Nat} (hi : i < w) : (word w bits).getLsbD i = bits.getD i false := by
  induction bits generalizing i with
  | nil => simp [word]
  | cons b bits ih =>
    rw [word, BitVec.getLsbD_xor, BitVec.getLsbD_shiftLeft, BitVec.getLsbD_ofNat]
    cases i with
    | zero => cases b <;> simp [hi]
    | succ i =>
      have hfirst : b.toNat.testBit (i + 1) = false := by cases b <;> simp [Nat.testBit_succ]
      have hrest := ih (Nat.lt_of_succ_lt hi)
      rw [hfirst, List.getD_cons_succ, ← hrest]
      simp [hi]

theorem eq_of_word_eq {bits bits' : List Bool} (hlen : bits.length = bits'.length) (hw : bits.length ≤ w)
    (h : word w bits = word w bits') : bits = bits' := by
  apply List.ext_getElem hlen
  intro i hi hi'
  have hbit := congrArg (fun x => x.getLsbD i) h
  simpa [getLsbD_word _ (Nat.lt_of_lt_of_le hi hw), List.getElem?_eq_getElem hi, List.getElem?_eq_getElem hi'] using hbit

/-- Bits of which no more than the register has places were changed, one after the other: the register shows it. -/
theorem feed_ne_of_burst {poly : BitVec w} (hpoly : poly.getLsbD (w - 1) = true) (x : BitVec w) (pre post : List Bool)
    {burst burst' : List Bool} (hlen : burst.length = burst'.length) (hw : burst.length ≤ w) (hne : burst ≠ burst') :
    feed poly x (pre ++ burst ++ post) ≠ feed poly x (pre ++ burst' ++ post) := by
  intro h
  rw [feed_append, feed_append poly x (pre ++ burst')] at h
  have hburst := feed_injective hpoly post h
  simp only [feed_append, feed_eq poly _ hw, feed_eq poly _ (hlen ▸ hw), ← hlen] at hburst
  have hword := xor_left_injective _ ((shift_injective hpoly).iterate _ hburst)
  exact hne (eq_of_word_eq hlen hw hword)

/-- Feeding is linear. -/
theorem feed_xor (poly x y : BitVec w) {bits bits' : List Bool} (hlen : bits.length = bits'.length) :
    feed poly (x ^^^ y) (List.zipWith xor bits bits') = feed poly x bits ^^^ feed poly y bits' := by
  induction bits generalizing x y bits' with
  | nil =>
    rw [List.eq_nil_of_length_eq_zero hlen.symm]
    rfl
  | cons b bits ih =>
    cases bits' with
    | nil => cases hlen
    | cons b' bits' =>
      have hstep : feedBit poly (x ^^^ y) (b ^^ b') = feedBit poly x b ^^^ feedBit poly y b' := by
        rcases Nat.eq_zero_or_pos w with rfl | hw
        · exact BitVec.eq_of_zero_length rfl
        · have hbit : BitVec.ofNat w (b ^^ b').toNat = BitVec.ofNat w b.toNat ^^^ BitVec.ofNat w b'.toNat := by
            cases b <;> cases b' <;> simp
          rw [feedBit_eq _ _ _ hw, feedBit_eq _ _ _ hw, feedBit_eq _ _ _ hw, ← shift_xor, hbit]
          congr 1
          ac_rfl
      calc feed poly (x ^^^ y) (List.zipWith xor (b :: bits) (b' :: bits'))
          = feed poly (feedBit poly x b ^^^ feedBit poly y b') (List.zipWith xor bits bits') := congrArg (feed poly · _) hstep
        _ = feed poly x (b :: bits) ^^^ feed poly y (b' :: bits') := ih _ _ (Nat.succ.inj hlen)

/-- Changes that leave nothing in an empty register are not seen in any. -/
theorem feed_unseen {poly : BitVec w} (x : BitVec w) (pre post : List Bool) {bits change : List Bool}
    (hlen : bits.length = change.length) (hchange : feed poly 0#w change = 0#w) :
    feed poly x (pre ++ List.zipWith xor bits change ++ post) = feed poly x (pre ++ bits ++ post) := by
  have hsame := feed_xor poly (feed poly x pre) 0#w hlen
  rw [hchange, BitVec.xor_zero, BitVec.xor_zero] at hsame
  rw [feed_append, feed_append, hsame, feed_append, feed_append]

theorem bitsOf_xor (k m n : Nat) : bitsOf k (m ^^^ n) = List.zipWith xor (bitsOf k m) (bitsOf k n) := by
  induction k generalizing m n with
  | zero => rfl
  | succ k ih => rw [bitsOf, bitsOf, bitsOf, Nat.xor_div_two, Nat.testBit_xor, ih, List.zipWith_cons_cons]

/-- The low bits of a number determine it when it has no others. -/
theorem eq_of_bitsOf_eq {k m n : Nat} (hm : m < 2 ^ k) (hn : n < 2 ^ k) (h : bitsOf k m = bitsOf k n) : m = n := by
  have hword := congrArg (word k) h
  rw [word_bitsOf, word_bitsOf, Nat.mod_eq_of_lt hm, Nat.mod_eq_of_lt hn] at hword
  simpa [Nat.mod_eq_of_lt hm, Nat.mod_eq_of_lt hn] using congrArg BitVec.toNat hword

end ShiftRegister
