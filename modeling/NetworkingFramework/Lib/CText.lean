import Mathlib.Algebra.Group.Nat.Defs
import Mathlib.Data.List.Induction
import Mathlib.Data.List.TakeWhile
import NetworkingFramework.Lib.Wire

/-!
# Numbers in C strings

Strings of characters of one byte each, and how the standard library reads numbers in them and writes them. A number is read from
its subject sequence: white space, a sign and digits, what follows the digits being left.
-/

namespace CText

open Wire

/-! ## Characters -/

/-- `isspace` in the C locale. -/
def isSpace (c : UInt8) : Bool := c.toNat = 32 ∨ (9 ≤ c.toNat ∧ c.toNat ≤ 13)

/-- A plus or a minus. -/
def isSign (c : UInt8) : Bool := c = '+'.toUInt8 ∨ c = '-'.toUInt8

/-- The value of a digit, of any base up to 36. -/
def digitValue (c : UInt8) : Option Nat :=
  if 48 ≤ c.toNat ∧ c.toNat ≤ 57 then some (c.toNat - 48)
  else if 97 ≤ c.toNat ∧ c.toNat ≤ 122 then some (c.toNat - 87)
  else if 65 ≤ c.toNat ∧ c.toNat ≤ 90 then some (c.toNat - 55)
  else none

/-- A digit of the base. -/
def isDigit (base : Nat) (c : UInt8) : Bool := (digitValue c).any (· < base)

/-- The number that some digits denote. -/
def numeral (base : Nat) (digits : Bytes) : Nat := digits.foldl (fun n c => n * base + (digitValue c).getD 0) 0

/-- A C string: the characters before the first that is null. -/
def cStr (s : Bytes) : Bytes := s.takeWhile (· ≠ 0)

/-! ## Reading a number -/

/-- What is read: whether there was a minus, the number behind it, and what follows. -/
structure Subject where
  negative : Bool
  value : Nat
  rest : Bytes
  deriving DecidableEq

/-- A prefix `0x` is skipped, if a digit comes after it. -/
def skipHexPrefix : Bytes → Bytes
  | zero :: x :: d :: s =>
    if zero = '0'.toUInt8 ∧ (x = 'x'.toUInt8 ∨ x = 'X'.toUInt8) ∧ isDigit 16 d then d :: s else zero :: x :: d :: s
  | s => s

/-- A sign is skipped. -/
def skipSign : Bytes → Bytes
  | c :: s => if isSign c then s else c :: s
  | [] => []

/-- The subject sequence of `strtoul`, if there are digits in it. -/
def subject (base : Nat) (s : Bytes) : Option Subject :=
  let s := s.dropWhile isSpace
  let unsigned := skipSign s
  let number := if base = 16 then skipHexPrefix unsigned else unsigned
  let digits := number.takeWhile (isDigit base)
  if digits = [] then none
  else some ⟨s.head? = some '-'.toUInt8, numeral base digits, number.dropWhile (isDigit base)⟩

/-- `std::stoul`: it throws when there is no number, or one that an `unsigned long` does not hold. A minus negates the result in
the type. -/
def stoul (s : Bytes) (base : Nat) : Option Nat :=
  match subject base s with
  | none => none
  | some n => if n.value < 2 ^ 64 then some (if n.negative then (2 ^ 64 - n.value) % 2 ^ 64 else n.value) else none

/-- The conversion `%u` of `sscanf`: the number and what follows it, if there is one. It has no value when an `unsigned int` does
not hold the number. -/
def scanUnsigned (s : Bytes) : Except Fault (Option (UInt32 × Bytes)) :=
  match subject 10 s with
  | none => .ok none
  | some n =>
    if n.value < 2 ^ 32 then .ok (some (if n.negative then -UInt32.ofNat n.value else UInt32.ofNat n.value, n.rest))
    else .error .unrepresentable

/-! ## Writing a number -/

/-- A number in a base, in small letters and without leading zeros. -/
def printNat (base n : Nat) : Bytes := (Nat.toDigits base n).map Char.toUInt8

/-- What `snprintf` writes to a buffer of a size: as much of the text as there is room for, and a null character. -/
def snprintf (size : Nat) (text : Bytes) : Bytes := text.take (size - 1) ++ [0]

/-- Strings with a separator between them. -/
def joined (sep : Bytes) : List Bytes → Bytes
  | [] => []
  | s :: ss => s ++ ss.flatMap (sep ++ ·)

/-! ## Digits -/

theorem isDigit_iff {base : Nat} {c : UInt8} : isDigit base c = true ↔ ∃ v, digitValue c = some v ∧ v < base := by
  rw [isDigit, Option.any_eq_true]
  simp

/-- No white space, sign or null is a digit. -/
theorem not_isDigit_of_isSpace {base : Nat} {c : UInt8} (h : isSpace c = true) : isDigit base c = false := by
  have hc := of_decide_eq_true h
  have hnone : digitValue c = none := by
    rw [digitValue, if_neg (by omega), if_neg (by omega), if_neg (by omega)]
  rw [isDigit, hnone]
  rfl

theorem toNat_of_isSign {c : UInt8} (h : isSign c = true) : c.toNat = 43 ∨ c.toNat = 45 := by
  rcases of_decide_eq_true h with rfl | rfl
  · exact .inl rfl
  · exact .inr rfl

theorem not_isDigit_of_isSign {base : Nat} {c : UInt8} (h : isSign c = true) : isDigit base c = false := by
  have hc := toNat_of_isSign h
  have hnone : digitValue c = none := by
    rw [digitValue, if_neg (by omega), if_neg (by omega), if_neg (by omega)]
  rw [isDigit, hnone]
  rfl

theorem not_isSpace_of_isSign {c : UInt8} (h : isSign c = true) : isSpace c = false := by
  have hc := toNat_of_isSign h
  exact decide_eq_false (by omega)

theorem not_isSpace_of_isDigit {base : Nat} {c : UInt8} (h : isDigit base c = true) : isSpace c = false := by
  refine Bool.eq_false_iff.mpr fun hspace => ?_
  rw [not_isDigit_of_isSpace hspace] at h
  exact Bool.false_ne_true h

theorem not_isSign_of_isDigit {base : Nat} {c : UInt8} (h : isDigit base c = true) : isSign c = false := by
  refine Bool.eq_false_iff.mpr fun hsign => ?_
  rw [not_isDigit_of_isSign hsign] at h
  exact Bool.false_ne_true h

theorem numeral_concat (base : Nat) (digits : Bytes) (c : UInt8) :
    numeral base (digits ++ [c]) = numeral base digits * base + (digitValue c).getD 0 := by
  rw [numeral, List.foldl_append]
  rfl

theorem numeral_lt (base : Nat) {digits : Bytes} (h : ∀ c ∈ digits, isDigit base c = true) :
    numeral base digits < base ^ digits.length := by
  induction digits using List.reverseRecOn with
  | nil => exact Nat.one_pos
  | append_singleton digits c ih =>
    obtain ⟨v, hv, hlt⟩ := isDigit_iff.mp (h c (List.mem_append_right _ List.mem_cons_self))
    have hinit := ih fun d hd => h d (List.mem_append_left _ hd)
    rw [numeral_concat, hv, Option.getD_some, List.length_append, List.length_singleton, Nat.pow_succ]
    calc numeral base digits * base + v < numeral base digits * base + base := Nat.add_lt_add_left hlt _
      _ = (numeral base digits + 1) * base := (Nat.succ_mul _ _).symm
      _ ≤ base ^ digits.length * base := Nat.mul_le_mul_right _ hinit

/-- What is written for a digit is read as one. -/
theorem digitValue_digitChar : ∀ d < 16, digitValue (Nat.digitChar d).toUInt8 = some d := by decide

theorem isDigit_digitChar {base d : Nat} (hbase : base ≤ 16) (h : d < base) : isDigit base (Nat.digitChar d).toUInt8 = true :=
  isDigit_iff.mpr ⟨d, digitValue_digitChar d (Nat.lt_of_lt_of_le h hbase), h⟩

theorem printNat_of_lt {base n : Nat} (h : n < base) : printNat base n = [(Nat.digitChar n).toUInt8] := by
  rw [printNat, Nat.toDigits_of_lt_base h]
  rfl

theorem printNat_of_le {base n : Nat} (hbase : 1 < base) (h : base ≤ n) :
    printNat base n = printNat base (n / base) ++ [(Nat.digitChar (n % base)).toUInt8] := by
  rw [printNat, Nat.toDigits_of_base_le hbase h, List.map_append]
  rfl

theorem printNat_ne_nil (base n : Nat) : printNat base n ≠ [] := mt List.map_eq_nil_iff.mp Nat.toDigits_ne_nil

section
variable {base : Nat} (hbase : 1 < base) (hbase' : base ≤ 16)
include hbase hbase'

/-- A number is written in digits. -/
theorem isDigit_of_mem_printNat {n : Nat} {c : UInt8} (h : c ∈ printNat base n) : isDigit base c = true := by
  induction n using Nat.strongRecOn with
  | ind n ih =>
    by_cases hlt : n < base
    · rw [printNat_of_lt hlt, List.mem_singleton] at h
      rw [h]
      exact isDigit_digitChar hbase' hlt
    · have hle := Nat.le_of_not_lt hlt
      rw [printNat_of_le hbase hle, List.mem_append, List.mem_singleton] at h
      rcases h with h | rfl
      · exact ih (n / base) (Nat.div_lt_self (by omega) hbase) h
      · exact isDigit_digitChar hbase' (Nat.mod_lt n (by omega))

/-- A number that is written is read back. -/
theorem numeral_printNat (n : Nat) : numeral base (printNat base n) = n := by
  induction n using Nat.strongRecOn with
  | ind n ih =>
    by_cases hlt : n < base
    · rw [printNat_of_lt hlt, numeral, List.foldl_cons, digitValue_digitChar n (Nat.lt_of_lt_of_le hlt hbase')]
      simp
    · have hle := Nat.le_of_not_lt hlt
      have hmod : n % base < base := Nat.mod_lt n (by omega)
      rw [printNat_of_le hbase hle, numeral_concat, ih (n / base) (Nat.div_lt_self (by omega) hbase),
        digitValue_digitChar _ (Nat.lt_of_lt_of_le hmod hbase')]
      exact Nat.div_add_mod' n base

end

/-- Two digits denote a number of two digits. -/
theorem numeral_pair {base n : Nat} (hbase : base ≤ 16) (h : n < base * base) :
    numeral base [(Nat.digitChar (n / base)).toUInt8, (Nat.digitChar (n % base)).toUInt8] = n := by
  have hpos : 0 < base := Nat.pos_of_mul_pos_left (Nat.zero_lt_of_lt h)
  have hhigh : n / base < 16 := Nat.lt_of_lt_of_le (Nat.div_lt_of_lt_mul h) hbase
  have hlow : n % base < 16 := Nat.lt_of_lt_of_le (Nat.mod_lt n hpos) hbase
  simp only [numeral, List.foldl_cons, List.foldl_nil, digitValue_digitChar _ hhigh, digitValue_digitChar _ hlow, Option.getD_some,
    Nat.zero_mul, Nat.zero_add]
  exact Nat.div_add_mod' n base

/-- A text that there is room for, without a null character, is the C string in the buffer. -/
theorem cStr_snprintf {size : Nat} {text : Bytes} (hroom : text.length < size) (h : ∀ c ∈ text, c ≠ 0) :
    cStr (snprintf size text) = text := by
  have htext : ∀ c ∈ text, decide (c ≠ 0) = true := fun c hc => decide_eq_true (h c hc)
  rw [snprintf, List.take_of_length_le (by omega), cStr, List.takeWhile_append_of_pos htext, List.takeWhile_cons_of_neg (by simp),
    List.append_nil]

/-! ## Subject sequences -/

/-- A number as it is read: white space, a sign, and digits; whether it is negative, and its absolute value. -/
inductive NumberText (base : Nat) : Bytes → Bool → Nat → Prop where
  | unsigned {spaces digits : Bytes} (hspaces : ∀ c ∈ spaces, isSpace c = true) (hne : digits ≠ [])
      (hdigits : ∀ c ∈ digits, isDigit base c = true) : NumberText base (spaces ++ digits) false (numeral base digits)
  | signed {spaces digits : Bytes} {c : UInt8} (hspaces : ∀ c ∈ spaces, isSpace c = true) (hsign : isSign c = true)
      (hne : digits ≠ []) (hdigits : ∀ c ∈ digits, isDigit base c = true) :
      NumberText base (spaces ++ c :: digits) (c = '-'.toUInt8) (numeral base digits)

/-- The string does not begin with a digit. -/
def NoDigit (base : Nat) (s : Bytes) : Prop := ∀ c ∈ s.head?, isDigit base c = false

instance (base : Nat) (s : Bytes) : Decidable (NoDigit base s) := inferInstanceAs (Decidable (∀ c ∈ s.head?, _))

theorem span_digits {base : Nat} {digits rest : Bytes} (hdigits : ∀ c ∈ digits, isDigit base c = true) (hrest : NoDigit base rest) :
    (digits ++ rest).takeWhile (isDigit base) = digits ∧ (digits ++ rest).dropWhile (isDigit base) = rest := by
  have hnone : rest.takeWhile (isDigit base) = [] ∧ rest.dropWhile (isDigit base) = rest := by
    cases rest with
    | nil => exact ⟨rfl, rfl⟩
    | cons c rest =>
      have hc : ¬isDigit base c = true := by rw [hrest c rfl]; exact Bool.false_ne_true
      exact ⟨List.takeWhile_cons_of_neg hc, List.dropWhile_cons_of_neg hc⟩
  rw [List.takeWhile_append_of_pos hdigits, List.dropWhile_append_of_pos hdigits, hnone.1, hnone.2, List.append_nil]
  exact ⟨rfl, rfl⟩

/-- A number is read up to where its digits end. In base 16 this holds when a prefix is not skipped. -/
theorem subject_numberText {base : Nat} {w rest : Bytes} {negative : Bool} {value : Nat} (h : NumberText base w negative value)
    (hrest : NoDigit base rest) (hhex : base = 16 → ∀ s, s <:+ w ++ rest → skipHexPrefix s = s) :
    subject base (w ++ rest) = some ⟨negative, value, rest⟩ := by
  have hskip {s : Bytes} (hs : s <:+ w ++ rest) : (if base = 16 then skipHexPrefix s else s) = s := by
    split
    · rename_i hbase
      exact hhex hbase s hs
    · rfl
  cases h with
  | @unsigned spaces digits hspaces hne hdigits =>
    obtain ⟨d, ds, rfl⟩ := List.exists_cons_of_ne_nil hne
    have hd := hdigits d List.mem_cons_self
    have hsign := not_isSign_of_isDigit hd
    have hstart : (spaces ++ d :: ds ++ rest).dropWhile isSpace = d :: (ds ++ rest) := by
      rw [List.append_assoc, List.dropWhile_append_of_pos hspaces]
      exact List.dropWhile_cons_of_neg (by rw [not_isSpace_of_isDigit hd]; exact Bool.false_ne_true)
    have hunsigned : skipSign (d :: (ds ++ rest)) = d :: (ds ++ rest) := by
      rw [skipSign, hsign, if_neg Bool.false_ne_true]
    have hminus : d ≠ '-'.toUInt8 := by
      rintro rfl
      exact Bool.false_ne_true hsign.symm
    have hsuffix : d :: (ds ++ rest) <:+ spaces ++ d :: ds ++ rest := ⟨spaces, by simp⟩
    obtain ⟨htake, hdrop⟩ := span_digits hdigits hrest
    rw [List.cons_append] at htake hdrop
    simp only [subject, hstart, hunsigned, hskip hsuffix, htake, hdrop, if_neg hne, List.head?_cons, Option.some.injEq, hminus]
    rfl
  | @signed spaces digits c hspaces hsign hne hdigits =>
    have hstart : (spaces ++ c :: digits ++ rest).dropWhile isSpace = c :: (digits ++ rest) := by
      rw [List.append_assoc, List.dropWhile_append_of_pos hspaces]
      exact List.dropWhile_cons_of_neg (by rw [not_isSpace_of_isSign hsign]; exact Bool.false_ne_true)
    have hunsigned : skipSign (c :: (digits ++ rest)) = digits ++ rest := by rw [skipSign, if_pos hsign]
    have hsuffix : digits ++ rest <:+ spaces ++ c :: digits ++ rest := ⟨spaces ++ [c], by simp⟩
    obtain ⟨htake, hdrop⟩ := span_digits hdigits hrest
    simp only [subject, hstart, hunsigned, hskip hsuffix, htake, hdrop, if_neg hne, List.head?_cons, Option.some.injEq]

theorem noDigit_dropWhile (base : Nat) (s : Bytes) : NoDigit base (s.dropWhile (isDigit base)) := by
  intro c hc
  have hhead := List.head?_dropWhile_not (isDigit base) s
  rw [Option.mem_def.mp hc] at hhead
  exact hhead

/-- What is read is a number. -/
theorem numberText_of_subject {base : Nat} {s : Bytes} {n : Subject} (h : subject base s = some n)
    (hhex : base = 16 → ∀ t, t <:+ s → skipHexPrefix t = t) :
    ∃ w, s = w ++ n.rest ∧ NumberText base w n.negative n.value ∧ NoDigit base n.rest := by
  have hspaces : ∀ c ∈ s.takeWhile isSpace, isSpace c = true := fun c hc => List.mem_takeWhile_imp hc
  have hsplit := List.takeWhile_append_dropWhile (p := isSpace) (l := s)
  have hskip {t : Bytes} (ht : t <:+ s) : (if base = 16 then skipHexPrefix t else t) = t := by
    split
    · rename_i hbase
      exact hhex hbase t ht
    · rfl
  unfold subject at h
  cases hstart : s.dropWhile isSpace with
  | nil =>
    rw [hstart] at h hsplit
    simp [skipSign, skipHexPrefix] at h
  | cons c t =>
    rw [hstart] at h hsplit
    have hsuffix : c :: t <:+ s := ⟨_, hsplit⟩
    by_cases hsign : isSign c = true
    · have hunsigned : skipSign (c :: t) = t := by rw [skipSign, if_pos hsign]
      simp only [hunsigned, hskip ((List.suffix_cons c t).trans hsuffix)] at h
      by_cases hne : t.takeWhile (isDigit base) = []
      · rw [if_pos hne] at h
        nomatch h
      · rw [if_neg hne] at h
        obtain rfl := Option.some.inj h
        have hw : s = s.takeWhile isSpace ++ c :: t.takeWhile (isDigit base) ++ t.dropWhile (isDigit base) := by
          rw [List.append_assoc, List.cons_append, List.takeWhile_append_dropWhile, hsplit]
        refine ⟨_, hw, ?_, noDigit_dropWhile base t⟩
        simp only [List.head?_cons, Option.some.injEq]
        exact .signed hspaces hsign hne fun d hd => List.mem_takeWhile_imp hd
    · have hunsigned : skipSign (c :: t) = c :: t := by rw [skipSign, if_neg hsign]
      simp only [hunsigned, hskip hsuffix] at h
      by_cases hne : (c :: t).takeWhile (isDigit base) = []
      · rw [if_pos hne] at h
        nomatch h
      · rw [if_neg hne] at h
        obtain rfl := Option.some.inj h
        have hw : s = s.takeWhile isSpace ++ (c :: t).takeWhile (isDigit base) ++ (c :: t).dropWhile (isDigit base) := by
          rw [List.append_assoc, List.takeWhile_append_dropWhile, hsplit]
        have hminus : c ≠ '-'.toUInt8 := by
          rintro rfl
          exact hsign rfl
        refine ⟨_, hw, ?_, noDigit_dropWhile base (c :: t)⟩
        simp only [List.head?_cons, Option.some.injEq, hminus, decide_false]
        exact .unsigned hspaces hne fun d hd => List.mem_takeWhile_imp hd

/-- There is no prefix in a string without its letter. -/
theorem skipHexPrefix_of_not_mem {s : Bytes} (h : ∀ c ∈ s, c ≠ 'x'.toUInt8 ∧ c ≠ 'X'.toUInt8) : skipHexPrefix s = s := by
  match s, h with
  | [], _ => rfl
  | [_], _ => rfl
  | [_, _], _ => rfl
  | zero :: x :: d :: rest, h =>
    have hx := h x (by simp)
    have hskip : ¬(zero = '0'.toUInt8 ∧ (x = 'x'.toUInt8 ∨ x = 'X'.toUInt8) ∧ isDigit 16 d = true) := by
      intro h
      rcases h with ⟨-, hx' | hx', -⟩
      · exact hx.1 hx'
      · exact hx.2 hx'
    rw [skipHexPrefix, if_neg hskip]

/-- Hexadecimal digits are read up to what follows them. -/
theorem stoul_digits {digits rest : Bytes} (hne : digits ≠ []) (hdigits : ∀ c ∈ digits, isDigit 16 c = true)
    (hvalue : numeral 16 digits < 2 ^ 64) (hrest : NoDigit 16 rest)
    (hhex : ∀ c ∈ digits ++ rest, c ≠ 'x'.toUInt8 ∧ c ≠ 'X'.toUInt8) : stoul (digits ++ rest) 16 = some (numeral 16 digits) := by
  have htext : NumberText 16 ([] ++ digits) false (numeral 16 digits) := .unsigned (by simp) hne hdigits
  have hsubject := subject_numberText htext hrest fun _ s hs => skipHexPrefix_of_not_mem fun c hc => hhex c (hs.subset hc)
  rw [List.nil_append] at hsubject
  rw [stoul, hsubject]
  exact if_pos hvalue

end CText
