import Mathlib.Computability.RegularExpressions
import NetworkingFramework.Lib.Wire

/-!
# Patterns

Regular expressions over characters of one byte: bracket expressions, and repetitions of patterns whose words are known.
-/

namespace Pattern

open Wire

/-- A bracket expression: one of the characters with a property. -/
def oneOf (p : UInt8 → Bool) : RegularExpression UInt8 :=
  (((List.range 256).map UInt8.ofNat).filter p).foldr (fun c r => .char c + r) 0

theorem mem_sum_char_iff (cs w : Bytes) :
    w ∈ (cs.foldr (fun c r => .char c + r) (0 : RegularExpression UInt8)).matches' ↔ ∃ c ∈ cs, w = [c] := by
  induction cs with
  | nil => simp [RegularExpression.matches'_zero, Language.notMem_zero]
  | cons c cs ih =>
    rw [List.foldr_cons, RegularExpression.matches'_add, Language.mem_add, ih, RegularExpression.matches'_char]
    simp only [List.mem_cons, exists_eq_or_imp]
    rfl

theorem mem_oneOf_iff (p : UInt8 → Bool) (w : Bytes) : w ∈ (oneOf p).matches' ↔ ∃ c, p c = true ∧ w = [c] := by
  rw [oneOf, mem_sum_char_iff]
  have hall (c : UInt8) : c ∈ (List.range 256).map UInt8.ofNat :=
    List.mem_map.mpr ⟨c.toNat, List.mem_range.mpr c.toNat_lt, UInt8.ofNat_toNat⟩
  simp only [List.mem_filter, hall, true_and]

/-- Patterns one after the other, whose words are known. -/
theorem mem_mul_iff_of_words {α β γ : Type} {P Q : RegularExpression α} {f : β → List α} {g : γ → List α}
    (hP : ∀ w, w ∈ P.matches' ↔ ∃ b, w = f b) (hQ : ∀ w, w ∈ Q.matches' ↔ ∃ c, w = g c) (w : List α) :
    w ∈ (P * Q).matches' ↔ ∃ bc : β × γ, w = f bc.1 ++ g bc.2 := by
  rw [RegularExpression.matches'_mul, Language.mem_mul]
  constructor
  · intro h
    obtain ⟨u, hu, v, hv, rfl⟩ := h
    obtain ⟨b, rfl⟩ := (hP u).mp hu
    obtain ⟨c, rfl⟩ := (hQ v).mp hv
    exact ⟨(b, c), rfl⟩
  · intro h
    obtain ⟨⟨b, c⟩, rfl⟩ := h
    exact ⟨f b, (hP _).mpr ⟨b, rfl⟩, g c, (hQ _).mpr ⟨c, rfl⟩, rfl⟩

/-- A pattern some times in a row. -/
theorem mem_pow_iff_of_words {α β : Type} {P : RegularExpression α} {f : β → List α}
    (hP : ∀ w, w ∈ P.matches' ↔ ∃ b, w = f b) (n : Nat) (w : List α) :
    w ∈ (P ^ n).matches' ↔ ∃ bs : List β, bs.length = n ∧ w = bs.flatMap f := by
  rw [RegularExpression.matches'_pow, Language.mem_pow]
  constructor
  · intro h
    obtain ⟨ws, rfl, hlength, hws⟩ := h
    obtain ⟨bs, rfl⟩ : ∃ bs : List β, ws = bs.map f := by
      induction ws generalizing n with
      | nil => exact ⟨[], rfl⟩
      | cons w ws ih =>
        obtain ⟨b, rfl⟩ := (hP w).mp (hws w List.mem_cons_self)
        obtain ⟨bs, rfl⟩ := ih ws.length rfl fun v hv => hws v (List.mem_cons_of_mem _ hv)
        exact ⟨b :: bs, rfl⟩
    rw [List.length_map] at hlength
    exact ⟨bs, hlength, List.flatMap_def.symm⟩
  · intro h
    obtain ⟨bs, hlength, rfl⟩ := h
    refine ⟨bs.map f, List.flatMap_def, by rw [List.length_map, hlength], fun w hw => ?_⟩
    obtain ⟨b, -, rfl⟩ := List.mem_map.mp hw
    exact (hP _).mpr ⟨b, rfl⟩

end Pattern
