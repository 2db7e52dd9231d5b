import NetworkingFramework.Lib.Wire

/-!
# Loops that may not end

A computation with loops is given a number of iterations for each. It computes a result when it returns it with every number
from some on.
-/

namespace Wire

variable {α β : Type}

/-- What a computation returns when its loops are given enough iterations. -/
def Computes (f : Nat → Except Fault α) (a : α) : Prop := ∃ enough, ∀ fuel, enough ≤ fuel → f fuel = .ok a

/-- More iterations do not change what is returned. -/
def Steady (f : Nat → Except Fault α) : Prop := ∀ {fuel fuel' : Nat} {a : α}, fuel ≤ fuel' → f fuel = .ok a → f fuel' = .ok a

/-- It is enough that one more iteration does not. -/
theorem Steady.of_succ {f : Nat → Except Fault α} (h : ∀ fuel a, f fuel = .ok a → f (fuel + 1) = .ok a) : Steady f := by
  intro fuel fuel' a hle hok
  induction hle with
  | refl => exact hok
  | step _ ih => exact h _ a ih

/-- A computation that does the same with every number of iterations from some on. -/
theorem computes_iff_of_forall {f : Nat → Except Fault α} {r : Except Fault α} {enough : Nat}
    (h : ∀ fuel, enough ≤ fuel → f fuel = r)
    (a : α) : Computes f a ↔ r = .ok a := by
  constructor
  · rintro ⟨enough', h'⟩
    exact (h (max enough enough') (Nat.le_max_left ..)).symm.trans (h' _ (Nat.le_max_right ..))
  · intro hr
    exact ⟨enough, fun fuel hfuel => (h fuel hfuel).trans hr⟩

namespace Computes

variable {f : Nat → Except Fault α} {a a' : α}

theorem of_forall (h : ∀ fuel, f fuel = .ok a) : Computes f a := ⟨0, fun fuel _ => h fuel⟩

/-- There is one result at most. -/
theorem unique (h : Computes f a) (h' : Computes f a') : a = a' := by
  obtain ⟨enough, h⟩ := h
  obtain ⟨enough', h'⟩ := h'
  have heq := (h (max enough enough') (Nat.le_max_left ..)).symm.trans (h' _ (Nat.le_max_right ..))
  exact Except.ok.inj heq

/-- A result is returned with some number of iterations. -/
theorem exists_fuel (h : Computes f a) : ∃ fuel, f fuel = .ok a := by
  obtain ⟨enough, h⟩ := h
  exact ⟨enough, h enough (Nat.le_refl _)⟩

/-- What is returned with some number of iterations is the result. -/
theorem eq_of_ok (h : Computes f a) (hf : Steady f) {fuel : Nat} (hok : f fuel = .ok a') : a' = a := by
  obtain ⟨enough, h⟩ := h
  have heq := (hf (Nat.le_max_left fuel enough) hok).symm.trans (h _ (Nat.le_max_right ..))
  exact Except.ok.inj heq

/-- A function of the result. -/
theorem map (h : Computes f a) (g : α → β) : Computes (fun fuel => (f fuel).map g) (g a) := by
  obtain ⟨enough, h⟩ := h
  refine ⟨enough, fun fuel hle => ?_⟩
  change (f fuel).map g = .ok (g a)
  rw [h fuel hle, map_ok]

end Computes
end Wire
