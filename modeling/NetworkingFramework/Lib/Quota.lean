import Mathlib.Data.List.Nodup
import Mathlib.Logic.Function.Basic

/-!
# Quotas

Keys are counted as they come, each with a quota of its own. A key is reached when its counter comes to its quota; this happens
once at most, whatever it was when the counting began.
-/

namespace Quota

variable {κ : Type} [DecidableEq κ]

/-- The keys that come to their quotas, in the order in which they do. -/
def reached (quota : κ → Nat) (tally : κ → Nat) : List κ → List κ
  | [] => []
  | k :: ks =>
    let rest := reached quota (Function.update tally k (tally k + 1)) ks
    if tally k + 1 = quota k then k :: rest else rest

variable {quota : κ → Nat}

/-- A key is reached when its counter begins below its quota, and does not stay below. -/
theorem mem_reached (tally : κ → Nat) (ks : List κ) (j : κ) :
    j ∈ reached quota tally ks ↔ tally j < quota j ∧ quota j ≤ tally j + ks.count j := by
  induction ks generalizing tally with
  | nil =>
    rw [reached, List.count_nil]
    exact iff_of_false List.not_mem_nil (by omega)
  | cons k ks ih =>
    unfold reached
    by_cases hj : j = k
    · subst hj
      have hrest := ih (Function.update tally j (tally j + 1))
      rw [Function.update_self] at hrest
      rw [List.count_cons_self]
      split
      · rename_i hquota
        exact iff_of_true List.mem_cons_self (by omega)
      · rename_i hquota
        rw [hrest]
        omega
    · have hrest := ih (Function.update tally k (tally k + 1))
      rw [Function.update_of_ne hj] at hrest
      rw [List.count_cons_of_ne (Ne.symm hj)]
      split
      · rw [List.mem_cons, hrest, or_iff_right hj]
      · exact hrest

/-- No key is reached twice. -/
theorem nodup_reached (tally : κ → Nat) (ks : List κ) : (reached quota tally ks).Nodup := by
  induction ks generalizing tally with
  | nil => exact List.nodup_nil
  | cons k ks ih =>
    unfold reached
    split
    · rename_i hquota
      refine List.nodup_cons.mpr ⟨?_, ih _⟩
      rw [mem_reached, Function.update_self]
      omega
    · exact ih _

end Quota
