import Mathlib.Data.List.Basic
import Mathlib.Data.List.Induction
import Mathlib.Data.Option.Basic

/-!
# Objects that answer calls

An object takes one call after another and answers each. A call that the object does not survive has no value. When the object
stays related to a reference object that survives every call and gives the same answers, the answers of every sequence of calls
are those of the reference.
-/

namespace Refinement

variable {σ τ α ω : Type}

/-- The answers of an object to some calls, and the object after them. -/
def answers (call : σ → α → Option (ω × σ)) : σ → List α → Option (List ω × σ)
  | s, [] => some ([], s)
  | s, a :: as =>
    (call s a).bind fun (o, s') => (answers call s' as).map fun (os, s'') => (o :: os, s'')

/-- The answers of a reference object, which survives every call. -/
def reference (call : τ → α → ω × τ) : τ → List α → List ω × τ
  | t, [] => ([], t)
  | t, a :: as =>
    let (o, t') := call t a
    let (os, t'') := reference call t' as
    (o :: os, t'')

/-- An object refines another: from related objects, each call gives the same answer and related objects. -/
def Refines (R : σ → τ → Prop) (call : σ → α → Option (ω × σ)) (call' : τ → α → ω × τ) : Prop :=
  ∀ s t a, R s t → ∃ s', call s a = some ((call' t a).1, s') ∧ R s' (call' t a).2

variable {R : σ → τ → Prop} {call : σ → α → Option (ω × σ)} {call' : τ → α → ω × τ}

/-- The answers to every sequence of calls are those of the reference. -/
theorem Refines.answers_eq (h : Refines R call call') {s : σ} {t : τ} (hst : R s t) (as : List α) :
    ∃ s', answers call s as = some ((reference call' t as).1, s') ∧ R s' (reference call' t as).2 := by
  induction as generalizing s t with
  | nil => exact ⟨s, rfl, hst⟩
  | cons a as ih =>
    obtain ⟨s₁, hcall, hrel⟩ := h s t a hst
    obtain ⟨s₂, hrest, hrel'⟩ := ih hrel
    refine ⟨s₂, ?_, hrel'⟩
    simp [answers, reference, hcall, hrest]

/-! ## Calls without an answer -/

/-- One more call. -/
theorem foldlM_concat {ε : Type} (call : σ → α → Except ε σ) (s : σ) (done : List α) (a : α) :
    (done ++ [a]).foldlM call s = done.foldlM call s >>= (call · a) := by
  rw [List.foldlM_append]
  simp only [List.foldlM_cons, List.foldlM_nil, bind_pure]

/-- An object is what the reference is after some calls, and after each of them, if and only if each of the calls does to it
what it does to the reference. -/
theorem agrees_iff {ε : Type} {call : σ → α → Except ε σ} {apply : τ → α → τ} (view : τ → σ) (t : τ) (as : List α) :
    (∀ done left, as = done ++ left → done.foldlM call (view t) = .ok (view (done.foldl apply t))) ↔
      ∀ done a left, as = done ++ a :: left → call (view (done.foldl apply t)) a = .ok (view (apply (done.foldl apply t) a)) := by
  constructor
  · intro h done a left heq
    have hdone := h done (a :: left) heq
    have hnext := h (done ++ [a]) left (by rw [heq, List.append_assoc]; rfl)
    rwa [foldlM_concat, hdone, List.foldl_concat] at hnext
  · intro h done
    induction done using List.reverseRecOn with
    | nil => exact fun _ _ => rfl
    | append_singleton done a ih =>
      intro left heq
      have heq' : as = done ++ a :: left := by rw [heq, List.append_assoc]; rfl
      rw [foldlM_concat, ih _ heq', List.foldl_concat]
      exact h done a left heq'

end Refinement
