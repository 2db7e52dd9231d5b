import Mathlib.Order.Lattice
import Mathlib.Data.List.Basic

/-!
# The first of the largest

A scan of a list for the largest of the elements that pass a test, the earliest where several are largest. It keeps the best so
far and replaces it by what is strictly larger.
-/

namespace FirstMax

variable {α β : Type} [LinearOrder β]

/-- `a` is the largest of the elements of the list that pass, and the first of these. -/
def IsFirstMax (p : α → Prop) (size : α → β) (l : List α) (a : α) : Prop :=
  ∃ pre post, l = pre ++ a :: post ∧ p a ∧ (∀ x ∈ pre, p x → size x < size a) ∧ ∀ x ∈ post, p x → size x ≤ size a

/-- The best so far, and an element that passes. -/
def better (size : α → β) (best : Option α) (x : α) : α :=
  match best with
  | none => x
  | some a => if size a < size x then x else a

/-- The scan, from the best so far. -/
def scan (p : α → Prop) [DecidablePred p] (size : α → β) : Option α → List α → Option α
  | best, [] => best
  | best, x :: l => scan p size (if p x then some (better size best x) else best) l

/-- What the best so far says of the elements seen. -/
def Best (p : α → Prop) (size : α → β) (seen : List α) : Option α → Prop
  | none => ∀ x ∈ seen, ¬p x
  | some a => IsFirstMax p size seen a

variable {p : α → Prop} {size : α → β} {l : List α} {a x : α}

theorem IsFirstMax.mem (h : IsFirstMax p size l a) : a ∈ l := by
  obtain ⟨pre, post, rfl, -⟩ := h
  exact List.mem_append_right pre List.mem_cons_self

theorem IsFirstMax.passes (h : IsFirstMax p size l a) : p a := by
  obtain ⟨pre, post, -, hp, -⟩ := h
  exact hp

/-- Nothing that passes is larger. -/
theorem IsFirstMax.le (h : IsFirstMax p size l a) : ∀ x ∈ l, p x → size x ≤ size a := by
  obtain ⟨pre, post, rfl, -, hpre, hpost⟩ := h
  intro x hx hp
  rcases List.mem_append.mp hx with hx | hx
  · exact le_of_lt (hpre x hx hp)
  · rcases List.mem_cons.mp hx with rfl | hx
    · exact le_refl _
    · exact hpost x hx hp

/-- There is one first of the largest. -/
theorem IsFirstMax.unique {b : α} (ha : IsFirstMax p size l a) (hb : IsFirstMax p size l b) : a = b := by
  obtain ⟨pre, post, rfl, hpa, hpre, hpost⟩ := ha
  obtain ⟨pre', post', hsplit, hpb, hpre', hpost'⟩ := hb
  rcases List.append_eq_append_iff.mp hsplit with ⟨between, hpres, hrest⟩ | ⟨between, hpres, hrest⟩
  · cases between with
    | nil => exact (List.cons.inj hrest).1
    | cons c between =>
      obtain ⟨rfl, rfl⟩ := List.cons.inj hrest
      have hlt : size a < size b := hpre' a (by simp [hpres]) hpa
      have hle : size b ≤ size a := hpost b (by simp) hpb
      exact absurd hlt (not_lt_of_ge hle)
  · cases between with
    | nil => exact (List.cons.inj hrest).1.symm
    | cons c between =>
      obtain ⟨rfl, rfl⟩ := List.cons.inj hrest
      have hlt : size b < size a := hpre b (by simp [hpres]) hpb
      have hle : size a ≤ size b := hpost' a (by simp) hpa
      exact absurd hlt (not_lt_of_ge hle)

/-- An element behind the list that does not pass, or is not larger, changes nothing. -/
theorem IsFirstMax.snoc (h : IsFirstMax p size l a) (hx : p x → size x ≤ size a) : IsFirstMax p size (l ++ [x]) a := by
  obtain ⟨pre, post, rfl, hp, hpre, hpost⟩ := h
  refine ⟨pre, post ++ [x], by simp, hp, hpre, fun y hy hpy => ?_⟩
  rcases List.mem_append.mp hy with hy | hy
  · exact hpost y hy hpy
  · obtain rfl := List.mem_singleton.mp hy
    exact hx hpy

/-- An element behind the list that passes and is larger than all that do is the first of the largest. -/
theorem isFirstMax_snoc (hp : p x) (hx : ∀ y ∈ l, p y → size y < size x) : IsFirstMax p size (l ++ [x]) x :=
  ⟨l, [], rfl, hp, hx, fun _ hy => absurd hy List.not_mem_nil⟩

variable [DecidablePred p]

/-- One element of the scan. -/
theorem Best.step {seen : List α} {best : Option α} (h : Best p size seen best) (x : α) :
    Best p size (seen ++ [x]) (if p x then some (better size best x) else best) := by
  by_cases hp : p x
  · rw [if_pos hp]
    cases best with
    | none => exact isFirstMax_snoc hp fun y hy hpy => absurd hpy (h y hy)
    | some a =>
      by_cases hlt : size a < size x
      · rw [better, if_pos hlt]
        exact isFirstMax_snoc hp fun y hy hpy => lt_of_le_of_lt (h.le y hy hpy) hlt
      · rw [better, if_neg hlt]
        exact h.snoc fun _ => not_lt.mp hlt
  · rw [if_neg hp]
    cases best with
    | none =>
      intro y hy
      rcases List.mem_append.mp hy with hy | hy
      · exact h y hy
      · obtain rfl := List.mem_singleton.mp hy
        exact hp
    | some a => exact h.snoc fun hpx => absurd hpx hp

/-- The rest of the scan. -/
theorem Best.run {seen : List α} {best : Option α} (h : Best p size seen best) (l : List α) :
    Best p size (seen ++ l) (scan p size best l) := by
  induction l generalizing seen best with
  | nil => rwa [List.append_nil, scan]
  | cons x l ih =>
    have hrest := ih (h.step x)
    rwa [List.append_assoc, List.singleton_append] at hrest

end FirstMax
