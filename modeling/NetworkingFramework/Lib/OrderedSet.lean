import Mathlib.Data.Finset.Sort
import Mathlib.Data.Finset.Max
import NetworkingFramework.Lib.Wire

/-!
# Walking an ordered set that changes

An iterator over an ordered set stands at an element, and advancing it finds the least element above in the set as it is then.
A visit may change the set: an element inserted above the current one is visited too, one erased before its turn is not, and
when the current element is erased the iterator is stale.

`walk` is such a walk from the least element on. It visits the elements the set had at the start, each once, exactly when no
visit disturbs it (`walk_eq_snapshot_iff`).
-/

namespace OrderedSet

open Wire

variable {α σ : Type} [LinearOrder α]

/-! ## Iterators -/

/-- The least element, `begin()`. -/
def first (s : Finset α) : Option α := s.min

/-- The least element above another one, where an iterator goes when it is advanced. -/
def next (s : Finset α) (a : α) : Option α := first {b ∈ s | a < b}

theorem first_eq_some_iff (s : Finset α) (a : α) : first s = some a ↔ a ∈ s ∧ ∀ b ∈ s, a ≤ b := by
  constructor
  · intro h
    exact ⟨Finset.mem_of_min h, fun b hb => Finset.min_le_of_eq hb h⟩
  · intro h
    rcases h with ⟨ha, hle⟩
    have hmin : s.min = (a : WithTop α) :=
      le_antisymm (Finset.min_le ha) (Finset.le_min fun b hb => WithTop.coe_le_coe.mpr (hle b hb))
    exact hmin

theorem first_eq_none_iff (s : Finset α) : first s = none ↔ s = ∅ := Finset.min_eq_top

theorem next_eq_some_iff (s : Finset α) (a b : α) :
    next s a = some b ↔ b ∈ s ∧ a < b ∧ ∀ c ∈ s, a < c → b ≤ c := by
  rw [next, first_eq_some_iff]
  simp only [Finset.mem_filter, and_assoc, and_imp]

theorem next_eq_none_iff (s : Finset α) (a : α) : next s a = none ↔ ∀ b ∈ s, ¬a < b := by
  rw [next, first_eq_none_iff, Finset.filter_eq_empty_iff]

theorem first_eq_head_sort (s : Finset α) : first s = s.sort.head? := by
  cases hs : s.sort with
  | nil =>
    rw [List.head?_nil, first_eq_none_iff, ← s.sort_toFinset (· ≤ ·), hs]
    rfl
  | cons a rest =>
    have hsorted : (a :: rest).Pairwise (· ≤ ·) := hs ▸ s.pairwise_sort (· ≤ ·)
    have hmem : ∀ b, b ∈ s ↔ b = a ∨ b ∈ rest := fun b => by rw [← s.mem_sort (· ≤ ·), hs, List.mem_cons]
    rw [List.head?_cons, first_eq_some_iff]
    refine ⟨(hmem a).mpr (.inl rfl), fun b hb => ?_⟩
    rcases (hmem b).mp hb with rfl | hb
    · exact le_rfl
    · exact List.rel_of_pairwise_cons hsorted hb

/-! ## Changes -/

/-- A change to a set. -/
inductive Change (α : Type) where
  | insert (a : α)
  | erase (a : α)
  | clear
  deriving DecidableEq, Repr

/-- The set after a change. -/
def Change.apply (s : Finset α) : Change α → Finset α
  | .insert a => Insert.insert a s
  | .erase a => s.erase a
  | .clear => ∅

/-- The change erases the element, if it is there. -/
def Change.erases (a : α) : Change α → Bool
  | .insert _ => false
  | .erase b => a = b
  | .clear => true

/-- The set after some changes. -/
def applyAll (s : Finset α) (changes : List (Change α)) : Finset α := changes.foldl Change.apply s

/-! ## The walk -/

/-- What visiting an element does: a step of the state around the set, and the changes it makes to the set. -/
abbrev Visit (σ α : Type) : Type := σ → α → Except Fault (σ × List (Change α))

/-- The walk from an iterator on: the state and the set at the end, and the elements visited. -/
def walkFrom (visit : Visit σ α) : Nat → σ → Finset α → Option α → Except Fault (σ × Finset α × List α)
  | _, st, s, none => .ok (st, s, [])
  | 0, _, _, some _ => .error .diverges
  | fuel + 1, st, s, some a => do
    let (st', changes) ← visit st a
    if changes.any (Change.erases a) then throw .staleIterator
    let s' := applyAll s changes
    let (st'', s'', visited) ← walkFrom visit fuel st' s' (next s' a)
    return (st'', s'', a :: visited)

/-- The walk over a set. -/
def walk (visit : Visit σ α) (fuel : Nat) (st : σ) (s : Finset α) : Except Fault (σ × Finset α × List α) :=
  walkFrom visit fuel st s (first s)

/-- Visiting these elements in a row, each visit leaves its element in the set and the next one of the row right above it. -/
def Undisturbed (visit : Visit σ α) : σ → Finset α → List α → Prop
  | _, _, [] => True
  | st, s, a :: rest => ∃ st' changes, visit st a = .ok (st', changes) ∧ changes.any (Change.erases a) = false ∧
      next (applyAll s changes) a = rest.head? ∧ Undisturbed visit st' (applyAll s changes) rest

@[simp] theorem walkFrom_none (visit : Visit σ α) (fuel : Nat) (st : σ) (s : Finset α) :
    walkFrom visit fuel st s none = .ok (st, s, []) := by
  cases fuel <;> rfl

/-- One step of the walk. -/
theorem walkFrom_some_ok_iff (visit : Visit σ α) (fuel : Nat) (st st'' : σ) (s s'' : Finset α) (a : α) (visited : List α) :
    walkFrom visit (fuel + 1) st s (some a) = .ok (st'', s'', visited) ↔
      ∃ st' changes rest, visit st a = .ok (st', changes) ∧ changes.any (Change.erases a) = false ∧
        walkFrom visit fuel st' (applyAll s changes) (next (applyAll s changes) a) = .ok (st'', s'', rest) ∧
        visited = a :: rest := by
  rw [walkFrom, bind_eq_ok_iff]
  constructor
  · intro h
    rcases h with ⟨⟨st', changes⟩, hvisit, h⟩
    by_cases hstale : changes.any (Change.erases a) = true
    · simp [hstale] at h
    · simp only [hstale, Bool.false_eq_true, if_false] at h
      obtain ⟨⟨st₁, s₁, rest⟩, hrest, hok⟩ := (bind_eq_ok_iff _ _ _).mp h
      obtain ⟨rfl, rfl, rfl⟩ : st₁ = st'' ∧ s₁ = s'' ∧ a :: rest = visited := by simpa using hok
      exact ⟨st', changes, rest, hvisit, Bool.not_eq_true _ ▸ hstale, hrest, rfl⟩
  · intro h
    rcases h with ⟨st', changes, rest, hvisit, hstale, hrest, rfl⟩
    exact ⟨_, hvisit, by simp [hstale, hrest]⟩

/-- A walk from an element that returns has visited that element. -/
theorem visit_of_walkFrom {visit : Visit σ α} {fuel : Nat} {st st'' : σ} {s s'' : Finset α} {a : α} {visited : List α}
    (h : walkFrom visit fuel st s (some a) = .ok (st'', s'', visited)) :
    ∃ fuel' st' changes rest, visit st a = .ok (st', changes) ∧
      walkFrom visit fuel' st' (applyAll s changes) (next (applyAll s changes) a) = .ok (st'', s'', rest) ∧
      visited = a :: rest := by
  cases fuel with
  | zero => nomatch h
  | succ fuel =>
    obtain ⟨st', changes, rest, hvisit, -, hrest, hvisited⟩ := (walkFrom_some_ok_iff ..).mp h
    exact ⟨fuel, st', changes, rest, hvisit, hrest, hvisited⟩

/-- A walk visits the element it starts from first. -/
theorem head_of_walkFrom {visit : Visit σ α} {fuel : Nat} {st st' : σ} {s s' : Finset α} {c : Option α} {visited : List α}
    (h : walkFrom visit fuel st s c = .ok (st', s', visited)) : visited.head? = c := by
  cases c with
  | none =>
    rw [walkFrom_none, Except.ok.injEq, Prod.mk.injEq, Prod.mk.injEq] at h
    rw [← h.2.2, List.head?_nil]
  | some a =>
    obtain ⟨_, _, _, rest, _, _, rfl⟩ := visit_of_walkFrom h
    rfl

/-- A walk goes up. -/
theorem pairwise_of_walkFrom {visit : Visit σ α} {fuel : Nat} {st st' : σ} {s s' : Finset α} {c : Option α}
    {visited : List α} (h : walkFrom visit fuel st s c = .ok (st', s', visited)) : visited.Pairwise (· < ·) := by
  induction fuel generalizing st s c visited with
  | zero =>
    cases c with
    | none =>
      rw [walkFrom_none, Except.ok.injEq, Prod.mk.injEq, Prod.mk.injEq] at h
      rw [← h.2.2]
      exact .nil
    | some a => nomatch h
  | succ fuel ih =>
    cases c with
    | none =>
      rw [walkFrom_none, Except.ok.injEq, Prod.mk.injEq, Prod.mk.injEq] at h
      rw [← h.2.2]
      exact .nil
    | some a =>
      obtain ⟨_, changes, rest, _, _, hrest, rfl⟩ := (walkFrom_some_ok_iff ..).mp h
      have hup := ih hrest
      have hhead := head_of_walkFrom hrest
      refine List.pairwise_cons.mpr ⟨fun b hb => ?_, hup⟩
      cases rest with
      | nil => exact absurd hb List.not_mem_nil
      | cons d rest =>
        obtain ⟨-, had, -⟩ := (next_eq_some_iff _ a d).mp hhead.symm
        rcases List.mem_cons.mp hb with rfl | hb
        · exact had
        · exact had.trans (List.rel_of_pairwise_cons hup hb)

/-- What every visit preserves, a walk preserves. -/
theorem invariant_of_walkFrom {visit : Visit σ α} {P : σ → Prop}
    (hvisit : ∀ st a st' changes, P st → visit st a = .ok (st', changes) → P st') {fuel : Nat} {st st' : σ} {s s' : Finset α}
    {c : Option α} {visited : List α} (h : walkFrom visit fuel st s c = .ok (st', s', visited)) (hst : P st) : P st' := by
  induction fuel generalizing st s c visited with
  | zero =>
    cases c with
    | none =>
      rw [walkFrom_none, Except.ok.injEq, Prod.mk.injEq] at h
      exact h.1 ▸ hst
    | some a => nomatch h
  | succ fuel ih =>
    cases c with
    | none =>
      rw [walkFrom_none, Except.ok.injEq, Prod.mk.injEq] at h
      exact h.1 ▸ hst
    | some a =>
      obtain ⟨st₁, changes, rest, hstep, _, hrest, rfl⟩ := (walkFrom_some_ok_iff ..).mp h
      exact ih hrest (hvisit st a st₁ changes hst hstep)

/-- A walk visits these elements in a row exactly when no visit disturbs it. -/
theorem walkFrom_ok_iff (visit : Visit σ α) (fuel : Nat) (st : σ) (s : Finset α) (as : List α) (hfuel : as.length ≤ fuel) :
    (∃ st' s', walkFrom visit fuel st s as.head? = .ok (st', s', as)) ↔ Undisturbed visit st s as := by
  induction as generalizing fuel st s with
  | nil => simp [Undisturbed]
  | cons a rest ih =>
    cases fuel with
    | zero => simp at hfuel
    | succ fuel =>
      have hfuel' : rest.length ≤ fuel := by simpa using hfuel
      rw [List.head?_cons]
      constructor
      · intro h
        rcases h with ⟨st'', s'', h⟩
        obtain ⟨st', changes, rest', hvisit, hstale, hrest, heq⟩ := (walkFrom_some_ok_iff ..).mp h
        obtain rfl : rest = rest' := (List.cons.inj heq).2
        have hnext := head_of_walkFrom hrest
        rw [← hnext] at hrest
        exact ⟨st', changes, hvisit, hstale, hnext.symm, (ih fuel st' _ hfuel').mp ⟨st'', s'', hrest⟩⟩
      · intro h
        rcases h with ⟨st', changes, hvisit, hstale, hnext, hrest⟩
        obtain ⟨st'', s'', h⟩ := (ih fuel st' _ hfuel').mpr hrest
        rw [← hnext] at h
        exact ⟨st'', s'', (walkFrom_some_ok_iff ..).mpr ⟨st', changes, rest, hvisit, hstale, h, rfl⟩⟩

/-- In a set that is sorted, the element above another one is the one that comes next. -/
theorem next_of_sort {s : Finset α} {pre rest : List α} {a : α} (hs : s.sort = pre ++ a :: rest) :
    next s a = rest.head? := by
  have hup : (pre ++ a :: rest).Pairwise (· < ·) := hs ▸ (Finset.sortedLT_sort s).pairwise
  have hmem : ∀ b, b ∈ s ↔ b ∈ pre ++ a :: rest := fun b => by rw [← hs, s.mem_sort (· ≤ ·)]
  obtain ⟨-, habove, hbelow⟩ := List.pairwise_append.mp hup
  have hafter : ∀ b ∈ s, a < b → b ∈ rest := by
    intro b hb hab
    rcases List.mem_append.mp ((hmem b).mp hb) with hpre | hrest
    · exact absurd hab (not_lt_of_gt (hbelow b hpre a List.mem_cons_self))
    · rcases List.mem_cons.mp hrest with rfl | hrest
      · exact absurd hab (lt_irrefl b)
      · exact hrest
  cases rest with
  | nil =>
    rw [List.head?_nil, next_eq_none_iff]
    intro b hb hab
    exact absurd (hafter b hb hab) List.not_mem_nil
  | cons b rest =>
    obtain ⟨hhead, htail⟩ := List.pairwise_cons.mp habove
    rw [List.head?_cons, next_eq_some_iff]
    refine ⟨(hmem b).mpr (by simp), hhead b List.mem_cons_self, fun c hc hac => ?_⟩
    rcases List.mem_cons.mp (hafter c hc hac) with rfl | hc
    · exact le_rfl
    · exact le_of_lt (List.rel_of_pairwise_cons htail hc)

/-- When no visit changes the set, the rest of it is visited in order. -/
theorem walkFrom_passive (f : σ → α → σ) {s : Finset α} {pre as : List α} (hs : s.sort = pre ++ as) {fuel : Nat}
    (hfuel : as.length ≤ fuel) (st : σ) :
    walkFrom (fun st a => .ok (f st a, [])) fuel st s as.head? = .ok (as.foldl f st, s, as) := by
  induction as generalizing pre fuel st with
  | nil => exact walkFrom_none _ fuel st s
  | cons a rest ih =>
    obtain ⟨fuel, rfl⟩ : ∃ n, fuel = n + 1 := ⟨fuel - 1, by rw [List.length_cons] at hfuel; omega⟩
    have hs' : s.sort = (pre ++ [a]) ++ rest := by rw [hs, List.append_assoc, List.singleton_append]
    have hrest := ih hs' (by simpa using hfuel) (f st a)
    rw [← next_of_sort hs] at hrest
    exact (walkFrom_some_ok_iff ..).mpr ⟨f st a, [], rest, rfl, rfl, hrest, rfl⟩

/-- When no visit changes the set, its elements are visited in order. -/
theorem walk_passive (f : σ → α → σ) (s : Finset α) {fuel : Nat} (hfuel : s.sort.length ≤ fuel) (st : σ) :
    walk (fun st a => .ok (f st a, [])) fuel st s = .ok (s.sort.foldl f st, s, s.sort) := by
  rw [walk, first_eq_head_sort]
  exact walkFrom_passive f (List.nil_append s.sort).symm hfuel st

/-- A walk visits the elements the set had at the start, each once, exactly when no visit disturbs it. -/
theorem walk_eq_snapshot_iff (visit : Visit σ α) (st : σ) (s : Finset α) :
    (∃ enough, ∀ fuel ≥ enough, ∃ st' s' visited, walk visit fuel st s = .ok (st', s', visited) ∧ visited.Nodup ∧
      ∀ a, a ∈ visited ↔ a ∈ s) ↔ Undisturbed visit st s s.sort := by
  constructor
  · intro h
    rcases h with ⟨enough, henough⟩
    obtain ⟨st', s', visited, hwalk, hnodup, hmem⟩ := henough (max enough s.sort.length) (Nat.le_max_left _ _)
    have hset : visited.toFinset = s := by
      ext a
      rw [List.mem_toFinset, hmem]
    have hle : visited.Pairwise (· ≤ ·) := (pairwise_of_walkFrom hwalk).imp fun h => le_of_lt h
    have hsort : s.sort = visited := hset ▸ (List.toFinset_sort (· ≤ ·) hnodup).mpr hle
    rw [walk, first_eq_head_sort] at hwalk
    exact (walkFrom_ok_iff visit _ st s s.sort (Nat.le_max_right _ _)).mp ⟨st', s', by rwa [hsort] at hwalk ⊢⟩
  · intro h
    refine ⟨s.sort.length, fun fuel hfuel => ?_⟩
    obtain ⟨st', s', hwalk⟩ := (walkFrom_ok_iff visit fuel st s s.sort hfuel).mpr h
    rw [← first_eq_head_sort] at hwalk
    exact ⟨st', s', _, hwalk, s.sort_nodup (· ≤ ·), fun a => s.mem_sort (· ≤ ·)⟩

end OrderedSet
