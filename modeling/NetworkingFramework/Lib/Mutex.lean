import Mathlib.Tactic.Common

/-!
# Locks and who holds them

A lock has an owner or none. That it guards a part of a program says that its owner is who is in that part: so there is one at most.
One thread takes a step at a time, and what it does to the lock and to where it is keeps this.
-/

namespace Mutex

variable {ω : Type} {m : Option ω} {holds holds' : ω → Prop} {me o p : ω}

/-- The owner of the lock is who holds it. -/
def Guards (m : Option ω) (holds : ω → Prop) : Prop := ∀ o, m = some o ↔ holds o

/-- A lock that nobody holds is free. -/
theorem guards_none (h : ∀ o, ¬holds o) : Guards none holds := fun o => ⟨fun hnone => (nomatch hnone), fun ho => absurd ho (h o)⟩

/-- There is one holder at most. -/
theorem Guards.unique (h : Guards m holds) (ho : holds o) (hp : holds p) : o = p :=
  Option.some.inj (((h o).mpr ho).symm.trans ((h p).mpr hp))

/-- Nobody holds a free lock. -/
theorem Guards.not_holds (h : Guards none holds) (o : ω) : ¬holds o := fun ho => nomatch (h o).mpr ho

/-- A step that neither takes the lock nor gives it back. -/
theorem Guards.keep (h : Guards m holds) (hme : holds' me ↔ holds me) (hothers : ∀ o, o ≠ me → (holds' o ↔ holds o)) :
    Guards m holds' := by
  intro o
  rw [h o]
  by_cases ho : o = me
  · subst ho
    exact hme.symm
  · exact (hothers o ho).symm

/-- The lock is taken. -/
theorem Guards.lock (h : Guards none holds) (hme : holds' me) (hothers : ∀ o, o ≠ me → (holds' o ↔ holds o)) :
    Guards (some me) holds' := by
  intro o
  constructor
  · rintro hown
    rw [← Option.some.inj hown]
    exact hme
  · intro ho
    by_contra hne
    have hother : o ≠ me := fun heq => hne (congrArg some heq.symm)
    exact h.not_holds o ((hothers o hother).mp ho)

/-- The lock is given back. -/
theorem Guards.unlock (h : Guards m holds) (hown : holds me) (hme : ¬holds' me) (hothers : ∀ o, o ≠ me → (holds' o ↔ holds o)) :
    Guards none holds' := by
  refine guards_none fun o ho => ?_
  by_cases hsame : o = me
  · exact hme (hsame ▸ ho)
  · exact hsame (h.unique ((hothers o hsame).mp ho) hown)

/-- What one thread may do to a lock: nothing, take it when it is free, or give its own back. -/
inductive Uses (me : ω) (m : Option ω) (held held' : Prop) : Option ω → Prop where
  | keep (same : held' ↔ held) : Uses me m held held' m
  | lock (free : m = none) (taken : held') : Uses me m held held' (some me)
  | unlock (own : held) (given : ¬held') : Uses me m held held' none

/-- A thread's step keeps the lock with its owner. -/
theorem Guards.step {m' : Option ω} (h : Guards m holds) (huses : Uses me m (holds me) (holds' me) m')
    (hothers : ∀ o, o ≠ me → (holds' o ↔ holds o)) : Guards m' holds' := by
  cases huses with
  | keep hsame => exact h.keep hsame hothers
  | lock hfree hheld =>
    subst hfree
    exact h.lock hheld hothers
  | unlock hheld hleft => exact h.unlock hheld hleft hothers

end Mutex
