import Mathlib.Data.List.Basic
import Mathlib.Data.Option.Basic

/-!
# Runs

A system that takes one action after another. An action that the state does not allow leads nowhere. What every step preserves
holds after every run.
-/

namespace Runs

variable {σ α : Type}

/-- The state after some actions. -/
def run (step : σ → α → Option σ) : σ → List α → Option σ
  | s, [] => some s
  | s, a :: as => (step s a).bind fun s' => run step s' as

variable {step : σ → α → Option σ} {s s' : σ} {a : α} {as : List α}

/-- A run is a step and a run. -/
theorem run_cons_eq_some_iff : run step s (a :: as) = some s' ↔ ∃ t, step s a = some t ∧ run step t as = some s' :=
  Option.bind_eq_some_iff

/-- What the steps of a run preserve holds at its end. -/
theorem invariant_of_run {P : σ → Prop} (hstep : ∀ s a s', a ∈ as → P s → step s a = some s' → P s')
    (hrun : run step s as = some s') (hs : P s) : P s' := by
  induction as generalizing s with
  | nil =>
    obtain rfl : s = s' := Option.some.inj hrun
    exact hs
  | cons a as ih =>
    obtain ⟨t, hfirst, hrest⟩ := run_cons_eq_some_iff.mp hrun
    have ht : P t := hstep s a t List.mem_cons_self hs hfirst
    exact ih (fun s b s' hb => hstep s b s' (List.mem_cons_of_mem a hb)) hrest ht

/-- What holds of the actions taken so far and the state they lead to, and is kept by the next action, holds after a run. -/
theorem exists_run_of_history {P : List α → σ → Prop}
    (hstep : ∀ pre a post s, as = pre ++ a :: post → P pre s → ∃ s', step s a = some s' ∧ P (pre ++ [a]) s') (hs : P [] s) :
    ∃ s', run step s as = some s' ∧ P as s' := by
  have hfrom : ∀ (pre post : List α) (t : σ), as = pre ++ post → P pre t → ∃ s', run step t post = some s' ∧ P as s' := by
    intro pre post
    induction post generalizing pre with
    | nil =>
      intro t hsplit ht
      rw [List.append_nil] at hsplit
      exact ⟨t, rfl, hsplit ▸ ht⟩
    | cons a post ih =>
      intro t hsplit ht
      obtain ⟨u, hfirst, hu⟩ := hstep pre a post t hsplit ht
      have hsplit' : as = (pre ++ [a]) ++ post := by rw [hsplit, List.append_assoc, List.singleton_append]
      obtain ⟨s', hrest, hs'⟩ := ih (pre ++ [a]) u hsplit' hu
      exact ⟨s', run_cons_eq_some_iff.mpr ⟨u, hfirst, hrest⟩, hs'⟩
  exact hfrom [] as s rfl hs

/-- Among some actions there is one that begins something, and none behind it that ends it. -/
def Since (begins ends : α → Prop) (as : List α) : Prop :=
  ∃ pre a post, as = pre ++ a :: post ∧ begins a ∧ ∀ b ∈ post, ¬ends b

theorem not_since_nil {begins ends : α → Prop} : ¬Since begins ends [] := by
  rintro ⟨pre, a, post, hsplit, -⟩
  exact absurd hsplit (by simp)

theorem since_cons_iff {begins ends : α → Prop} :
    Since begins ends (a :: as) ↔ begins a ∧ (∀ b ∈ as, ¬ends b) ∨ Since begins ends as := by
  constructor
  · rintro ⟨pre, b, post, hsplit, hbegins, hkeeps⟩
    cases pre with
    | nil =>
      obtain ⟨rfl, rfl⟩ := List.cons.inj hsplit
      exact .inl ⟨hbegins, hkeeps⟩
    | cons c pre => exact .inr ⟨pre, b, post, (List.cons.inj hsplit).2, hbegins, hkeeps⟩
  · rintro (⟨hbegins, hkeeps⟩ | ⟨pre, b, post, rfl, hbegins, hkeeps⟩)
    · exact ⟨[], a, as, rfl, hbegins, hkeeps⟩
    · exact ⟨a :: pre, b, post, rfl, hbegins, hkeeps⟩

/-- One more action begins it, or it has begun before and this action does not end it. -/
theorem since_snoc_iff {begins ends : α → Prop} :
    Since begins ends (as ++ [a]) ↔ begins a ∨ Since begins ends as ∧ ¬ends a := by
  constructor
  · rintro ⟨pre, b, post, hsplit, hbegins, hkeeps⟩
    rcases List.eq_nil_or_concat post with rfl | ⟨post, c, rfl⟩
    · obtain ⟨-, hb⟩ := List.append_inj' hsplit rfl
      exact .inl ((List.cons.inj hb).1 ▸ hbegins)
    · rw [List.concat_eq_append, ← List.cons_append, ← List.append_assoc] at hsplit
      obtain ⟨has, hc⟩ := List.append_inj' hsplit rfl
      obtain rfl : a = c := (List.cons.inj hc).1
      rw [List.concat_eq_append, List.forall_mem_append] at hkeeps
      exact .inr ⟨⟨pre, b, post, has, hbegins, hkeeps.1⟩, hkeeps.2 a List.mem_cons_self⟩
  · rintro (hbegins | ⟨⟨pre, b, post, rfl, hbegins, hkeeps⟩, hends⟩)
    · exact ⟨as, a, [], rfl, hbegins, fun _ hb => absurd hb List.not_mem_nil⟩
    · refine ⟨pre, b, post ++ [a], by simp, hbegins, fun c hc => ?_⟩
      rcases List.mem_append.mp hc with hc | hc
      · exact hkeeps c hc
      · exact List.mem_singleton.mp hc ▸ hends

/-- Every one of some actions is right after those before it. -/
def Each (right : List α → α → Prop) (as : List α) : Prop := ∀ pre a post, as = pre ++ a :: post → right pre a

theorem each_nil {right : List α → α → Prop} : Each right [] := by
  intro pre a post hsplit
  exact absurd hsplit (by simp)

theorem each_cons_iff {right : List α → α → Prop} :
    Each right (a :: as) ↔ right [] a ∧ Each (fun pre => right (a :: pre)) as := by
  constructor
  · intro h
    exact ⟨h [] a as rfl, fun pre b post hsplit => h (a :: pre) b post (congrArg (a :: ·) hsplit)⟩
  · rintro ⟨ha, has⟩ pre b post hsplit
    cases pre with
    | nil => exact (List.cons.inj hsplit).1 ▸ ha
    | cons c pre =>
      obtain ⟨rfl, hrest⟩ := List.cons.inj hsplit
      exact has pre b post hrest

/-- When some step can always be taken and preserved, runs of any length exist. -/
theorem exists_run_of_length {P : σ → Prop} (hstep : ∀ s, P s → ∃ a s', step s a = some s' ∧ P s') (hs : P s) (n : Nat) :
    ∃ as s', as.length = n ∧ run step s as = some s' ∧ P s' := by
  induction n generalizing s with
  | zero => exact ⟨[], s, rfl, rfl, hs⟩
  | succ n ih =>
    obtain ⟨a, t, hfirst, ht⟩ := hstep s hs
    obtain ⟨as, s', hlen, hrest, hs'⟩ := ih ht
    exact ⟨a :: as, s', congrArg (· + 1) hlen, run_cons_eq_some_iff.mpr ⟨t, hfirst, hrest⟩, hs'⟩

/-- What every step adds one to counts the steps of a run. -/
theorem count_of_run {f : σ → Nat} (hstep : ∀ s a s', step s a = some s' → f s' = f s + 1) (hrun : run step s as = some s') :
    f s' = f s + as.length := by
  induction as generalizing s with
  | nil =>
    obtain rfl : s = s' := Option.some.inj hrun
    rfl
  | cons a as ih =>
    obtain ⟨t, hfirst, hrest⟩ := run_cons_eq_some_iff.mp hrun
    rw [ih hrest, hstep s a t hfirst, List.length_cons]
    omega

/-- A run after a run. -/
theorem run_append {as' : List α} (h : run step s as = some s') : run step s (as ++ as') = run step s' as' := by
  induction as generalizing s with
  | nil =>
    obtain rfl : s = s' := Option.some.inj h
    rfl
  | cons a as ih =>
    obtain ⟨t, hfirst, hrest⟩ := run_cons_eq_some_iff.mp h
    rw [List.cons_append, run, hfirst, Option.bind_some, ih hrest]

/-- When each step is matched by some steps of another system, so is every run. -/
theorem exists_matching_run {τ β : Type} {other : τ → β → Option τ} {R : σ → τ → Prop}
    (hstep : ∀ s a s' t, R s t → step s a = some s' → ∃ bs t', run other t bs = some t' ∧ R s' t') {t : τ} (hst : R s t)
    (hrun : run step s as = some s') : ∃ bs t', run other t bs = some t' ∧ R s' t' := by
  induction as generalizing s t with
  | nil =>
    obtain rfl : s = s' := Option.some.inj hrun
    exact ⟨[], t, rfl, hst⟩
  | cons a as ih =>
    obtain ⟨u, hfirst, hrest⟩ := run_cons_eq_some_iff.mp hrun
    obtain ⟨bs, t', hmatch, hu⟩ := hstep s a u t hst hfirst
    obtain ⟨bs', t'', hmatch', hs'⟩ := ih hu hrest
    exact ⟨bs ++ bs', t'', (run_append hmatch).trans hmatch', hs'⟩

/-- The states that are reached from one by steps which all meet a condition. -/
inductive Reached (step : σ → α → Option σ) (allowed : σ → α → Prop) (s₀ : σ) : σ → Prop where
  | start : Reached step allowed s₀ s₀
  | step {s s' : σ} {a : α} : Reached step allowed s₀ s → allowed s a → step s a = some s' → Reached step allowed s₀ s'

/-- A state that is reached is where a run ends. -/
theorem Reached.exists_run {allowed : σ → α → Prop} {s₀ : σ} (h : Reached step allowed s₀ s) : ∃ as, run step s₀ as = some s := by
  induction h with
  | start => exact ⟨[], rfl⟩
  | step _ _ htaken ih =>
    obtain ⟨as, hrun⟩ := ih
    exact ⟨as ++ [_], (run_append hrun).trans (run_cons_eq_some_iff.mpr ⟨_, htaken, rfl⟩)⟩

/-- What the steps that meet the condition preserve holds in every state that is reached. -/
theorem Reached.invariant {allowed : σ → α → Prop} {s₀ : σ} {P : σ → Prop} (h : Reached step allowed s₀ s) (hs₀ : P s₀)
    (hstep : ∀ s a s', P s → allowed s a → step s a = some s' → P s') : P s := by
  induction h with
  | start => exact hs₀
  | step _ hallowed htaken ih => exact hstep _ _ _ ih hallowed htaken

/-- A run of actions that may be taken anywhere leads on. -/
theorem Reached.of_run {allowed : σ → α → Prop} {s₀ : σ} (as : List α) (h : Reached step allowed s₀ s)
    (hall : ∀ t, ∀ a ∈ as, allowed t a) (hrun : run step s as = some s') : Reached step allowed s₀ s' := by
  induction as generalizing s with
  | nil =>
    obtain rfl : s = s' := Option.some.inj hrun
    exact h
  | cons a as ih =>
    obtain ⟨t, hfirst, hrest⟩ := run_cons_eq_some_iff.mp hrun
    exact ih (h.step (hall s a List.mem_cons_self) hfirst) (fun t b hb => hall t b (List.mem_cons_of_mem a hb)) hrest

/-- One action, taken often enough, leads from a state to one with a property. -/
def Leads (step : σ → α → Option σ) (a : α) (s : σ) (P : σ → Prop) : Prop :=
  ∃ n s', run step s (List.replicate n a) = some s' ∧ P s'

theorem leads_now {P : σ → Prop} (h : P s) : Leads step a s P := ⟨0, s, rfl, h⟩

theorem Leads.of_step {P : σ → Prop} (hstep : step s a = some s') (h : Leads step a s' P) : Leads step a s P := by
  obtain ⟨n, t, hrun, ht⟩ := h
  exact ⟨n + 1, t, run_cons_eq_some_iff.mpr ⟨s', hstep, hrun⟩, ht⟩

/-- Some actions of a kind, so many at most, lead from a state to one with a property. -/
def LeadsWithin (step : σ → α → Option σ) (kind : α → Prop) (n : Nat) (s : σ) (P : σ → Prop) : Prop :=
  ∃ as s', as.length ≤ n ∧ (∀ a ∈ as, kind a) ∧ run step s as = some s' ∧ P s'

theorem leadsWithin_now {kind : α → Prop} {P : σ → Prop} {n : Nat} (h : P s) : LeadsWithin step kind n s P :=
  ⟨[], s, Nat.zero_le n, fun _ ha => absurd ha List.not_mem_nil, rfl, h⟩

theorem LeadsWithin.of_step {kind : α → Prop} {P : σ → Prop} {n : Nat} (ha : kind a) (hstep : step s a = some s')
    (h : LeadsWithin step kind n s' P) : LeadsWithin step kind (n + 1) s P := by
  obtain ⟨as, t, hlen, hkind, hrun, ht⟩ := h
  exact ⟨a :: as, t, Nat.succ_le_succ hlen, List.forall_mem_cons.mpr ⟨ha, hkind⟩, run_cons_eq_some_iff.mpr ⟨s', hstep, hrun⟩, ht⟩

theorem LeadsWithin.trans {kind : α → Prop} {P Q : σ → Prop} {n m : Nat} (h : LeadsWithin step kind n s P)
    (hnext : ∀ t, P t → LeadsWithin step kind m t Q) : LeadsWithin step kind (n + m) s Q := by
  obtain ⟨as, t, hlen, hkind, hrun, ht⟩ := h
  obtain ⟨as', u, hlen', hkind', hrun', hu⟩ := hnext t ht
  refine ⟨as ++ as', u, ?_, fun a ha => (List.mem_append.mp ha).elim (hkind a) (hkind' a), (run_append hrun).trans hrun', hu⟩
  rw [List.length_append]
  omega

/-- What the actions of the kind preserve holds at the end too. -/
theorem LeadsWithin.keep {kind : α → Prop} {P I : σ → Prop} {n : Nat} (h : LeadsWithin step kind n s P)
    (hstep : ∀ s a s', kind a → I s → step s a = some s' → I s') (hs : I s) :
    LeadsWithin step kind n s fun s' => P s' ∧ I s' := by
  obtain ⟨as, t, hlen, hkind, hrun, ht⟩ := h
  exact ⟨as, t, hlen, hkind, hrun, ht, invariant_of_run (P := I) (fun s a s' ha => hstep s a s' (hkind a ha)) hrun hs⟩

theorem LeadsWithin.of_kind {kind kind' : α → Prop} {P : σ → Prop} {n : Nat} (h : LeadsWithin step kind n s P)
    (himp : ∀ a, kind a → kind' a) : LeadsWithin step kind' n s P := by
  obtain ⟨as, t, hlen, hkind, hrest⟩ := h
  exact ⟨as, t, hlen, fun a ha => himp a (hkind a ha), hrest⟩

theorem LeadsWithin.mono {kind : α → Prop} {P : σ → Prop} {n m : Nat} (h : LeadsWithin step kind n s P) (hnm : n ≤ m) :
    LeadsWithin step kind m s P := by
  obtain ⟨as, t, hlen, hrest⟩ := h
  exact ⟨as, t, Nat.le_trans hlen hnm, hrest⟩

end Runs
