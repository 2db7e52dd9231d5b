import NetworkingFramework.MultiNetAccess

/-!
# Shared net accesses keep their receivers in step

What is registered is what is current, and what is current is what the uses of the net accesses say (`Consistent`), as long as no
receiver is set on two of them. Every use keeps it.
-/

namespace NetworkingFramework

open Wire OrderedSet Runs

/-! ## The registered receivers -/

theorem MultiRecvListener.mem_addRecvListener (m : MultiRecvListener) (recv : Option Address) (l : Address) :
    l ∈ (m.addRecvListener recv).listeners ↔ recv = some l ∨ l ∈ m.listeners := by
  cases recv with
  | none => simp [addRecvListener]
  | some r => simp [addRecvListener, eq_comm]

/-- Receivers that change nothing are given a datum in the order of their addresses, each once. -/
theorem MultiRecvListener.handleRecv_passive {σ TYPE : Type} (m : MultiRecvListener) (f : σ → Address → TYPE → σ) {fuel : Nat}
    (hfuel : m.listeners.sort.length ≤ fuel) (st : σ) (data : TYPE) :
    m.handleRecv (fun st l d => .ok (f st l d, [])) fuel st data =
      .ok (m.listeners.sort.foldl (fun st l => f st l data) st, m, m.listeners.sort.map fun l => (l, data)) := by
  have hvisit : Behaviour.visit (fun st l d => .ok (f st l d, [])) data =
      (fun st l => .ok (f st l data, []) : Visit σ Address) := rfl
  rw [handleRecv, hvisit, walk_passive (fun st l => f st l data) m.listeners hfuel st]
  rfl

namespace MultiNetAccess

theorem mem_removeCurr (m : MultiRecvListener) (curr : Option Address) (l : Address) :
    l ∈ (removeCurr m curr).listeners ↔ l ∈ m.listeners ∧ curr ≠ some l := by
  cases curr with
  | none => simp [removeCurr]
  | some r =>
    by_cases hr : r ∈ m.listeners
    · simp [removeCurr, MultiRecvListener.removeListener, hr, and_comm, eq_comm]
    · have hne : l ∈ m.listeners → r ≠ l := fun hl heq => hr (heq ▸ hl)
      simpa [removeCurr, MultiRecvListener.removeListener, hr] using hne

end MultiNetAccess

/-! ## What the uses say -/

namespace MultiNetAccessCall

/-- The net access has been generated and not been destroyed since. -/
def Lives (calls : List MultiNetAccessCall) (access : Address) : Prop :=
  Since (· = .generateNetAccess access) (· = .destroy access) calls

/-- The receiver has been set on the net access, which since then has not been destroyed and got no other receiver, or none. -/
def SetOn (calls : List MultiNetAccessCall) (access l : Address) : Prop :=
  Since (· = .setRecvAccess access (some l)) (fun call => call = .destroy access ∨ ∃ recv, call = .setRecvAccess access recv) calls

/-- Net accesses are generated where none lives, and only those that live get receivers and are destroyed. -/
def Proper (calls : List MultiNetAccessCall) : Prop :=
  Each (fun pre call =>
    match call with
    | .generateNetAccess access => ¬Lives pre access
    | .setRecvAccess access _ => Lives pre access
    | .destroy access => Lives pre access) calls

/-- No receiver is set on two net accesses. -/
def OneOwner (calls : List MultiNetAccessCall) : Prop :=
  ∀ a b l, .setRecvAccess a (some l) ∈ calls → .setRecvAccess b (some l) ∈ calls → a = b

variable {calls : List MultiNetAccessCall} {access l : Address}

theorem SetOn.mem (h : SetOn calls access l) : .setRecvAccess access (some l) ∈ calls := by
  obtain ⟨pre, call, post, rfl, rfl, -⟩ := h
  exact List.mem_append_right pre List.mem_cons_self

theorem lives_snoc_iff (call : MultiNetAccessCall) :
    Lives (calls ++ [call]) access ↔ call = .generateNetAccess access ∨ Lives calls access ∧ call ≠ .destroy access :=
  since_snoc_iff

theorem setOn_snoc_iff (call : MultiNetAccessCall) :
    SetOn (calls ++ [call]) access l ↔ call = .setRecvAccess access (some l) ∨
      SetOn calls access l ∧ ¬(call = .destroy access ∨ ∃ recv, call = .setRecvAccess access recv) :=
  since_snoc_iff

end MultiNetAccessCall

/-! ## The invariant -/

namespace MultiNetAccess

open MultiNetAccessCall

/-- The registered receivers are the current ones; which net accesses live and which receivers are current is what the uses say. -/
structure Consistent (calls : List MultiNetAccessCall) (m : MultiNetAccess) : Prop where
  registered : ∀ l, l ∈ m.multiRecv.listeners ↔ m.Current l
  lives : ∀ a, m.currRecv a ≠ none ↔ Lives calls a
  current : ∀ a l, m.currRecv a = some (some l) ↔ SetOn calls a l

variable {calls : List MultiNetAccessCall} {m : MultiNetAccess}

theorem init_consistent : Consistent [] init where
  registered l := by simp [init, Current]
  lives a := iff_of_false (fun h => h rfl) not_since_nil
  current a l := iff_of_false (by simp [init]) not_since_nil

theorem Consistent.registered_iff (h : Consistent calls m) (l : Address) :
    l ∈ m.multiRecv.listeners ↔ ∃ access, SetOn calls access l := by
  rw [h.registered]
  exact exists_congr fun a => h.current a l

/-- The receivers of the other net accesses are those that are registered without the one of this net access. -/
theorem Consistent.mem_removeCurr_iff (h : Consistent calls m) (howner : OneOwner calls) {a : Address} {curr : Option Address}
    (ha : m.currRecv a = some curr) (l : Address) :
    l ∈ (removeCurr m.multiRecv curr).listeners ↔ ∃ b, b ≠ a ∧ m.currRecv b = some (some l) := by
  rw [mem_removeCurr, h.registered]
  refine ⟨fun hl => ?_, fun hl => ?_⟩
  · obtain ⟨⟨b, hb⟩, hne⟩ := hl
    refine ⟨b, fun hba => hne ?_, hb⟩
    rw [hba, ha] at hb
    exact Option.some.inj hb
  · obtain ⟨b, hba, hb⟩ := hl
    refine ⟨⟨b, hb⟩, fun hcurr => hba ?_⟩
    rw [hcurr] at ha
    exact howner b a l ((h.current b l).mp hb).mem ((h.current a l).mp ha).mem

/-- The current receivers after one net access got another receiver, or none. -/
theorem current_update_iff (m : MultiNetAccess) (multiRecv : MultiRecvListener) (a : Address) (recv : Option (Option Address))
    (l : Address) :
    Current ⟨multiRecv, Function.update m.currRecv a recv⟩ l ↔
      recv = some (some l) ∨ ∃ b, b ≠ a ∧ m.currRecv b = some (some l) := by
  refine ⟨fun hl => ?_, fun hl => ?_⟩
  · obtain ⟨b, hb⟩ := hl
    by_cases hba : b = a
    · subst hba
      exact .inl (by simpa using hb)
    · exact .inr ⟨b, hba, by simpa [hba] using hb⟩
  · rcases hl with hrecv | ⟨b, hba, hb⟩
    · exact ⟨a, by simpa using hrecv⟩
    · exact ⟨b, by simpa [hba] using hb⟩

/-- A new net access has no receiver. -/
theorem Consistent.generateNetAccess (h : Consistent calls m) {a : Address} (hnew : ¬Lives calls a) :
    ∃ m', m.generateNetAccess a = some m' ∧ Consistent (calls ++ [.generateNetAccess a]) m' := by
  have hnone : m.currRecv a = none := by_contra fun hne => hnew ((h.lives a).mp hne)
  refine ⟨_, by rw [MultiNetAccess.generateNetAccess, hnone], fun l => ?_, fun b => ?_, fun b l => ?_⟩
  · rw [current_update_iff, h.registered]
    refine ⟨fun hl => ?_, fun hl => ?_⟩
    · obtain ⟨b, hb⟩ := hl
      refine .inr ⟨b, fun hba => ?_, hb⟩
      rw [hba, hnone] at hb
      cases hb
    · rcases hl with hl | ⟨b, -, hb⟩
      · cases hl
      · exact ⟨b, hb⟩
  · rw [lives_snoc_iff, ← h.lives]
    by_cases hba : b = a
    · simp [hba]
    · simp [hba, Ne.symm hba]
  · rw [setOn_snoc_iff, ← h.current]
    by_cases hba : b = a
    · simp [hba, hnone]
    · simp [hba]

/-- A receiver that is set takes the place of the one before it. -/
theorem Consistent.setRecvAccess (h : Consistent calls m) (howner : OneOwner calls) {a : Address} (hlives : Lives calls a)
    (recv : Option Address) :
    ∃ m', m.setRecvAccess a recv = some m' ∧ Consistent (calls ++ [.setRecvAccess a recv]) m' := by
  obtain ⟨curr, ha⟩ := Option.ne_none_iff_exists'.mp ((h.lives a).mpr hlives)
  refine ⟨_, by rw [MultiNetAccess.setRecvAccess, ha], fun l => ?_, fun b => ?_, fun b l => ?_⟩
  · rw [current_update_iff, MultiRecvListener.mem_addRecvListener, h.mem_removeCurr_iff howner ha, Option.some.injEq]
  · rw [lives_snoc_iff, ← h.lives]
    by_cases hba : b = a
    · simp [hba, ha]
    · simp [hba]
  · rw [setOn_snoc_iff, ← h.current]
    by_cases hba : b = a
    · simp [hba, eq_comm]
    · simp [hba, Ne.symm hba]

/-- A net access that is destroyed takes its receiver with it. -/
theorem Consistent.destroy (h : Consistent calls m) (howner : OneOwner calls) {a : Address} (hlives : Lives calls a) :
    ∃ m', m.destroy a = some m' ∧ Consistent (calls ++ [.destroy a]) m' := by
  obtain ⟨curr, ha⟩ := Option.ne_none_iff_exists'.mp ((h.lives a).mpr hlives)
  refine ⟨_, by rw [MultiNetAccess.destroy, ha], fun l => ?_, fun b => ?_, fun b l => ?_⟩
  · rw [current_update_iff, h.mem_removeCurr_iff howner ha]
    simp
  · rw [lives_snoc_iff, ← h.lives]
    by_cases hba : b = a
    · simp [hba]
    · simp [hba, Ne.symm hba]
  · rw [setOn_snoc_iff, ← h.current]
    by_cases hba : b = a
    · simp [hba]
    · simp [hba, Ne.symm hba]

/-- After proper uses that set no receiver on two net accesses, everything is as the uses say. -/
theorem exists_consistent (hproper : Proper calls) (howner : OneOwner calls) :
    ∃ m, run MultiNetAccess.step .init calls = some m ∧ Consistent calls m := by
  refine exists_run_of_history (fun pre call post m hsplit hm => ?_) init_consistent
  have hcall := hproper pre call post hsplit
  have hone : OneOwner pre := by
    intro a b l ha hb
    rw [hsplit] at howner
    exact howner a b l (List.mem_append_left _ ha) (List.mem_append_left _ hb)
  cases call with
  | generateNetAccess a => exact hm.generateNetAccess hcall
  | setRecvAccess a recv => exact hm.setRecvAccess hone hcall recv
  | destroy a => exact hm.destroy hone hcall

end MultiNetAccess
end NetworkingFramework
