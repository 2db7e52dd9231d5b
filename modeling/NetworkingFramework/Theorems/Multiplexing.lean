import NetworkingFramework.Lemmas.Multiplexer

/-!
# Multiplexing

What a stream answers, after any calls, depends on what was registered and on nothing else, until the ids of the streams come
around.
-/

namespace NetworkingFramework

open Runs

namespace Multiplexer

variable {D : Type} {n : Nat} {T : Fin n → Type}

theorem streams_cons (call : MultiplexerCall D T) (calls : List (MultiplexerCall D T)) :
    MultiplexerCall.streams (call :: calls) = MultiplexerCall.streams [call] + MultiplexerCall.streams calls := by
  cases call with
  | appendNewEmptyHandler data => exact (Nat.zero_add _).symm
  | addRequirementToLastHandler i val => exact (Nat.zero_add _).symm
  | streamArray arr => exact Nat.add_comm _ _

/-- A handler is there when it is needed, at the first call and after it. -/
theorem handlerFirst_cons {rs : List (Registered D T)} {call : MultiplexerCall D T} {calls : List (MultiplexerCall D T)}
    (h : rs ≠ [] ∨ MultiplexerCall.HandlerFirst (call :: calls)) :
    (rs ≠ [] ∨ MultiplexerCall.HandlerFirst [call]) ∧
      (Registered.register rs call ≠ [] ∨ MultiplexerCall.HandlerFirst calls) := by
  cases call with
  | appendNewEmptyHandler data => exact ⟨.inr trivial, .inl (List.append_ne_nil_of_right_ne_nil _ (List.cons_ne_nil _ _))⟩
  | addRequirementToLastHandler i val =>
    have hne : rs ≠ [] := h.resolve_right id
    exact ⟨.inl hne, .inl (mt List.modify_eq_nil_iff.mp hne)⟩
  | streamArray arr => exact ⟨.inr trivial, h⟩

variable [∀ i, DecidableEq (T i)]

/-- A call of a multiplexer that holds what was registered. -/
theorem Represents.step {m : Multiplexer D T} {rs : List (Registered D T)} {streams : Nat} (h : Represents m rs streams)
    {call : MultiplexerCall D T} (hfirst : rs ≠ [] ∨ MultiplexerCall.HandlerFirst [call])
    (hstreams : streams + MultiplexerCall.streams [call] ≤ 2 ^ 64) :
    ∃ m', m.step call = some m' ∧
      Represents m' (Registered.register rs call) (streams + MultiplexerCall.streams [call]) := by
  cases call with
  | appendNewEmptyHandler data => exact ⟨_, rfl, h.append data⟩
  | addRequirementToLastHandler i val =>
    rcases hfirst with hne | hfirst
    · obtain ⟨rs, r, rfl⟩ := (List.eq_nil_or_concat' rs).resolve_left hne
      obtain ⟨m', hcall, hm'⟩ := h.require i val
      have hregister : Registered.register (rs ++ [r]) (.addRequirementToLastHandler i val) = rs ++ [(r.1, r.2 ++ [⟨i, val⟩])] :=
        modify_last rs r _
      exact ⟨m', hcall, hregister ▸ hm'⟩
    · exact absurd hfirst id
  | streamArray arr =>
    obtain ⟨streamRes, m', hcall, -, hm'⟩ := h.stream hstreams arr
    exact ⟨m', by rw [Multiplexer.step, hcall]; rfl, hm'⟩

/-- Some calls of a multiplexer that holds what was registered. -/
theorem Represents.run {m : Multiplexer D T} {rs : List (Registered D T)} {streams : Nat} (h : Represents m rs streams)
    {calls : List (MultiplexerCall D T)} (hfirst : rs ≠ [] ∨ MultiplexerCall.HandlerFirst calls)
    (hstreams : streams + MultiplexerCall.streams calls ≤ 2 ^ 64) :
    ∃ m', Runs.run Multiplexer.step m calls = some m' ∧
      Represents m' (calls.foldl Registered.register rs) (streams + MultiplexerCall.streams calls) := by
  induction calls generalizing m rs streams with
  | nil => exact ⟨m, rfl, h⟩
  | cons call calls ih =>
    rw [streams_cons, ← Nat.add_assoc] at hstreams ⊢
    obtain ⟨hcall, hcalls⟩ := handlerFirst_cons hfirst
    obtain ⟨m', hstep, hm'⟩ := h.step hcall (Nat.le_trans (Nat.le_add_right _ _) hstreams)
    obtain ⟨m'', hrun, hm''⟩ := ih hm' hcalls hstreams
    exact ⟨m'', run_cons_eq_some_iff.mpr ⟨m', hstep, hrun⟩, hm''⟩

end Multiplexer

open Multiplexer

/-- After any calls in which no requirement comes before the first handler, and of which fewer than `2 ^ 64` are streams, a stream
answers with the data of the handlers that have requirements and whose requirements the tuple meets, each of them once. -/
theorem streamArray_satisfied {D : Type} {n : Nat} {T : Fin n → Type} [∀ i, DecidableEq (T i)]
    (calls : List (MultiplexerCall D T)) (arr : ∀ i, T i) (hfirst : MultiplexerCall.HandlerFirst calls)
    (hstreams : MultiplexerCall.streams calls < 2 ^ 64) :
    ∃ m streamRes m', run Multiplexer.step {} calls = some m ∧ m.streamArray arr = some (streamRes, m') ∧
      streamRes.Perm (Registered.satisfiedData (calls.foldl Registered.register []) arr) := by
  obtain ⟨m, hrun, hm⟩ := represents_empty.run (.inr hfirst) (by rw [Nat.zero_add]; exact Nat.le_of_lt hstreams)
  obtain ⟨streamRes, m', hstream, hperm, -⟩ := hm.stream (by rw [Nat.zero_add]; exact hstreams) arr
  exact ⟨m, streamRes, m', hrun, hstream, hperm⟩

/-- Two handlers, and a tuple that satisfies the second after one that satisfies neither. -/
theorem streamArray_satisfied_twoHandlers :
    let calls : List (MultiplexerCall Nat fun _ : Fin 2 => Bool) := [.appendNewEmptyHandler 7, .addRequirementToLastHandler 0 true,
      .addRequirementToLastHandler 1 true, .appendNewEmptyHandler 8, .streamArray ![true, false],
      .addRequirementToLastHandler 1 false]
    ∃ m streamRes m', run Multiplexer.step {} calls = some m ∧ m.streamArray ![false, false] = some (streamRes, m') ∧
      streamRes.Perm [8] :=
  streamArray_satisfied _ ![false, false] trivial (by decide)

/-! ## Ids that come around -/

/-- A stream that leads to no handler, any number of times: only the id changes. -/
theorem run_quiet {D : Type} {n : Nat} {T : Fin n → Type} [∀ i, DecidableEq (T i)] {m : Multiplexer D T} {arr : ∀ i, T i}
    (h : metIndexes m.maps arr = []) (k : Nat) : run Multiplexer.step m (List.replicate k (.streamArray arr)) =
      some { m with uniqueId := m.uniqueId + UInt64.ofNat k } := by
  induction k generalizing m with
  | zero =>
    have hzero : m.uniqueId + UInt64.ofNat 0 = m.uniqueId := UInt64.add_zero _
    rw [hzero]
    rfl
  | succ k ih =>
    have hrec : recStreamArray (m.uniqueId + 1) m.maps arr (m.handlersPool, []) (List.finRange n) = some (m.handlersPool, []) := by
      rw [recStreamArray_eq]
      exact congrArg (List.foldlM _ _) h
    have hstep : m.step (.streamArray arr) = some { m with uniqueId := m.uniqueId + 1 } := by
      rw [Multiplexer.step, streamArray, hrec]
      rfl
    have hid : m.uniqueId + 1 + UInt64.ofNat k = m.uniqueId + UInt64.ofNat (k + 1) := by
      rw [UInt64.add_assoc, UInt64.add_comm 1, UInt64.ofNat_add]
      rfl
    refine run_cons_eq_some_iff.mpr ⟨_, hstep, (ih (m := { m with uniqueId := m.uniqueId + 1 }) h).trans ?_⟩
    exact congrArg (fun id => some { m with uniqueId := id }) hid

theorem register_quiet {D : Type} {n : Nat} {T : Fin n → Type} (rs : List (Registered D T)) (arr : ∀ i, T i) (k : Nat) :
    (List.replicate k (.streamArray arr)).foldl Registered.register rs = rs := by
  induction k with
  | zero => rfl
  | succ k ih => exact ih

/-- A handler with two requirements, a tuple that meets the first of them, and tuples that meet none. -/
def staleCalls (k : Nat) : List (MultiplexerCall Nat fun _ : Fin 2 => Bool) :=
  .appendNewEmptyHandler 0 :: .addRequirementToLastHandler 0 true :: .addRequirementToLastHandler 1 true ::
    .streamArray ![true, false] :: List.replicate k (.streamArray ![false, false])

/-- The multiplexer after them. -/
def staleMultiplexer (k : Nat) : Multiplexer Nat fun _ : Fin 2 => Bool where
  uniqueId := 2 + UInt64.ofNat k
  handlersPool := [{ lastId := 2, noReqs := 2, reqsSatisfied := 1, data := 0 }]
  maps := Function.update (Function.update (fun _ _ => []) 0 (Function.update (fun _ => []) true [0])) 1
    (Function.update (fun _ => []) true [0])

theorem run_staleCalls (k : Nat) : run Multiplexer.step {} (staleCalls k) = some (staleMultiplexer k) := by
  have hfirst : run Multiplexer.step {} (staleCalls k) =
      run Multiplexer.step { staleMultiplexer k with uniqueId := 2 } (List.replicate k (.streamArray ![false, false])) := rfl
  rw [hfirst]
  exact run_quiet rfl k

theorem registered_staleCalls (k : Nat) :
    (staleCalls k).foldl Registered.register [] = [(0, [⟨0, true⟩, ⟨1, true⟩])] := register_quiet _ ![false, false] k

/-- When the id comes around, the counter is not reset, and a tuple that meets only the other requirement is taken for one that
meets both. -/
theorem streamArray_not_satisfied : MultiplexerCall.HandlerFirst (staleCalls (2 ^ 64 - 1)) ∧
    (∃ m m', run Multiplexer.step {} (staleCalls (2 ^ 64 - 1)) = some m ∧ m.streamArray ![false, true] = some ([0], m')) ∧
    Registered.satisfiedData ((staleCalls (2 ^ 64 - 1)).foldl Registered.register []) ![false, true] = [] := by
  have hanswer : ∃ m', (staleMultiplexer (2 ^ 64 - 1)).streamArray ![false, true] = some ([0], m') := by
    have hid : (2 : UInt64) + UInt64.ofNat (2 ^ 64 - 1) = 1 := by decide
    rw [staleMultiplexer, hid]
    exact ⟨_, rfl⟩
  obtain ⟨m', hanswer⟩ := hanswer
  refine ⟨trivial, ⟨_, m', run_staleCalls _, hanswer⟩, ?_⟩
  rw [registered_staleCalls]
  decide

end NetworkingFramework
