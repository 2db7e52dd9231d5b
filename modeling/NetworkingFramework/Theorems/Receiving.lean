import NetworkingFramework.AsyncRecv
import NetworkingFramework.Lemmas.MsgBoundary
import NetworkingFramework.Lemmas.MultiNetAccess

/-!
# Receivers behind one another

The receivers registered with a shared net access are the current ones of the net accesses over it, and each gets every packet
once. A receiver behind a queue gets what was accepted, in order, except for what the worker took out while none was set. A
receiver behind a separator gets the messages of the other side, unless a chunk ends inside a size field.
-/

namespace NetworkingFramework

open Wire Runs

/-! ## Shared net accesses -/

/-- Any uses of net accesses over a shared one, of those that live and with no receiver set on two of them, can be made; afterwards
the registered receivers are those last set on a net access that has not been destroyed since, and a packet that arrives is given
to each of them once and to nobody else. -/
theorem multiNetAccess_delivers_to_current (calls : List MultiNetAccessCall) (hproper : MultiNetAccessCall.Proper calls)
    (hone : MultiNetAccessCall.OneOwner calls) :
    ∃ m, run MultiNetAccess.step .init calls = some m ∧
      (∀ l, l ∈ m.multiRecv.listeners ↔ ∃ access, MultiNetAccessCall.SetOn calls access l) ∧
      ∀ (σ : Type) (f : σ → Address → Bytes → σ) (st : σ) (data : Bytes), ∃ called : List Address,
        called.Nodup ∧ (∀ l, l ∈ called ↔ ∃ access, MultiNetAccessCall.SetOn calls access l) ∧ ∀ fuel ≥ called.length,
          m.multiRecv.handleRecv (fun st l d => .ok (f st l d, [])) fuel st data =
            .ok (called.foldl (fun st l => f st l data) st, m.multiRecv, called.map fun l => (l, data)) := by
  obtain ⟨m, hrun, hm⟩ := MultiNetAccess.exists_consistent hproper hone
  refine ⟨m, hrun, hm.registered_iff, fun σ f st data => ?_⟩
  refine ⟨m.multiRecv.listeners.sort, m.multiRecv.listeners.sort_nodup (· ≤ ·), fun l => ?_, fun fuel hfuel => ?_⟩
  · rw [Finset.mem_sort, hm.registered_iff]
  · exact m.multiRecv.handleRecv_passive f hfuel st data

/-- Two net accesses are generated, one of them gets another receiver and the other is destroyed. -/
def replacedCalls : List MultiNetAccessCall :=
  [.generateNetAccess 1, .generateNetAccess 2, .setRecvAccess 1 (some 10), .setRecvAccess 2 (some 20),
    .setRecvAccess 1 (some 11), .destroy 2]

theorem proper_replacedCalls : MultiNetAccessCall.Proper replacedCalls := by
  simp [MultiNetAccessCall.Proper, replacedCalls, each_cons_iff, each_nil, MultiNetAccessCall.Lives, since_cons_iff, not_since_nil]

theorem oneOwner_replacedCalls : MultiNetAccessCall.OneOwner replacedCalls := by
  intro a b l ha hb
  simp only [replacedCalls, List.mem_cons, reduceCtorEq, MultiNetAccessCall.setRecvAccess.injEq, Option.some.injEq,
    List.not_mem_nil, false_or, or_false] at ha hb
  rcases ha with ⟨rfl, rfl⟩ | ⟨rfl, rfl⟩ | ⟨rfl, rfl⟩ <;> simpa [eq_comm] using hb

/-- Only the other receiver of the one that lives is registered. -/
theorem multiNetAccess_delivers_to_current_replaced :
    ∃ m, run MultiNetAccess.step .init replacedCalls = some m ∧ m.multiRecv.listeners = {11} := by
  obtain ⟨m, hrun, hregistered, -⟩ :=
    multiNetAccess_delivers_to_current replacedCalls proper_replacedCalls oneOwner_replacedCalls
  refine ⟨m, hrun, ?_⟩
  ext l
  rw [hregistered, Finset.mem_singleton]
  simp [MultiNetAccessCall.SetOn, replacedCalls, since_cons_iff, not_since_nil, eq_comm]
  constructor
  · rintro ⟨access, ⟨⟨hone, -⟩, -, hother, -⟩ | ⟨⟨rfl, -⟩, -, htwo⟩ | ⟨⟨-, rfl⟩, -⟩⟩
    · exact absurd hone hother
    · exact absurd rfl htwo
    · rfl
  · rintro rfl
    exact ⟨1, .inr (.inr ⟨⟨rfl, rfl⟩, by decide⟩)⟩

/-! ## Receivers behind a queue -/

namespace AsyncHistory

variable {TYPE : Type}

/-- What was accepted was consumed or is in the queue, in order, and the calls are those of the data consumed while a listener
was set. -/
structure Conserved (h : AsyncHistory TYPE) : Prop where
  accepted : h.accepted = h.consumed.map Prod.fst ++ h.now.queue.contents
  called : h.called = h.consumed.filterMap fun c => c.2.map fun l => (l, c.1)

theorem init_conserved (buff : List.Vector TYPE asyncBuffSize) : (init buff).Conserved := ⟨rfl, rfl⟩

/-- A turn of the worker does not fault: it takes the first element, or nothing. -/
theorem workerTurn_eq (a : AsyncRecvListener TYPE) : ∃ a' turn, a.workerTurn = .ok (a', turn) ∧
    a.queue.contents = turn.taken.toList ++ a'.queue.contents ∧
      (turn.call = turn.taken.bind fun data => a.listener.map fun l => (l, data)) ∧ a'.listener = a.listener := by
  unfold AsyncRecvListener.workerTurn
  by_cases hempty : a.queue.isEmpty = true
  · rw [if_pos hempty]
    exact ⟨a, _, rfl, rfl, rfl, rfl⟩
  · rw [if_neg hempty, a.queue.front_eq]
    rw [a.queue.isEmpty_iff] at hempty
    obtain ⟨data, rest, hcontents⟩ := List.exists_cons_of_ne_nil hempty
    have hpop : a.queue.popFront.2.contents = rest := by rw [a.queue.contents_popFront, hcontents, List.tail_cons]
    rw [hcontents, List.head?_cons]
    cases hlistener : a.listener with
    | none => exact ⟨_, _, rfl, by simp [hpop], rfl, rfl⟩
    | some l => exact ⟨_, _, rfl, by simp [hpop], rfl, rfl⟩

/-- Every step can be taken and conserves. -/
theorem Conserved.step {h : AsyncHistory TYPE} (hc : h.Conserved) (s : AsyncStep TYPE) :
    ∃ h', h.step s = some h' ∧ h'.Conserved := by
  cases s with
  | handleRecv data =>
    refine ⟨_, rfl, ?_, hc.called⟩
    by_cases hroom : h.now.queue.contents.length < asyncBuffSize
    · have hfull : ¬h.now.queue.isFull = true := by
        rw [CircularQueue.isFull_iff]
        exact Nat.ne_of_lt hroom
      simp only [AsyncRecvListener.handleRecv, hroom, hfull, if_true, if_false, Bool.false_eq_true]
      rw [CircularQueue.contents_pushBack _ _ hroom, hc.accepted, List.append_assoc]
    · have hfull : h.now.queue.isFull = true := by
        have hle := h.now.queue.count_le
        rw [CircularQueue.isFull_iff]
        rw [CircularQueue.length_contents] at hroom ⊢
        exact Nat.le_antisymm hle (Nat.le_of_not_lt hroom)
      simp only [AsyncRecvListener.handleRecv, hroom, hfull, if_true, if_false]
      exact hc.accepted
  | workerTurn =>
    obtain ⟨a', turn, hturn, hcontents, hcall, -⟩ := workerTurn_eq h.now
    refine ⟨_, by rw [AsyncHistory.step, hturn], ?_, ?_⟩
    · simp only
      rw [hc.accepted, hcontents]
      cases turn.taken <;> simp
    · simp only
      rw [hc.called, hcall]
      cases turn.taken with
      | none => simp
      | some data => cases h.now.listener <;> simp
  | setRecvListener listener => cases listener <;> exact ⟨_, rfl, hc.accepted, hc.called⟩
  | removeListener => exact ⟨_, rfl, hc.accepted, hc.called⟩

/-- The listener that some steps leave set: the one set last, unless it has been removed since. -/
def lastListener (steps : List (AsyncStep TYPE)) : Option Address :=
  steps.foldl (fun listener s =>
    match s with
    | .setRecvListener (some l) => some l
    | .removeListener => none
    | _ => listener) none

/-- The data were consumed at turns of the worker, one after the other, each while the listener was set that the steps before the
turn had left set. -/
def ConsumedAtTurns (steps : List (AsyncStep TYPE)) (consumed : List (TYPE × Option Address)) : Prop :=
  ∃ turns : List (List (AsyncStep TYPE)), consumed.map Prod.snd = turns.map lastListener ∧
    (∀ before ∈ turns, before ++ [.workerTurn] <+: steps) ∧ turns.Pairwise fun a b => a.length < b.length

/-- Steps that follow change no turn. -/
theorem ConsumedAtTurns.append {steps : List (AsyncStep TYPE)} {consumed : List (TYPE × Option Address)}
    (h : ConsumedAtTurns steps consumed) (after : List (AsyncStep TYPE)) : ConsumedAtTurns (steps ++ after) consumed := by
  obtain ⟨turns, heq, hturns, hsorted⟩ := h
  exact ⟨turns, heq, fun before hmem => (hturns before hmem).trans (List.prefix_append steps after), hsorted⟩

/-- A turn of the worker that takes a datum. -/
theorem ConsumedAtTurns.turn {steps : List (AsyncStep TYPE)} {consumed : List (TYPE × Option Address)}
    (h : ConsumedAtTurns steps consumed) (data : TYPE) :
    ConsumedAtTurns (steps ++ [.workerTurn]) (consumed ++ [(data, lastListener steps)]) := by
  obtain ⟨turns, heq, hturns, hsorted⟩ := h
  refine ⟨turns ++ [steps], by simp [heq], fun before hmem => ?_, ?_⟩
  · rcases List.mem_append.mp hmem with hmem | hmem
    · exact (hturns before hmem).trans (List.prefix_append steps _)
    · rw [List.mem_singleton.mp hmem]
  · refine List.pairwise_append.mpr ⟨hsorted, List.pairwise_singleton _ _, fun before hmem last hlast => ?_⟩
    have hle := (hturns before hmem).length_le
    rw [List.length_append, List.length_singleton] at hle
    rw [List.mem_singleton.mp hlast]
    omega

/-- The listener that is set is the one the steps left, and the data were consumed at turns of the worker. -/
structure Traced (steps : List (AsyncStep TYPE)) (h : AsyncHistory TYPE) : Prop where
  conserved : h.Conserved
  listener : h.now.listener = lastListener steps
  turns : ConsumedAtTurns steps h.consumed

theorem init_traced (buff : List.Vector TYPE asyncBuffSize) : Traced [] (init buff) where
  conserved := init_conserved buff
  listener := rfl
  turns := ⟨[], rfl, fun _ hmem => absurd hmem List.not_mem_nil, List.Pairwise.nil⟩

theorem lastListener_snoc (steps : List (AsyncStep TYPE)) (s : AsyncStep TYPE) :
    lastListener (steps ++ [s]) =
      match s with
      | .setRecvListener (some l) => some l
      | .removeListener => none
      | _ => lastListener steps := by
  rw [lastListener, List.foldl_append, List.foldl_cons, List.foldl_nil]
  rfl

/-- Every step can be taken and is traced. -/
theorem Traced.step {steps : List (AsyncStep TYPE)} {h : AsyncHistory TYPE} (ht : Traced steps h) (s : AsyncStep TYPE) :
    ∃ h', h.step s = some h' ∧ Traced (steps ++ [s]) h' := by
  obtain ⟨h', hstep, hconserved⟩ := ht.conserved.step s
  refine ⟨h', hstep, hconserved, ?_, ?_⟩
  · rw [lastListener_snoc]
    cases s with
    | handleRecv data =>
      obtain rfl := Option.some.inj hstep
      have hkeeps : (h.now.handleRecv data).listener = h.now.listener := by
        unfold AsyncRecvListener.handleRecv
        split <;> rfl
      exact hkeeps.trans ht.listener
    | workerTurn =>
      obtain ⟨a', turn, hturn, -, -, hkeeps⟩ := workerTurn_eq h.now
      rw [AsyncHistory.step, hturn] at hstep
      obtain rfl := Option.some.inj hstep
      exact hkeeps.trans ht.listener
    | setRecvListener listener =>
      obtain rfl := Option.some.inj hstep
      cases listener with
      | none => exact ht.listener
      | some l => rfl
    | removeListener =>
      obtain rfl := Option.some.inj hstep
      rfl
  · cases s with
    | workerTurn =>
      obtain ⟨a', turn, hturn, -⟩ := workerTurn_eq h.now
      rw [AsyncHistory.step, hturn] at hstep
      obtain rfl := Option.some.inj hstep
      cases htaken : turn.taken with
      | none => simpa [htaken] using ht.turns.append [.workerTurn]
      | some data => simpa [htaken, ht.listener] using ht.turns.turn data
    | handleRecv data =>
      obtain rfl := Option.some.inj hstep
      exact ht.turns.append _
    | setRecvListener listener =>
      obtain rfl := Option.some.inj hstep
      exact ht.turns.append _
    | removeListener =>
      obtain rfl := Option.some.inj hstep
      exact ht.turns.append _

end AsyncHistory

/-- Whatever the threads do, in whatever order: every step can be taken; what was offered while fewer than 2000 items were queued
is what the worker consumed and then what is queued, in order; the listeners were called with what was consumed while one was
set, once each and in order, where the one that was set is the one last set, and not removed since, by the steps before the turn
of the worker; and at most 2000 items are queued. -/
theorem asyncRecvListener_conserves {TYPE : Type} (buff : List.Vector TYPE asyncBuffSize) (steps : List (AsyncStep TYPE)) :
    ∃ h, run AsyncHistory.step (.init buff) steps = some h ∧
      h.accepted = h.consumed.map Prod.fst ++ h.now.queue.contents ∧
      h.called = h.consumed.filterMap (fun c => c.2.map fun l => (l, c.1)) ∧
      AsyncHistory.ConsumedAtTurns steps h.consumed ∧
      h.now.queue.contents.length ≤ 2000 := by
  obtain ⟨h, hrun, ht⟩ : ∃ h, run AsyncHistory.step (.init buff) steps = some h ∧ AsyncHistory.Traced steps h :=
    exists_run_of_history (P := AsyncHistory.Traced) (fun pre s _ _ _ ht => ht.step s) (AsyncHistory.init_traced buff)
  refine ⟨h, hrun, ht.conserved.accepted, ht.conserved.called, ht.turns, ?_⟩
  rw [CircularQueue.length_contents]
  exact h.now.queue.count_le

/-- Of two data the first is consumed while a listener is set, and given to it, and the second after the listener was removed. -/
theorem asyncRecvListener_conserves_removed :
    ∃ h, run AsyncHistory.step (.init (List.Vector.replicate _ 0))
        [.handleRecv 5, .setRecvListener (some 7), .workerTurn, .handleRecv 6, .removeListener, .workerTurn] = some h ∧
      h.accepted = [5, 6] ∧ h.called = [(7, 5)] ∧ h.consumed.map Prod.fst = [5, 6] := by
  obtain ⟨h, hrun, -, hcalled, -⟩ := asyncRecvListener_conserves (List.Vector.replicate asyncBuffSize 0)
    [.handleRecv 5, .setRecvListener (some 7), .workerTurn, .handleRecv 6, .removeListener, .workerTurn]
  obtain rfl := Option.some.inj hrun
  exact ⟨_, rfl, rfl, hcalled, rfl⟩

/-! ## Receivers behind a stream -/

section Stream

open MsgBoundarySeperator

/-- Messages of at most 65535 bytes that are sent over a stream, and received in chunks of 2 to 1024 bytes, are forwarded
complete, in order and once each, with no read outside a chunk, if and only if no chunk ends between the two bytes of a size
field. -/
theorem msgBoundary_reassembles_iff (msgs chunks : List Bytes) (currRead : UInt16) (hmsgs : ∀ m ∈ msgs, m.length ≤ 65535)
    (hchunks : ∀ c ∈ chunks, 2 ≤ c.length ∧ c.length ≤ 1024) (hstream : chunks.flatten = (msgs.map sendData).flatten) :
    (∀ fuel ≥ 1024, ∃ s, handleCallbacks fuel (.init currRead) chunks = .ok (s, msgs.map tcpReceived)) ↔
      ∀ pre post before m after, chunks = pre ++ post → msgs = before ++ m :: after →
        pre.flatten.length ≠ (before.map sendData).flatten.length + 1 := by
  have hmsgs' : ∀ m ∈ msgs, m.length < 65536 := fun m hm => Nat.lt_succ_of_le (hmsgs m hm)
  have hforwards : ∀ fuel ≥ 1024,
      (∃ s, handleCallbacks fuel (.init currRead) chunks = .ok (s, msgs.map tcpReceived)) ↔
        ∀ pre post, chunks = pre ++ post → ¬Framing.CutsHeader sizeField msgs post.flatten.length := by
    intro fuel hfuel
    have hlimits : ∀ c ∈ chunks, c.length < 65536 ∧ c.length ≤ fuel := by
      intro c hc
      have hle := (hchunks c hc).2
      exact ⟨by omega, hle.trans hfuel⟩
    have hinit : (init currRead).Holds .between := rfl
    exact handleCallbacks_forwards_iff hinit hmsgs' hlimits (hstream.trans (sendData_flatten hmsgs'))
  constructor
  · intro h pre post before m after hsplit heq hcut
    refine (hforwards 1024 (Nat.le_refl _)).mp (h 1024 (Nat.le_refl _)) pre post hsplit ?_
    exact (cutsHeader_iff_between hmsgs' (hsplit ▸ hstream)).mpr ⟨before, m, after, heq, hcut⟩
  · intro h fuel hfuel
    refine (hforwards fuel hfuel).mpr fun pre post hsplit hcut => ?_
    obtain ⟨before, m, after, heq, hpre⟩ := (cutsHeader_iff_between hmsgs' (hsplit ▸ hstream)).mp hcut
    exact h pre post before m after hsplit heq hpre

/-- Three messages, one of them empty, in chunks that end inside a body and between messages. -/
theorem msgBoundary_reassembles_bodies : ∃ s,
    handleCallbacks 1024 (.init 0) [[2, 0, 65], [66, 0, 0], [1, 0, 67]] = .ok (s, [[65, 66], [], [67]].map tcpReceived) := by
  have hiff := msgBoundary_reassembles_iff [[65, 66], [], [67]] [[2, 0, 65], [66, 0, 0], [1, 0, 67]] 0 (by decide) (by decide) rfl
  refine hiff.mpr ?_ 1024 (Nat.le_refl _)
  intro pre post before m after hsplit heq
  have hends : ∀ k ≤ 3, ∀ n ≤ 2, (([[2, 0, 65], [66, 0, 0], [1, 0, 67]] : List Bytes).take k).flatten.length ≠
      ((([[65, 66], [], [67]] : List Bytes).take n).map sendData).flatten.length + 1 := by decide
  have hpre : ([[2, 0, 65], [66, 0, 0], [1, 0, 67]] : List Bytes).take pre.length = pre := by rw [hsplit, List.take_left]
  have hbefore : ([[65, 66], [], [67]] : List Bytes).take before.length = before := by rw [heq, List.take_left]
  have hlen := congrArg List.length hsplit
  have hlen' := congrArg List.length heq
  simp only [List.length_cons, List.length_nil, List.length_append] at hlen hlen'
  have h := hends pre.length (by omega) before.length (by omega)
  rwa [hpre, hbefore] at h

/-- The messages `A` and `B`, in two chunks of which the first ends with the first byte of the second size. -/
theorem msgBoundary_reassembles_counterexample :
    ¬∀ (msgs chunks : List Bytes) (currRead : UInt16), (∀ m ∈ msgs, m.length ≤ 65535) →
      (∀ c ∈ chunks, 2 ≤ c.length ∧ c.length ≤ 1024) → chunks.flatten = (msgs.map sendData).flatten →
        ∀ fuel ≥ 1024, ∃ s, handleCallbacks fuel (.init currRead) chunks = .ok (s, msgs.map tcpReceived) := by
  intro h
  obtain ⟨s, hs⟩ := h [[65], [66]] [[1, 0, 65, 1], [0, 66]] 0 (by decide) (by decide) rfl 1024 (Nat.le_refl _)
  have hfault : handleCallbacks 1024 (.init 0) [[1, 0, 65, 1], [0, 66]] = .error .outOfBounds := rfl
  rw [hfault] at hs
  cases hs

end Stream

end NetworkingFramework
