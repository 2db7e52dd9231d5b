import NetworkingFramework.Lemmas.AsyncLocks
import NetworkingFramework.Theorems.Receiving

/-!
# The locks behind a receiver

Lock by lock, a receiver behind a queue does what it does when its steps are whole, and gives its locks back. What is stored
while the worker is about to wait is left in the queue, and nothing else is.
-/

namespace NetworkingFramework

open Wire Runs Mutex

namespace AsyncThreads

variable {Tid TYPE : Type} [DecidableEq Tid] {s s' : AsyncThreads Tid TYPE}

/-- What holds of every run. -/
theorem locked_of_run {buff : List.Vector TYPE asyncBuffSize} {steps : List (ThreadStep Tid TYPE)}
    (hrun : run AsyncThreads.step (init buff) steps = some s) : s.Locked :=
  invariant_of_run (P := Locked) (fun _ _ _ _ hs hstep => hs.step hstep) hrun (locked_init buff)

theorem conserved_of_run {buff : List.Vector TYPE asyncBuffSize} {steps : List (AsyncStep TYPE)} {h : AsyncHistory TYPE}
    (hrun : run AsyncHistory.step (.init buff) steps = some h) : h.Conserved := by
  refine invariant_of_run (P := AsyncHistory.Conserved) (fun h a h' _ hc hstep => ?_) hrun (AsyncHistory.init_conserved buff)
  obtain ⟨h'', hstep', hc'⟩ := hc.step a
  obtain rfl := Option.some.inj (hstep.symm.trans hstep')
  exact hc'

theorem exists_refined {buff : List.Vector TYPE asyncBuffSize} {steps : List (ThreadStep Tid TYPE)}
    (hrun : run AsyncThreads.step (init buff) steps = some s) :
    ∃ as h, run AsyncHistory.step (.init buff) as = some h ∧ s.Refines h := by
  have hstep (s : AsyncThreads Tid TYPE) (e : ThreadStep Tid TYPE) (s' : AsyncThreads Tid TYPE) (h : AsyncHistory TYPE)
      (hboth : s.Refines h ∧ s.Locked) (hstep : s.step e = some s') :
      ∃ as h', run AsyncHistory.step h as = some h' ∧ s'.Refines h' ∧ s'.Locked := by
    obtain ⟨as, h', hmatch, hR⟩ := hboth.1.step hboth.2 hstep
    exact ⟨as, h', hmatch, hR, hboth.2.step hstep⟩
  obtain ⟨as, h, hmatch, hR, -⟩ := exists_matching_run hstep ⟨refines_init buff, locked_init buff⟩ hrun
  exact ⟨as, h, hmatch, hR⟩

/-- What was stored was consumed, or is in the worker's hand, or in the queue. -/
theorem stored_of_run {buff : List.Vector TYPE asyncBuffSize} {steps : List (ThreadStep Tid TYPE)}
    (hrun : run AsyncThreads.step (init buff) steps = some s) :
    s.accepted = s.consumed.map Prod.fst ++ (s.worker.inHand.toList ++ s.now.queue.contents) := by
  obtain ⟨as, h, hmatch, hR⟩ := exists_refined hrun
  rw [← hR.accepted, (conserved_of_run hmatch).accepted, hR.consumed]
  refine congrArg (_ ++ ·) ?_
  have hqueue := hR.queue
  cases hhand : s.worker.inHand with
  | none =>
    rw [hhand] at hqueue
    rw [hqueue]
    rfl
  | some data =>
    rw [hhand] at hqueue
    obtain ⟨hfront, hpop⟩ := hqueue
    rw [h.now.queue.front_eq] at hfront
    rw [← hpop, h.now.queue.contents_popFront]
    exact List.eq_cons_of_mem_head? hfront

end AsyncThreads

/-- One thread offers a datum, and the worker takes it and calls the listener that another has set. -/
def offeredOnce : List (ThreadStep Bool Nat) :=
  .setRecvListener false (some 7) :: List.replicate 3 (.caller false) ++ .handleRecv true 5 :: List.replicate 4 (.caller true) ++
    List.replicate 6 .worker

namespace AsyncThreads

variable {Tid TYPE : Type}

/-- A step of a thread other than the worker, in its call. -/
def IsCaller (e : ThreadStep Tid TYPE) : Prop := ∃ t, e = .caller t

/-- A step of a thread that does not begin a call. -/
def GoesOn (e : ThreadStep Tid TYPE) : Prop := e = .worker ∨ IsCaller e

theorem goesOn_of_isCaller {e : ThreadStep Tid TYPE} (h : IsCaller e) : GoesOn e := .inr h

/-- Nobody has a lock. -/
def IsFree (s : AsyncThreads Tid TYPE) : Prop := s.buffMtx = none ∧ s.listenerMtx = none

variable [DecidableEq Tid] {s s' : AsyncThreads Tid TYPE} {t : Tid} {P : AsyncThreads Tid TYPE → Prop} {n : Nat}

/-- One more step of a thread. -/
theorem leads_caller (hstep : s.stepCaller t = some s') (h : LeadsWithin AsyncThreads.step IsCaller n s' P) :
    LeadsWithin AsyncThreads.step IsCaller (n + 1) s P :=
  h.of_step ⟨t, rfl⟩ hstep

/-- One more step of the worker. -/
theorem leads_worker (hs : s.Locked) (hstep : s.stepWorker = some s')
    (h : s'.Locked → LeadsWithin AsyncThreads.step GoesOn n s' P) : LeadsWithin AsyncThreads.step GoesOn (n + 1) s P :=
  (h (hs.stepWorker hstep)).of_step (.inl rfl) hstep

/-- A thread gives the lock of the listener back. -/
theorem leads_listenerMtx_none (h : (s.caller t).HasListener) :
    LeadsWithin AsyncThreads.step IsCaller 2 s fun s' => s'.listenerMtx = none := by
  have hunlock {s : AsyncThreads Tid TYPE} (hplace : s.caller t = .setUnlock) :
      LeadsWithin AsyncThreads.step IsCaller 1 s fun s' => s'.listenerMtx = none := by
    refine leads_caller (t := t) (by simp only [stepCaller, hplace]; rfl) ?_
    exact leadsWithin_now rfl
  cases hplace : s.caller t with
  | setUnlock => exact (hunlock hplace).mono (by decide)
  | setAssign listener =>
    refine leads_caller (t := t) (by simp only [stepCaller, hplace]; rfl) ?_
    exact hunlock (caller_goTo_self s t _)
  | _ =>
    rw [hplace] at h
    exact h.elim

/-- A thread gives the lock of the queue back. -/
theorem leads_buffMtx_none (h : (s.caller t).HasBuff) :
    LeadsWithin AsyncThreads.step IsCaller 3 s fun s' => s'.buffMtx = none ∧ s'.listenerMtx = s.listenerMtx := by
  have hunlock {s : AsyncThreads Tid TYPE} (hplace : s.caller t = .recvUnlock) :
      LeadsWithin AsyncThreads.step IsCaller 1 s fun s' => s'.buffMtx = none ∧ s'.listenerMtx = s.listenerMtx := by
    refine leads_caller (t := t) (by simp only [stepCaller, hplace]; rfl) ?_
    exact leadsWithin_now ⟨rfl, rfl⟩
  have hnotify {s : AsyncThreads Tid TYPE} (hplace : s.caller t = .recvNotify) :
      LeadsWithin AsyncThreads.step IsCaller 2 s fun s' => s'.buffMtx = none ∧ s'.listenerMtx = s.listenerMtx := by
    refine leads_caller (t := t) (by simp only [stepCaller, hplace]; rfl) ?_
    exact hunlock (caller_goTo_self s t _)
  cases hplace : s.caller t with
  | recvUnlock => exact (hunlock hplace).mono (by decide)
  | recvNotify => exact (hnotify hplace).mono (by decide)
  | recvPush data =>
    by_cases hfull : s.now.queue.isFull = true
    · refine (leads_caller (t := t) (n := 1) (by simp only [stepCaller, hplace, hfull, if_true]; rfl) ?_).mono (by decide)
      exact hunlock (caller_goTo_self s t _)
    · refine leads_caller (t := t) (by simp only [stepCaller, hplace, hfull, if_false, Bool.false_eq_true]; rfl) ?_
      exact hnotify (caller_goTo_self s t _)
  | _ =>
    rw [hplace] at h
    exact h.elim

/-- The worker gives both locks back when it has called the listener. -/
theorem leads_worker_listener (hs : s.Locked) (h : s.worker.HasListener) :
    LeadsWithin AsyncThreads.step GoesOn 2 s IsFree := by
  have hcalling {s : AsyncThreads Tid TYPE} (hs : s.Locked) (hplace : s.worker = .calling) :
      LeadsWithin AsyncThreads.step GoesOn 1 s IsFree := by
    refine leads_worker hs (by simp only [stepWorker, hplace]; rfl) fun _ => ?_
    exact leadsWithin_now ⟨rfl, rfl⟩
  cases hplace : s.worker with
  | calling => exact (hcalling hs hplace).mono (by decide)
  | forward data =>
    cases hlistener : s.now.listener with
    | none =>
      refine leads_worker hs (by simp only [stepWorker, hplace, hlistener]; rfl) fun _ => ?_
      exact leadsWithin_now ⟨rfl, rfl⟩
    | some l =>
      refine leads_worker hs (by simp only [stepWorker, hplace, hlistener]; rfl) fun hs' => ?_
      exact hcalling hs' rfl
  | _ =>
    rw [hplace] at h
    exact h.elim

/-- The worker gives the lock of the queue back. -/
theorem leads_worker_buff (hs : s.Locked) (hlistener : s.listenerMtx = none) (h : s.worker.HasBuff) :
    LeadsWithin AsyncThreads.step GoesOn 4 s IsFree := by
  have hlock {s : AsyncThreads Tid TYPE} {data : TYPE} (hs : s.Locked) (hlistener : s.listenerMtx = none)
      (hplace : s.worker = .lockListener data) : LeadsWithin AsyncThreads.step GoesOn 3 s IsFree := by
    refine leads_worker hs (by simp only [stepWorker, hplace, hlistener, Option.isNone_none, if_true]; rfl) fun hs' => ?_
    exact leads_worker_listener hs' trivial
  cases hplace : s.worker with
  | conditionLocked =>
    refine leads_worker hs (by simp only [stepWorker, hplace]; rfl) fun _ => ?_
    exact leadsWithin_now ⟨rfl, hlistener⟩
  | take =>
    by_cases hempty : s.now.queue.isEmpty = true
    · refine leads_worker hs (by simp only [stepWorker, hplace, hempty, if_true]; rfl) fun _ => ?_
      exact leadsWithin_now ⟨rfl, hlistener⟩
    · have hfront : s.now.queue.front = some _ :=
        s.now.queue.front_eq.trans (List.head?_eq_some_head (mt s.now.queue.isEmpty_iff.mpr hempty))
      refine leads_worker hs (by simp only [stepWorker, hplace, hempty, if_false, hfront, Option.map_some, Bool.false_eq_true]; rfl)
        fun hs' => ?_
      exact hlock hs' hlistener rfl
  | lockListener data => exact (hlock hs hlistener hplace).mono (by decide)
  | forward data | calling => exact (leads_worker_listener hs (by rw [hplace]; trivial)).mono (by decide)
  | _ =>
    rw [hplace] at h
    exact h.elim

/-- With the lock of the listener free, that of the queue comes to be free too. -/
theorem leads_isFree (hs : s.Locked) (hlistener : s.listenerMtx = none) : LeadsWithin AsyncThreads.step GoesOn 4 s IsFree := by
  cases hbuff : s.buffMtx with
  | none => exact leadsWithin_now ⟨hbuff, hlistener⟩
  | some o =>
    have hholds := (hs.buff o).mp hbuff
    cases o with
    | worker => exact leads_worker_buff hs hlistener hholds
    | caller t =>
      have hcaller := (leads_buffMtx_none hholds).of_kind fun _ => goesOn_of_isCaller
      refine (hcaller.trans (m := 0) fun s' hs' => ?_).mono (by decide)
      exact leadsWithin_now ⟨hs'.1, hs'.2.trans hlistener⟩

end AsyncThreads

/-- No interleaving ends with a lock that is not given back: from every state of every run, at most six steps of threads that are in
the locks lead to one where both are free, without a new call. -/
theorem asyncThreads_release {Tid TYPE : Type} [DecidableEq Tid] (buff : List.Vector TYPE asyncBuffSize)
    (steps : List (ThreadStep Tid TYPE)) (s : AsyncThreads Tid TYPE) (hrun : run AsyncThreads.step (.init buff) steps = some s) :
    LeadsWithin AsyncThreads.step AsyncThreads.GoesOn 6 s AsyncThreads.IsFree := by
  have hs := AsyncThreads.locked_of_run hrun
  cases hlistener : s.listenerMtx with
  | none => exact (AsyncThreads.leads_isFree hs hlistener).mono (by decide)
  | some o =>
    have hholds := (hs.listener o).mp hlistener
    cases o with
    | worker => exact (AsyncThreads.leads_worker_listener hs hholds).mono (by decide)
    | caller t =>
      have hcaller := (AsyncThreads.leads_listenerMtx_none hholds).of_kind fun _ => AsyncThreads.goesOn_of_isCaller
      refine (hcaller.keep (I := AsyncThreads.Locked) (fun _ _ _ _ hs hstep => hs.step hstep) hs).trans (m := 4) fun s' hs' => ?_
      exact AsyncThreads.leads_isFree hs'.2 hs'.1

theorem asyncThreads_release_once : ∃ s, run AsyncThreads.step (.init (List.Vector.replicate _ 0)) (offeredOnce.take 15) = some s ∧
    s.worker = .calling ∧ LeadsWithin AsyncThreads.step AsyncThreads.GoesOn 6 s AsyncThreads.IsFree :=
  ⟨_, rfl, rfl, asyncThreads_release (List.Vector.replicate _ 0) (offeredOnce.take 15) _ rfl⟩

/-! ## What is stored is consumed -/

namespace AsyncThreads

variable {Tid TYPE : Type}

/-- What the steps of other threads in their calls leave to the worker. -/
structure Leaves (s s' : AsyncThreads Tid TYPE) : Prop where
  worker : s.worker.notify = s.worker → s'.worker = s.worker
  queue : s'.now.queue.contents = [] → s.now.queue.contents = []
  consumed : s'.consumed = s.consumed
  accepted : s.accepted <+: s'.accepted

/-- A worker that waits and is not notified finds nothing in the queue, or somebody is about to notify it; and nothing is stored
while it is about to wait. -/
def Awake (s : AsyncThreads Tid TYPE) : Prop :=
  match s.worker with
  | .window => s.now.queue.contents = []
  | .waiting false => s.now.queue.contents = [] ∨ ∃ t, s.caller t = .recvNotify
  | _ => True

/-- Nothing is stored while the worker is about to wait. -/
def Timely (s : AsyncThreads Tid TYPE) (e : ThreadStep Tid TYPE) : Prop :=
  ∀ t data, e = .caller t → s.caller t = .recvPush data → s.worker = .window → s.now.queue.isFull = true

/-- The worker has consumed the next datum. -/
def HasConsumed (k : Nat) (s : AsyncThreads Tid TYPE) : Prop :=
  s.consumed.length = k + 1 ∧ (s.worker = .condition ∨ s.worker = .calling)

variable {s s' : AsyncThreads Tid TYPE} {t : Tid} {P : AsyncThreads Tid TYPE → Prop} {n : Nat}

theorem leaves_rfl : s.Leaves s := ⟨fun _ => rfl, id, rfl, List.prefix_rfl⟩

/-- A step after which the worker, the queue and whoever is about to notify are as they were. -/
theorem Awake.stay (h : s.Awake) (hworker : s'.worker = s.worker) (hqueue : s'.now.queue = s.now.queue)
    (hcaller : ∀ t, s.caller t = .recvNotify → s'.caller t = .recvNotify) : s'.Awake := by
  unfold Awake at h ⊢
  rw [hworker, hqueue]
  split at h
  · exact h
  · exact h.imp_right fun ⟨t, ht⟩ => ⟨t, hcaller t ht⟩
  · exact h

/-- The worker looks into the queue before it waits. -/
theorem Awake.stepWorker (h : s.Awake) (hstep : s.stepWorker = some s') : s'.Awake := by
  unfold AsyncThreads.stepWorker at hstep
  split at hstep
  · split at hstep
    · obtain rfl := Option.some.inj hstep
      trivial
    · cases hstep
  · obtain rfl := Option.some.inj hstep
    by_cases hempty : s.now.queue.isEmpty = true
    · simp only [Awake, hempty, if_true]
      exact s.now.queue.isEmpty_iff.mp hempty
    · simp only [Awake, hempty, if_false, Bool.false_eq_true]
  · next hplace =>
    obtain rfl := Option.some.inj hstep
    rw [Awake, hplace] at h
    exact .inl h
  · split at hstep
    · obtain rfl := Option.some.inj hstep
      trivial
    · cases hstep
  · split at hstep
    · obtain rfl := Option.some.inj hstep
      trivial
    · cases hstep
  · split at hstep
    · obtain rfl := Option.some.inj hstep
      trivial
    · obtain ⟨data, -, rfl⟩ := Option.map_eq_some_iff.mp hstep
      trivial
  · split at hstep
    · obtain rfl := Option.some.inj hstep
      trivial
    · cases hstep
  · split at hstep
    · obtain rfl := Option.some.inj hstep
      trivial
    · obtain rfl := Option.some.inj hstep
      trivial
  · obtain rfl := Option.some.inj hstep
    trivial

theorem awake_of_hasConsumed {k : Nat} (h : s.HasConsumed k) : s.Awake := by
  rcases h.2 with hplace | hplace
  · rw [Awake, hplace]
    trivial
  · rw [Awake, hplace]
    trivial

theorem accepted_stepWorker (hstep : s.stepWorker = some s') : s'.accepted = s.accepted := by
  grind [AsyncThreads.stepWorker, again, Option.map_eq_some_iff]

variable [DecidableEq Tid]

theorem Leaves.stepCaller {s₀ : AsyncThreads Tid TYPE} (h : s₀.Leaves s) (hstep : s.stepCaller t = some s') : s₀.Leaves s' := by
  unfold AsyncThreads.stepCaller at hstep
  split at hstep
  · cases hstep
  · split at hstep
    · obtain rfl := Option.some.inj hstep
      exact ⟨h.worker, h.queue, h.consumed, h.accepted⟩
    · cases hstep
  · next data hplace =>
    split at hstep
    · obtain rfl := Option.some.inj hstep
      exact ⟨h.worker, h.queue, h.consumed, h.accepted⟩
    · next hroom =>
      obtain rfl := Option.some.inj hstep
      refine ⟨h.worker, fun hempty => ?_, h.consumed, h.accepted.trans (List.prefix_append ..)⟩
      rw [s.now.queue.contents_pushBack data (lt_of_not_isFull hroom)] at hempty
      exact absurd hempty (List.append_ne_nil_of_right_ne_nil _ (List.cons_ne_nil data []))
  · obtain rfl := Option.some.inj hstep
    refine ⟨fun hplace => ?_, h.queue, h.consumed, h.accepted⟩
    have hworker := h.worker hplace
    exact (congrArg WorkerPlace.notify hworker).trans hplace
  · obtain rfl := Option.some.inj hstep
    exact ⟨h.worker, h.queue, h.consumed, h.accepted⟩
  · split at hstep
    · obtain rfl := Option.some.inj hstep
      exact ⟨h.worker, h.queue, h.consumed, h.accepted⟩
    · cases hstep
  · obtain rfl := Option.some.inj hstep
    exact ⟨h.worker, h.queue, h.consumed, h.accepted⟩
  · obtain rfl := Option.some.inj hstep
    exact ⟨h.worker, h.queue, h.consumed, h.accepted⟩

/-- While other threads go on, the worker stays where it is. -/
theorem leads_leaving (hs : s.Locked) (h : LeadsWithin AsyncThreads.step IsCaller n s P) :
    LeadsWithin AsyncThreads.step GoesOn n s fun s' => P s' ∧ s'.Locked ∧ s.Leaves s' := by
  refine (h.keep (I := fun s' => s'.Locked ∧ s.Leaves s') ?_ ⟨hs, leaves_rfl⟩).of_kind fun _ => goesOn_of_isCaller
  rintro s₁ _ s₂ ⟨t, rfl⟩ ⟨hs₁, hleaves⟩ hstep
  exact ⟨hs₁.stepCaller hstep, hleaves.stepCaller hstep⟩

/-- The lock of the listener comes to be free for the worker. -/
theorem leads_listener_free (hs : s.Locked) (h : ¬s.worker.HasListener) :
    LeadsWithin AsyncThreads.step GoesOn 2 s fun s' => s'.listenerMtx = none ∧ s'.Locked ∧ s.Leaves s' := by
  refine leads_leaving hs ?_
  cases hlistener : s.listenerMtx with
  | none => exact leadsWithin_now hlistener
  | some o =>
    have hholds := (hs.listener o).mp hlistener
    cases o with
    | worker => exact absurd hholds h
    | caller t => exact leads_listenerMtx_none hholds

/-- The lock of the queue comes to be free for the worker. -/
theorem leads_buff_free (hs : s.Locked) (h : ¬s.worker.HasBuff) :
    LeadsWithin AsyncThreads.step GoesOn 3 s
      fun s' => (s'.buffMtx = none ∧ s'.listenerMtx = s.listenerMtx) ∧ s'.Locked ∧ s.Leaves s' := by
  refine leads_leaving hs ?_
  cases hbuff : s.buffMtx with
  | none => exact leadsWithin_now ⟨hbuff, rfl⟩
  | some o =>
    have hholds := (hs.buff o).mp hbuff
    cases o with
    | worker => exact absurd hholds h
    | caller t => exact leads_buffMtx_none hholds

theorem leads_of_forward {data : TYPE} (hs : s.Locked) (hplace : s.worker = .forward data) :
    LeadsWithin AsyncThreads.step GoesOn 1 s (HasConsumed s.consumed.length) := by
  cases hlistener : s.now.listener with
  | none =>
    refine leads_worker hs (by simp only [stepWorker, hplace, hlistener]; rfl) fun _ => ?_
    exact leadsWithin_now ⟨List.length_append, .inl rfl⟩
  | some l =>
    refine leads_worker hs (by simp only [stepWorker, hplace, hlistener]; rfl) fun _ => ?_
    exact leadsWithin_now ⟨List.length_append, .inr rfl⟩

theorem leads_of_lockListener {data : TYPE} (hs : s.Locked) (hplace : s.worker = .lockListener data) :
    LeadsWithin AsyncThreads.step GoesOn 4 s (HasConsumed s.consumed.length) := by
  refine (leads_listener_free hs (by rw [hplace]; exact id)).trans (m := 2) fun s₁ ⟨hfree, hs₁, hleaves⟩ => ?_
  have hplace₁ : s₁.worker = .lockListener data := (hleaves.worker (by rw [hplace]; rfl)).trans hplace
  rw [← hleaves.consumed]
  refine leads_worker hs₁ (by simp only [stepWorker, hplace₁, hfree, Option.isNone_none, if_true]; rfl) fun hs₂ => ?_
  exact leads_of_forward hs₂ rfl

theorem leads_of_take (hs : s.Locked) (hplace : s.worker = .take) (hqueue : s.now.queue.contents ≠ []) :
    LeadsWithin AsyncThreads.step GoesOn 5 s (HasConsumed s.consumed.length) := by
  have hempty : ¬s.now.queue.isEmpty = true := mt s.now.queue.isEmpty_iff.mp hqueue
  have hfront : s.now.queue.front = some _ := s.now.queue.front_eq.trans (List.head?_eq_some_head hqueue)
  refine leads_worker hs (by simp only [stepWorker, hplace, hempty, if_false, hfront, Option.map_some, Bool.false_eq_true]; rfl)
    fun hs' => ?_
  exact leads_of_lockListener hs' rfl

theorem leads_of_lockQueue (hs : s.Locked) (hplace : s.worker = .lockQueue) (hqueue : s.now.queue.contents ≠ []) :
    LeadsWithin AsyncThreads.step GoesOn 9 s (HasConsumed s.consumed.length) := by
  refine (leads_buff_free hs (by rw [hplace]; exact id)).trans (m := 6) fun s₁ ⟨hfree, hs₁, hleaves⟩ => ?_
  have hplace₁ : s₁.worker = .lockQueue := (hleaves.worker (by rw [hplace]; rfl)).trans hplace
  rw [← hleaves.consumed]
  refine leads_worker hs₁ (by simp only [stepWorker, hplace₁, hfree.1, Option.isNone_none, if_true]; rfl) fun hs₂ => ?_
  exact leads_of_take hs₂ rfl (mt hleaves.queue hqueue)

theorem leads_of_conditionLocked (hs : s.Locked) (hplace : s.worker = .conditionLocked) (hqueue : s.now.queue.contents ≠ []) :
    LeadsWithin AsyncThreads.step GoesOn 10 s (HasConsumed s.consumed.length) := by
  have hempty : ¬s.now.queue.isEmpty = true := mt s.now.queue.isEmpty_iff.mp hqueue
  refine leads_worker hs (by simp only [stepWorker, hplace, hempty, if_false, Bool.false_eq_true]; rfl) fun hs' => ?_
  exact leads_of_lockQueue hs' rfl hqueue

theorem leads_of_condition (hs : s.Locked) (hplace : s.worker = .condition) (hqueue : s.now.queue.contents ≠ []) :
    LeadsWithin AsyncThreads.step GoesOn 14 s (HasConsumed s.consumed.length) := by
  refine (leads_buff_free hs (by rw [hplace]; exact id)).trans (m := 11) fun s₁ ⟨hfree, hs₁, hleaves⟩ => ?_
  have hplace₁ : s₁.worker = .condition := (hleaves.worker (by rw [hplace]; rfl)).trans hplace
  rw [← hleaves.consumed]
  refine leads_worker hs₁ (by simp only [stepWorker, hplace₁, hfree.1, Option.isNone_none, if_true]; rfl) fun hs₂ => ?_
  exact leads_of_conditionLocked hs₂ rfl (mt hleaves.queue hqueue)

theorem leads_of_notified (hs : s.Locked) (hplace : s.worker = .waiting true) (hqueue : s.now.queue.contents ≠ []) :
    LeadsWithin AsyncThreads.step GoesOn 15 s (HasConsumed s.consumed.length) := by
  refine leads_worker hs (by simp only [stepWorker, hplace, if_true]; rfl) fun hs' => ?_
  exact leads_of_condition hs' rfl hqueue

/-- Where the worker has something to take, it is brought to consume something. -/
theorem leads_hasConsumed (hs : s.Locked) (hawake : s.Awake) (h : s.worker.inHand.toList ++ s.now.queue.contents ≠ []) :
    LeadsWithin AsyncThreads.step GoesOn 16 s (HasConsumed s.consumed.length) := by
  cases hplace : s.worker with
  | condition =>
    rw [hplace] at h
    exact (leads_of_condition hs hplace h).mono (by decide)
  | conditionLocked =>
    rw [hplace] at h
    exact (leads_of_conditionLocked hs hplace h).mono (by decide)
  | window =>
    rw [hplace] at h
    rw [Awake, hplace] at hawake
    exact absurd hawake h
  | waiting notified =>
    rw [hplace] at h
    cases notified with
    | true => exact (leads_of_notified hs hplace h).mono (by decide)
    | false =>
      rw [Awake, hplace] at hawake
      obtain ⟨t, ht⟩ := hawake.resolve_left h
      have hstep : s.stepCaller t = some { s.goTo t .recvUnlock with worker := .waiting true } := by
        simp only [stepCaller, ht, hplace, WorkerPlace.notify]
      exact (leads_of_notified (hs.stepCaller hstep) rfl h).of_step (.inr ⟨t, rfl⟩) hstep
  | lockQueue =>
    rw [hplace] at h
    exact (leads_of_lockQueue hs hplace h).mono (by decide)
  | take =>
    rw [hplace] at h
    exact (leads_of_take hs hplace h).mono (by decide)
  | lockListener data => exact (leads_of_lockListener hs hplace).mono (by decide)
  | forward data => exact (leads_of_forward hs hplace).mono (by decide)
  | calling =>
    rw [hplace] at h
    refine leads_worker hs (by simp only [stepWorker, hplace]; rfl) fun hs' => ?_
    exact (leads_of_condition (s := s.again) hs' rfl h).mono (by decide)

/-- Nor is a thread that was elsewhere about to notify. -/
theorem Awake.goTo (h : s.Awake) (hplace : s.caller t ≠ .recvNotify) (hworker : s'.worker = s.worker)
    (hqueue : s'.now.queue = s.now.queue) {place : CallerPlace TYPE} (hcaller : s'.caller = (s.goTo t place).caller) :
    s'.Awake := by
  refine h.stay hworker hqueue fun u hu => ?_
  have hne : u ≠ t := fun heq => hplace (heq ▸ hu)
  rw [hcaller, caller_goTo_of_ne s place hne, hu]

theorem Awake.stepCaller (h : s.Awake) (htimely : s.Timely (.caller t)) (hstep : s.stepCaller t = some s') : s'.Awake := by
  unfold AsyncThreads.stepCaller at hstep
  split at hstep
  · cases hstep
  · next data hplace =>
    split at hstep
    · obtain rfl := Option.some.inj hstep
      exact h.goTo (by simp [hplace]) rfl rfl rfl
    · cases hstep
  · next data hplace =>
    split at hstep
    · obtain rfl := Option.some.inj hstep
      exact h.goTo (by simp [hplace]) rfl rfl rfl
    · next hroom =>
      obtain rfl := Option.some.inj hstep
      unfold Awake
      split
      · next hwindow => exact absurd (htimely t data rfl hplace hwindow) hroom
      · exact .inr ⟨t, caller_goTo_self s t _⟩
      · trivial
  · obtain rfl := Option.some.inj hstep
    unfold Awake at h ⊢
    cases hworker : s.worker with
    | window =>
      rw [hworker] at h
      exact h
    | _ => trivial
  · next hplace =>
    obtain rfl := Option.some.inj hstep
    exact h.goTo (by simp [hplace]) rfl rfl rfl
  · next listener hplace =>
    split at hstep
    · obtain rfl := Option.some.inj hstep
      exact h.goTo (by simp [hplace]) rfl rfl rfl
    · cases hstep
  · next listener hplace =>
    obtain rfl := Option.some.inj hstep
    exact h.goTo (by simp [hplace]) rfl rfl rfl
  · next hplace =>
    obtain rfl := Option.some.inj hstep
    exact h.goTo (by simp [hplace]) rfl rfl rfl

theorem Awake.step (h : s.Awake) {e : ThreadStep Tid TYPE} (htimely : s.Timely e) (hstep : s.step e = some s') : s'.Awake := by
  cases e with
  | handleRecv t data | setRecvListener t listener | removeListener t =>
    obtain ⟨hplace, rfl⟩ := call_cases hstep
    exact h.goTo (by simp [hplace]) rfl rfl rfl
  | caller t => exact h.stepCaller htimely hstep
  | worker => exact h.stepWorker hstep
  | wake =>
    simp only [AsyncThreads.step] at hstep
    split at hstep
    · obtain rfl := Option.some.inj hstep
      trivial
    · cases hstep

/-- What was stored stays stored. -/
theorem accepted_step {e : ThreadStep Tid TYPE} (he : GoesOn e) (hstep : s.step e = some s') : s.accepted <+: s'.accepted := by
  rcases he with rfl | ⟨t, rfl⟩
  · rw [accepted_stepWorker hstep]
  · exact (leaves_rfl.stepCaller hstep).accepted

/-- So many of the stored data are consumed one after the other. -/
theorem leads_consumed {buff : List.Vector TYPE asyncBuffSize} (m : Nat)
    (hrun : ∃ steps, run AsyncThreads.step (init buff) steps = some s) (hawake : s.Awake)
    (hle : s.consumed.length + m ≤ s.accepted.length) :
    LeadsWithin AsyncThreads.step GoesOn (m * 16) s fun s' =>
      s'.consumed.length = s.consumed.length + m ∧ s.accepted <+: s'.accepted ∧
        ∃ steps, run AsyncThreads.step (init buff) steps = some s' := by
  induction m generalizing s with
  | zero => exact leadsWithin_now ⟨rfl, List.prefix_rfl, hrun⟩
  | succ m ih =>
    obtain ⟨steps, hsteps⟩ := hrun
    have hnext : s.worker.inHand.toList ++ s.now.queue.contents ≠ [] := by
      intro hnil
      have hstored := congrArg List.length (stored_of_run hsteps)
      rw [hnil, List.append_nil, List.length_map] at hstored
      omega
    have hone := (leads_hasConsumed (locked_of_run hsteps) hawake hnext).keep
      (I := fun s' => s.accepted <+: s'.accepted ∧ ∃ steps, run AsyncThreads.step (init buff) steps = some s') ?_
      ⟨List.prefix_rfl, steps, hsteps⟩
    · rw [Nat.succ_mul, Nat.add_comm]
      refine hone.trans fun s₁ ⟨hconsumed, haccepted, hrun₁⟩ => ?_
      have hlen := haccepted.length_le
      have hcount := hconsumed.1
      obtain ⟨as, s₂, has, hkind, htaken, hcount₂, haccepted₂, hrun₂⟩ := ih hrun₁ (awake_of_hasConsumed hconsumed) (by omega)
      exact ⟨as, s₂, has, hkind, htaken, by omega, haccepted.trans haccepted₂, hrun₂⟩
    · rintro s₁ e s₂ he ⟨haccepted, steps₁, hsteps₁⟩ hstep
      exact ⟨haccepted.trans (accepted_step he hstep), steps₁ ++ [e],
        (run_append hsteps₁).trans (run_cons_eq_some_iff.mpr ⟨s₂, hstep, rfl⟩)⟩

end AsyncThreads

/-- When nothing is stored while the worker is between finding the queue empty and waiting, nothing is left behind: from every
state the threads in their calls and the worker alone can bring everything that was stored to be consumed, in the order it was
stored, with no new call and no wake-up without a notification. -/
theorem asyncThreads_drain {Tid TYPE : Type} [DecidableEq Tid] (buff : List.Vector TYPE asyncBuffSize) (s : AsyncThreads Tid TYPE)
    (hreached : Reached AsyncThreads.step AsyncThreads.Timely (.init buff) s) :
    LeadsWithin AsyncThreads.step AsyncThreads.GoesOn ((s.accepted.length - s.consumed.length) * 16) s
      fun s' => s'.consumed.map Prod.fst = s.accepted := by
  obtain ⟨steps, hrun⟩ := hreached.exists_run
  have hawake : s.Awake := hreached.invariant trivial fun _ _ _ h htimely hstep => h.step htimely hstep
  have hle : s.consumed.length ≤ s.accepted.length := by
    rw [AsyncThreads.stored_of_run hrun, List.length_append, List.length_map]
    exact Nat.le_add_right ..
  obtain ⟨as, s', has, hkind, htaken, hcount, haccepted, steps', hrun'⟩ :=
    AsyncThreads.leads_consumed (s.accepted.length - s.consumed.length) ⟨steps, hrun⟩ hawake (by omega)
  refine ⟨as, s', has, hkind, htaken, ?_⟩
  have hconsumed : s'.consumed.map Prod.fst <+: s'.accepted := ⟨_, (AsyncThreads.stored_of_run hrun').symm⟩
  refine (List.prefix_of_prefix_length_le hconsumed haccepted ?_).eq_of_length ?_
  · rw [List.length_map]
    omega
  · rw [List.length_map]
    omega

theorem asyncThreads_drain_once : ∃ s : AsyncThreads Bool Nat,
    run AsyncThreads.step (.init (List.Vector.replicate _ 0)) [.handleRecv true 5, .caller true, .caller true] = some s ∧
    s.accepted = [5] ∧
    LeadsWithin AsyncThreads.step AsyncThreads.GoesOn ((s.accepted.length - s.consumed.length) * 16) s
      fun s' => s'.consumed.map Prod.fst = s.accepted := by
  refine ⟨_, rfl, rfl, asyncThreads_drain (List.Vector.replicate _ 0) _ ?_⟩
  exact ((Reached.start.step (a := .handleRecv true 5) (fun _ _ h => by cases h) rfl).step (a := .caller true)
    (fun _ _ _ _ h => by cases h) rfl).step (a := .caller true) (fun _ _ _ _ h => by cases h) rfl

/-! ## A notification that is lost -/

namespace AsyncThreads

variable {Tid TYPE : Type}

/-- A step that neither notifies the worker nor wakes it. -/
def Silent (s : AsyncThreads Tid TYPE) (e : ThreadStep Tid TYPE) : Prop :=
  e ≠ .wake ∧ ∀ t, e = .caller t → s.caller t ≠ .recvNotify

/-- The worker waits, with something in the queue. -/
structure Stuck (data : TYPE) (consumed : List (TYPE × Option Address)) (s : AsyncThreads Tid TYPE) : Prop where
  worker : s.worker = .waiting false
  queue : data ∈ s.now.queue.contents
  consumed : s.consumed = consumed

variable [DecidableEq Tid] {s s' : AsyncThreads Tid TYPE} {t : Tid} {data : TYPE} {consumed : List (TYPE × Option Address)}

theorem Stuck.stepCaller (h : s.Stuck data consumed) (hplace : s.caller t ≠ .recvNotify) (hstep : s.stepCaller t = some s') :
    s'.Stuck data consumed := by
  unfold AsyncThreads.stepCaller at hstep
  split at hstep
  · cases hstep
  · split at hstep
    · obtain rfl := Option.some.inj hstep
      exact ⟨h.worker, h.queue, h.consumed⟩
    · cases hstep
  · split at hstep
    · obtain rfl := Option.some.inj hstep
      exact ⟨h.worker, h.queue, h.consumed⟩
    · next hroom =>
      obtain rfl := Option.some.inj hstep
      refine ⟨h.worker, ?_, h.consumed⟩
      rw [s.now.queue.contents_pushBack _ (lt_of_not_isFull hroom)]
      exact List.mem_append_left _ h.queue
  · next hnotify => exact absurd hnotify hplace
  · obtain rfl := Option.some.inj hstep
    exact ⟨h.worker, h.queue, h.consumed⟩
  · split at hstep
    · obtain rfl := Option.some.inj hstep
      exact ⟨h.worker, h.queue, h.consumed⟩
    · cases hstep
  · obtain rfl := Option.some.inj hstep
    exact ⟨h.worker, h.queue, h.consumed⟩
  · obtain rfl := Option.some.inj hstep
    exact ⟨h.worker, h.queue, h.consumed⟩

theorem Stuck.step (h : s.Stuck data consumed) {e : ThreadStep Tid TYPE} (hsilent : s.Silent e) (hstep : s.step e = some s') :
    s'.Stuck data consumed := by
  cases e with
  | handleRecv t data | setRecvListener t listener | removeListener t =>
    obtain ⟨-, rfl⟩ := call_cases hstep
    exact ⟨h.worker, h.queue, h.consumed⟩
  | caller t => exact h.stepCaller (hsilent.2 t rfl) hstep
  | worker =>
    simp only [AsyncThreads.step, AsyncThreads.stepWorker, h.worker] at hstep
    cases hstep
  | wake => exact absurd rfl hsilent.1

/-- A thread has stored a datum, notified nobody and come back, and the worker waits. -/
def leaveBehind (s : AsyncThreads Tid TYPE) (t : Tid) (data : TYPE) : AsyncThreads Tid TYPE := {
  s.goTo t .outside with
  now := { s.now with queue := (s.now.queue.pushBack data).2 }
  worker := .waiting false
  buffMtx := none
  accepted := s.accepted ++ [data] }

theorem run_leaveBehind (hplace : s.caller t = .recvPush data) (hworker : s.worker = .window) (hroom : ¬s.now.queue.isFull = true) :
    run AsyncThreads.step s [.caller t, .caller t, .caller t, .worker] = some (s.leaveBehind t data) := by
  simp [run, AsyncThreads.step, AsyncThreads.stepCaller, AsyncThreads.stepWorker, AsyncThreads.goTo, WorkerPlace.notify,
    leaveBehind, hplace, hworker, hroom]

/-- Nobody else is in the lock of the queue. -/
theorem not_recvNotify_leaveBehind (hs : s.Locked) (hplace : s.caller t = .recvPush data) (u : Tid) :
    (s.leaveBehind t data).caller u ≠ .recvNotify := by
  intro hnotify
  by_cases hu : u = t
  · subst hu
    simp [leaveBehind] at hnotify
  · have hother : s.caller u = .recvNotify := (caller_goTo_of_ne s .outside hu).symm.trans hnotify
    have hboth := hs.buff.unique (o := .caller u) (p := .caller t) (by simp [AsyncThreads.HasBuff, hother, CallerPlace.HasBuff])
      (by simp [AsyncThreads.HasBuff, hplace, CallerPlace.HasBuff])
    exact hu (LockOwner.caller.inj hboth)

theorem stuck_leaveBehind (hroom : ¬s.now.queue.isFull = true) : (s.leaveBehind t data).Stuck data s.consumed := by
  refine ⟨rfl, ?_, rfl⟩
  show data ∈ (s.now.queue.pushBack data).2.contents
  rw [s.now.queue.contents_pushBack data (lt_of_not_isFull hroom)]
  exact List.mem_append_right _ (List.mem_singleton_self data)

end AsyncThreads

/-- What is stored while the worker is between finding the queue empty and waiting can be left behind: the call notifies nobody,
the worker begins to wait, and nobody is about to notify it; from then on, until another call has stored something or the worker
wakes up without a notification, whatever the threads do, it stays in the queue and nothing is consumed. -/
theorem asyncThreads_leave_behind {Tid TYPE : Type} [DecidableEq Tid] (buff : List.Vector TYPE asyncBuffSize)
    (steps : List (ThreadStep Tid TYPE)) (s : AsyncThreads Tid TYPE) (hrun : run AsyncThreads.step (.init buff) steps = some s)
    (t : Tid) (data : TYPE) (hplace : s.caller t = .recvPush data) (hworker : s.worker = .window)
    (hroom : ¬s.now.queue.isFull = true) :
    ∃ s', run AsyncThreads.step s [.caller t, .caller t, .caller t, .worker] = some s' ∧ (∀ u, s'.caller u ≠ .recvNotify) ∧
      ∀ s'', Reached AsyncThreads.step AsyncThreads.Silent s' s'' →
        s''.worker = .waiting false ∧ data ∈ s''.now.queue.contents ∧ s''.consumed = s.consumed := by
  refine ⟨s.leaveBehind t data, AsyncThreads.run_leaveBehind hplace hworker hroom,
    AsyncThreads.not_recvNotify_leaveBehind (AsyncThreads.locked_of_run hrun) hplace, fun s'' hreached => ?_⟩
  have hstuck := hreached.invariant (AsyncThreads.stuck_leaveBehind hroom) fun _ _ _ h hsilent hstep => h.step hsilent hstep
  exact ⟨hstuck.worker, hstuck.queue, hstuck.consumed⟩

theorem asyncThreads_leave_behind_once : ∃ s : AsyncThreads Bool Nat,
    run AsyncThreads.step (.init (List.Vector.replicate _ 0)) [.worker, .worker, .handleRecv true 5, .caller true] = some s ∧
    ∃ s', run AsyncThreads.step s [.caller true, .caller true, .caller true, .worker] = some s' ∧
      (∀ u, s'.caller u ≠ .recvNotify) ∧
      ∀ s'', Reached AsyncThreads.step AsyncThreads.Silent s' s'' →
        s''.worker = .waiting false ∧ 5 ∈ s''.now.queue.contents ∧ s''.consumed = s.consumed :=
  ⟨_, rfl, asyncThreads_leave_behind (List.Vector.replicate _ 0) [.worker, .worker, .handleRecv true 5, .caller true] _ rfl true 5
    rfl rfl (by decide)⟩

end NetworkingFramework
