import NetworkingFramework.AsyncLocks

/-!
# Lemmas: the locks of a receiver behind a queue

Each lock belongs to the thread that is between taking it and giving it back, and each step of a thread is a step of the object
whose steps hold the lock of the queue, or none.
-/

namespace NetworkingFramework

open Wire Runs Mutex

namespace AsyncThreads

variable {Tid TYPE : Type} {s s' : AsyncThreads Tid TYPE} {t : Tid}

/-- Each lock belongs to who is where it is held. -/
structure Locked (s : AsyncThreads Tid TYPE) : Prop where
  buff : Guards s.buffMtx s.HasBuff
  listener : Guards s.listenerMtx s.HasListener

theorem locked_init (buff : List.Vector TYPE asyncBuffSize) : (init buff : AsyncThreads Tid TYPE).Locked :=
  ⟨guards_none fun o ho => by cases o <;> exact ho, guards_none fun o ho => by cases o <;> exact ho⟩

/-- Nobody else has the lock of the queue while the worker has it. -/
theorem Locked.not_hasBuff (hs : s.Locked) (h : s.worker.HasBuff) (t : Tid) : ¬(s.caller t).HasBuff := fun ht =>
  nomatch hs.buff.unique (o := .worker) (p := .caller t) (show s.HasBuff .worker from h) (show s.HasBuff (.caller t) from ht)

/-- A step of the worker. -/
theorem Locked.of_worker (hs : s.Locked) (hcaller : s'.caller = s.caller)
    (hbuff : Uses .worker s.buffMtx s.worker.HasBuff s'.worker.HasBuff s'.buffMtx)
    (hlistener : Uses .worker s.listenerMtx s.worker.HasListener s'.worker.HasListener s'.listenerMtx) : s'.Locked := by
  refine ⟨hs.buff.step hbuff fun o ho => ?_, hs.listener.step hlistener fun o ho => ?_⟩
  · cases o with
    | worker => exact absurd rfl ho
    | caller t => simp only [HasBuff, hcaller]
  · cases o with
    | worker => exact absurd rfl ho
    | caller t => simp only [HasListener, hcaller]

/-- A step of another thread. -/
theorem Locked.of_caller (hs : s.Locked) (hworker : s'.worker.HasBuff = s.worker.HasBuff)
    (hworker' : s'.worker.HasListener = s.worker.HasListener) (hcaller : ∀ u, u ≠ t → s'.caller u = s.caller u)
    (hbuff : Uses (.caller t) s.buffMtx (s.caller t).HasBuff (s'.caller t).HasBuff s'.buffMtx)
    (hlistener : Uses (.caller t) s.listenerMtx (s.caller t).HasListener (s'.caller t).HasListener s'.listenerMtx) :
    s'.Locked := by
  refine ⟨hs.buff.step hbuff fun o ho => ?_, hs.listener.step hlistener fun o ho => ?_⟩
  · cases o with
    | worker => simp only [HasBuff, hworker]
    | caller u => simp only [HasBuff, hcaller u fun hu => ho (congrArg _ hu)]
  · cases o with
    | worker => simp only [HasListener, hworker']
    | caller u => simp only [HasListener, hcaller u fun hu => ho (congrArg _ hu)]

theorem Locked.stepWorker (hs : s.Locked) (h : s.stepWorker = some s') : s'.Locked := by
  unfold AsyncThreads.stepWorker at h
  split at h
  · next hplace =>
    split at h
    · next hfree =>
      obtain rfl := Option.some.inj h
      exact hs.of_worker rfl (.lock (Option.isNone_iff_eq_none.mp hfree) trivial) (.keep (by rw [hplace]; exact Iff.rfl))
    · cases h
  · next hplace =>
    obtain rfl := Option.some.inj h
    refine hs.of_worker rfl (.unlock (by rw [hplace]; trivial) ?_) (.keep ?_)
    · by_cases hempty : s.now.queue.isEmpty = true
      · simp [hempty, WorkerPlace.HasBuff]
      · simp [hempty, WorkerPlace.HasBuff]
    · rw [hplace]
      by_cases hempty : s.now.queue.isEmpty = true
      · simp [hempty, WorkerPlace.HasListener]
      · simp [hempty, WorkerPlace.HasListener]
  · next hplace =>
    obtain rfl := Option.some.inj h
    exact hs.of_worker rfl (.keep (by rw [hplace]; exact Iff.rfl)) (.keep (by rw [hplace]; exact Iff.rfl))
  · next notified hplace =>
    split at h
    · obtain rfl := Option.some.inj h
      exact hs.of_worker rfl (.keep (by rw [hplace]; exact Iff.rfl)) (.keep (by rw [hplace]; exact Iff.rfl))
    · cases h
  · next hplace =>
    split at h
    · next hfree =>
      obtain rfl := Option.some.inj h
      exact hs.of_worker rfl (.lock (Option.isNone_iff_eq_none.mp hfree) trivial) (.keep (by rw [hplace]; exact Iff.rfl))
    · cases h
  · next hplace =>
    split at h
    · obtain rfl := Option.some.inj h
      exact hs.of_worker rfl (.unlock (by rw [hplace]; trivial) id) (.keep (by rw [hplace]; exact Iff.rfl))
    · obtain ⟨data, -, rfl⟩ := Option.map_eq_some_iff.mp h
      exact hs.of_worker rfl (.keep (by rw [hplace]; exact Iff.rfl)) (.keep (by rw [hplace]; exact Iff.rfl))
  · next data hplace =>
    split at h
    · next hfree =>
      obtain rfl := Option.some.inj h
      exact hs.of_worker rfl (.keep (by rw [hplace]; exact Iff.rfl)) (.lock (Option.isNone_iff_eq_none.mp hfree) trivial)
    · cases h
  · next data hplace =>
    split at h
    · obtain rfl := Option.some.inj h
      exact hs.of_worker rfl (.unlock (by rw [hplace]; trivial) id) (.unlock (by rw [hplace]; trivial) id)
    · obtain rfl := Option.some.inj h
      exact hs.of_worker rfl (.keep (by rw [hplace]; exact Iff.rfl)) (.keep (by rw [hplace]; exact Iff.rfl))
  · next hplace =>
    obtain rfl := Option.some.inj h
    exact hs.of_worker rfl (.unlock (by rw [hplace]; trivial) id) (.unlock (by rw [hplace]; trivial) id)

/-! ## Whole steps -/

variable {h h' : AsyncHistory TYPE}

theorem refines_init (buff : List.Vector TYPE asyncBuffSize) : (init buff : AsyncThreads Tid TYPE).Refines (.init buff) :=
  ⟨rfl, rfl, rfl, rfl, rfl⟩

/-- A step that changes nothing but who is where. -/
theorem Refines.stay (hR : s.Refines h) (hnow : s'.now = s.now) (hhand : s'.worker.inHand = s.worker.inHand)
    (haccepted : s'.accepted = s.accepted) (hconsumed : s'.consumed = s.consumed) (hcalled : s'.called = s.called) :
    ∃ as h', run AsyncHistory.step h as = some h' ∧ s'.Refines h' := by
  refine ⟨[], h, rfl, ?_, ?_, ?_, ?_, ?_⟩
  · rw [haccepted, hR.accepted]
  · rw [hconsumed, hR.consumed]
  · rw [hcalled, hR.called]
  · rw [hnow, hR.listener]
  · rw [hnow, hhand]
    exact hR.queue

/-- A turn of the worker on a queue with a first element. -/
theorem step_workerTurn {data : TYPE} (hfront : h.now.queue.front = some data) :
    h.step .workerTurn = some {
      now := { h.now with queue := h.now.queue.popFront.2 }
      accepted := h.accepted
      consumed := h.consumed ++ [(data, h.now.listener)]
      called := h.called ++ (h.now.listener.map fun l => (l, data)).toList } := by
  have hempty : ¬h.now.queue.isEmpty = true := by
    intro hempty
    rw [h.now.queue.front_eq, h.now.queue.isEmpty_iff.mp hempty] at hfront
    cases hfront
  simp only [AsyncHistory.step, AsyncRecvListener.workerTurn, if_neg hempty, hfront]
  cases hlistener : h.now.listener <;> rfl

theorem Refines.stepWorker (hR : s.Refines h) (hstep : s.stepWorker = some s') :
    ∃ as h', run AsyncHistory.step h as = some h' ∧ s'.Refines h' := by
  have hqueue := hR.queue
  unfold AsyncThreads.stepWorker at hstep
  split at hstep
  · next hplace =>
    split at hstep
    · obtain rfl := Option.some.inj hstep
      exact hR.stay rfl (by rw [hplace]; rfl) rfl rfl rfl
    · cases hstep
  · next hplace =>
    obtain rfl := Option.some.inj hstep
    refine hR.stay rfl ?_ rfl rfl rfl
    rw [hplace]
    by_cases hempty : s.now.queue.isEmpty = true
    · simp [hempty, WorkerPlace.inHand]
    · simp [hempty, WorkerPlace.inHand]
  · next hplace =>
    obtain rfl := Option.some.inj hstep
    exact hR.stay rfl (by rw [hplace]; rfl) rfl rfl rfl
  · next notified hplace =>
    split at hstep
    · obtain rfl := Option.some.inj hstep
      exact hR.stay rfl (by rw [hplace]; rfl) rfl rfl rfl
    · cases hstep
  · next hplace =>
    split at hstep
    · obtain rfl := Option.some.inj hstep
      exact hR.stay rfl (by rw [hplace]; rfl) rfl rfl rfl
    · cases hstep
  · next hplace =>
    rw [hplace] at hqueue
    split at hstep
    · obtain rfl := Option.some.inj hstep
      exact hR.stay rfl (by rw [hplace]; rfl) rfl rfl rfl
    · obtain ⟨data, hfront, rfl⟩ := Option.map_eq_some_iff.mp hstep
      refine ⟨[], h, rfl, hR.accepted, hR.consumed, hR.called, hR.listener, ?_⟩
      rw [← show h.now.queue = s.now.queue from hqueue] at hfront ⊢
      exact ⟨hfront, rfl⟩
  · next data hplace =>
    split at hstep
    · obtain rfl := Option.some.inj hstep
      exact hR.stay rfl (by rw [hplace]; rfl) rfl rfl rfl
    · cases hstep
  · next data hplace =>
    rw [hplace] at hqueue
    obtain ⟨hfront, hpop⟩ := hqueue
    have hturn := step_workerTurn hfront
    split at hstep
    · next hlistener =>
      obtain rfl := Option.some.inj hstep
      refine ⟨[.workerTurn], _, run_cons_eq_some_iff.mpr ⟨_, hturn, rfl⟩, hR.accepted, ?_, ?_, hR.listener, hpop⟩
      · simp only [hR.consumed, hR.listener, hlistener]
      · simp only [hR.called, hR.listener, hlistener]
        exact List.append_nil _
    · next l hlistener =>
      obtain rfl := Option.some.inj hstep
      refine ⟨[.workerTurn], _, run_cons_eq_some_iff.mpr ⟨_, hturn, rfl⟩, hR.accepted, ?_, ?_, hR.listener, hpop⟩
      · simp only [hR.consumed, hR.listener, hlistener]
      · simp only [hR.called, hR.listener, hlistener]
        rfl
  · next hplace =>
    obtain rfl := Option.some.inj hstep
    exact hR.stay rfl (by rw [hplace]; rfl) rfl rfl rfl

/-! ## The steps of the others -/

variable [DecidableEq Tid]

@[simp] theorem caller_goTo_self (s : AsyncThreads Tid TYPE) (t : Tid) (place : CallerPlace TYPE) :
    (s.goTo t place).caller t = place := Function.update_self ..

theorem caller_goTo_of_ne (s : AsyncThreads Tid TYPE) (place : CallerPlace TYPE) {u : Tid} (h : u ≠ t) :
    (s.goTo t place).caller u = s.caller u := Function.update_of_ne h ..

theorem hasBuff_notify (place : WorkerPlace TYPE) : place.notify.HasBuff = place.HasBuff := by
  cases place <;> rfl

theorem hasListener_notify (place : WorkerPlace TYPE) : place.notify.HasListener = place.HasListener := by
  cases place <;> rfl

theorem inHand_notify (place : WorkerPlace TYPE) : place.notify.inHand = place.inHand := by
  cases place <;> rfl

/-- Without the lock of the queue the worker has nothing in hand. -/
theorem inHand_of_not_hasBuff {place : WorkerPlace TYPE} (h : ¬place.HasBuff) : place.inHand = none := by
  cases place with
  | lockListener data | forward data => exact absurd trivial h
  | _ => rfl

theorem lt_of_not_isFull {q : CircularQueue TYPE asyncBuffSize} (h : ¬q.isFull = true) : q.contents.length < asyncBuffSize := by
  have hle := q.count_le
  rw [q.isFull_iff, CircularQueue.length_contents] at h
  rw [CircularQueue.length_contents]
  omega

/-- A thread goes to where it has the locks it had. -/
theorem Locked.goTo (hs : s.Locked) {place : CallerPlace TYPE} (hbuff : place.HasBuff ↔ (s.caller t).HasBuff)
    (hlistener : place.HasListener ↔ (s.caller t).HasListener) : (s.goTo t place).Locked := by
  refine hs.of_caller (t := t) rfl rfl (fun u hu => caller_goTo_of_ne s place hu) (.keep ?_) (.keep ?_)
  · rwa [caller_goTo_self]
  · rwa [caller_goTo_self]

theorem Locked.stepCaller (hs : s.Locked) (h : s.stepCaller t = some s') : s'.Locked := by
  have hothers (place : CallerPlace TYPE) : ∀ u, u ≠ t → (s.goTo t place).caller u = s.caller u := fun u hu =>
    caller_goTo_of_ne s place hu
  unfold AsyncThreads.stepCaller at h
  split at h
  · cases h
  · next data hplace =>
    split at h
    · next hfree =>
      obtain rfl := Option.some.inj h
      refine hs.of_caller rfl rfl (hothers (.recvPush data)) (.lock (Option.isNone_iff_eq_none.mp hfree) ?_) (.keep ?_)
      · simp [CallerPlace.HasBuff]
      · simp [CallerPlace.HasListener, hplace]
    · cases h
  · next data hplace =>
    split at h
    · obtain rfl := Option.some.inj h
      exact hs.goTo (by rw [hplace]; exact Iff.rfl) (by rw [hplace]; exact Iff.rfl)
    · obtain rfl := Option.some.inj h
      refine hs.of_caller rfl rfl (hothers .recvNotify) (.keep ?_) (.keep ?_)
      · simp [CallerPlace.HasBuff, hplace]
      · simp [CallerPlace.HasListener, hplace]
  · next hplace =>
    obtain rfl := Option.some.inj h
    refine hs.of_caller (hasBuff_notify s.worker) (hasListener_notify s.worker) (hothers .recvUnlock) (.keep ?_) (.keep ?_)
    · simp [CallerPlace.HasBuff, hplace]
    · simp [CallerPlace.HasListener, hplace]
  · next hplace =>
    obtain rfl := Option.some.inj h
    refine hs.of_caller rfl rfl (hothers .outside) (.unlock ?_ ?_) (.keep ?_)
    · simp [CallerPlace.HasBuff, hplace]
    · simp [CallerPlace.HasBuff]
    · simp [CallerPlace.HasListener, hplace]
  · next listener hplace =>
    split at h
    · next hfree =>
      obtain rfl := Option.some.inj h
      refine hs.of_caller rfl rfl (hothers (.setAssign listener)) (.keep ?_) (.lock (Option.isNone_iff_eq_none.mp hfree) ?_)
      · simp [CallerPlace.HasBuff, hplace]
      · simp [CallerPlace.HasListener]
    · cases h
  · next listener hplace =>
    obtain rfl := Option.some.inj h
    refine hs.of_caller rfl rfl (hothers .setUnlock) (.keep ?_) (.keep ?_)
    · simp [CallerPlace.HasBuff, hplace]
    · simp [CallerPlace.HasListener, hplace]
  · next hplace =>
    obtain rfl := Option.some.inj h
    refine hs.of_caller rfl rfl (hothers .outside) (.keep ?_) (.unlock ?_ ?_)
    · simp [CallerPlace.HasBuff, hplace]
    · simp [CallerPlace.HasListener, hplace]
    · simp [CallerPlace.HasListener]

/-- A call begins outside the locks. -/
theorem call_cases {place : CallerPlace TYPE} (h : s.call t place = some s') : s.caller t = .outside ∧ s' = s.goTo t place := by
  unfold call at h
  split at h
  · next hplace => exact ⟨hplace, (Option.some.inj h).symm⟩
  · cases h

theorem Locked.call (hs : s.Locked) {place : CallerPlace TYPE} (hbuff : ¬place.HasBuff) (hlistener : ¬place.HasListener)
    (h : s.call t place = some s') : s'.Locked := by
  obtain ⟨hplace, rfl⟩ := call_cases h
  exact hs.goTo (iff_of_false hbuff (by rw [hplace]; exact id)) (iff_of_false hlistener (by rw [hplace]; exact id))

theorem Locked.step (hs : s.Locked) {e : ThreadStep Tid TYPE} (h : s.step e = some s') : s'.Locked := by
  cases e with
  | handleRecv t data => exact hs.call id id h
  | setRecvListener t listener =>
    cases listener with
    | none => exact hs.call id id h
    | some l => exact hs.call id id h
  | removeListener t => exact hs.call id id h
  | caller t => exact hs.stepCaller h
  | worker => exact hs.stepWorker h
  | wake =>
    simp only [AsyncThreads.step] at h
    split at h
    · next notified hplace =>
      obtain rfl := Option.some.inj h
      exact hs.of_worker rfl (.keep (by rw [hplace]; exact Iff.rfl)) (.keep (by rw [hplace]; exact Iff.rfl))
    · cases h

theorem Refines.stepCaller (hR : s.Refines h) (hs : s.Locked) (hstep : s.stepCaller t = some s') :
    ∃ as h', run AsyncHistory.step h as = some h' ∧ s'.Refines h' := by
  have hqueue := hR.queue
  unfold AsyncThreads.stepCaller at hstep
  split at hstep
  · cases hstep
  · next data hplace =>
    split at hstep
    · obtain rfl := Option.some.inj hstep
      exact hR.stay rfl rfl rfl rfl rfl
    · cases hstep
  · next data hplace =>
    split at hstep
    · obtain rfl := Option.some.inj hstep
      exact hR.stay rfl rfl rfl rfl rfl
    · next hroom =>
      obtain rfl := Option.some.inj hstep
      have hhand : s.worker.inHand = none := inHand_of_not_hasBuff fun hworker => hs.not_hasBuff hworker t (by rw [hplace]; trivial)
      rw [hhand] at hqueue
      refine ⟨[.handleRecv data], _, rfl, ?_, hR.consumed, hR.called, ?_, ?_⟩
      · have hlt : h.now.queue.contents.length < asyncBuffSize := by
          rw [hqueue]
          exact lt_of_not_isFull hroom
        simp only [hlt, if_true, hR.accepted]
      · simp only [AsyncRecvListener.handleRecv, hqueue, hroom]
        exact hR.listener
      · simp only [AsyncThreads.goTo, hhand, AsyncRecvListener.handleRecv, hqueue, hroom, if_false, Bool.false_eq_true]
  · next hplace =>
    obtain rfl := Option.some.inj hstep
    exact hR.stay rfl (inHand_notify s.worker) rfl rfl rfl
  · next hplace =>
    obtain rfl := Option.some.inj hstep
    exact hR.stay rfl rfl rfl rfl rfl
  · next listener hplace =>
    split at hstep
    · obtain rfl := Option.some.inj hstep
      exact hR.stay rfl rfl rfl rfl rfl
    · cases hstep
  · next listener hplace =>
    obtain rfl := Option.some.inj hstep
    cases listener with
    | none => exact ⟨[.removeListener], _, rfl, hR.accepted, hR.consumed, hR.called, rfl, hqueue⟩
    | some l => exact ⟨[.setRecvListener (some l)], _, rfl, hR.accepted, hR.consumed, hR.called, rfl, hqueue⟩
  · next hplace =>
    obtain rfl := Option.some.inj hstep
    exact hR.stay rfl rfl rfl rfl rfl

/-- Each step of a thread is a step of the object whose steps are whole, or none. -/
theorem Refines.step (hR : s.Refines h) (hs : s.Locked) {e : ThreadStep Tid TYPE} (hstep : s.step e = some s') :
    ∃ as h', run AsyncHistory.step h as = some h' ∧ s'.Refines h' := by
  cases e with
  | handleRecv t data | setRecvListener t listener | removeListener t =>
    obtain ⟨-, rfl⟩ := call_cases hstep
    exact hR.stay rfl rfl rfl rfl rfl
  | caller t => exact hR.stepCaller hs hstep
  | worker => exact hR.stepWorker hstep
  | wake =>
    simp only [AsyncThreads.step] at hstep
    split at hstep
    · next notified hplace =>
      obtain rfl := Option.some.inj hstep
      exact hR.stay rfl (by rw [hplace]; rfl) rfl rfl rfl
    · cases hstep

end AsyncThreads
end NetworkingFramework
