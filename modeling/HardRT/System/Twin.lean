import HardRT.System.Partition
import HardRT.Core.ReadyOrder

/-! # Two kernels side by side

The two ports run the same core on kernels that differ in what the ports own: stack pointers, the ready
queues, who is current, the pending request and the error latch. None of these is read by the body of an
API call, so from kernels that agree otherwise a call does the same on both.

* `Twin k k'` — the kernels agree on everything else.
* `nextAction_twin` — the same action of the same task has the same continuation and events, and leaves
  twins, unless it creates a task, sets a kernel parameter or reads the clock.
* `TaskEffect.readied` — which task such an action pushes, read off the states before and after; so on
  twins it is the same one. -/

namespace HardRT

open Lib

/-- **The two kernels agree** but for stack pointers, ready queues, the current task, the pending
request, the error latch, the clock and the policy. -/
structure Twin (k k' : Kernel) : Prop where
  tcbs : ∀ id, ∃ sp, k'.tcbs id = { k.tcbs id with sp := sp }
  sems : k'.sems = k.sems
  mutexes : k'.mutexes = k.mutexes
  queues : k'.queues = k.queues
  slice : k'.defaultSlice = k.defaultSlice

namespace Twin

variable {sz : Sizing} {k k' : Kernel} {i me : ℕ}

/-! ## What twins agree on -/

/-- Twins agree on every state. -/
theorem stateOf (h : Twin k k') (id : ℕ) : k'.stateOf id = k.stateOf id := by
  obtain ⟨sp, hsp⟩ := h.tcbs id
  rw [Kernel.stateOf, hsp]
  rfl

/-- Twins agree on every priority. -/
theorem prio (h : Twin k k') (id : ℕ) : (k'.tcbs id).prio = (k.tcbs id).prio := by
  obtain ⟨sp, hsp⟩ := h.tcbs id
  rw [hsp]

/-- Twins have the same wait FIFOs. -/
theorem ring (h : Twin k k') : k'.ring = k.ring :=
  Kernel.SameObjects.ring ⟨h.sems, h.mutexes, h.queues⟩

/-- The wait FIFOs hold the same tasks, and the same tasks are blocked. -/
theorem part (h : Twin k k') (hpart : BlockedPartition sz k) : BlockedPartition sz k' :=
  hpart.of_states h.ring fun id => by rw [h.stateOf]

/-! ## Changes that keep them twins -/

/-- Twins are not about the ready queues, the current task and the pending switch. -/
theorem control (h : Twin k k') {rq rq' : ℕ → RingBuffer ℕ} {cur cur' : Option ℕ} {pend pend' : Bool} :
    Twin { k with rq := rq, current := cur, pend := pend }
      { k' with rq := rq', current := cur', pend := pend' } :=
  ⟨h.tcbs, h.sems, h.mutexes, h.queues, h.slice⟩

/-- Pushes to the ready queues, on either side. -/
theorem push_left (h : Twin k k') (p id : ℕ) : Twin (rqPush sz p id k) k' := by
  obtain ⟨rq, e, heq⟩ := rqPush_frame sz p id k
  rw [heq]
  exact ⟨h.tcbs, h.sems, h.mutexes, h.queues, h.slice⟩

/-- Pushes on the other side. -/
theorem push_right (h : Twin k k') (p id : ℕ) : Twin k (rqPush sz p id k') := by
  obtain ⟨rq, e, heq⟩ := rqPush_frame sz p id k'
  rw [heq]
  exact ⟨h.tcbs, h.sems, h.mutexes, h.queues, h.slice⟩

/-- The same change of the same control block, if it does not look at the stack pointer. -/
theorem modify (h : Twin k k') (id : ℕ) {f : Tcb → Tcb}
    (hf : ∀ b sp, f { b with sp := sp } = { f b with sp := sp }) :
    Twin (k.modifyTcb id f) (k'.modifyTcb id f) := by
  refine ⟨fun j => ?_, h.sems, h.mutexes, h.queues, h.slice⟩
  by_cases hj : j = id
  · subst hj
    obtain ⟨sp, hsp⟩ := h.tcbs j
    refine ⟨sp, ?_⟩
    simp only [Kernel.modifyTcb, Function.update_self, hsp]
    exact hf _ _
  · simpa [Kernel.modifyTcb, hj] using h.tcbs j

/-- The same change of state. -/
theorem setState (h : Twin k k') (id : ℕ) (st : TaskState) :
    Twin (k.setState id st) (k'.setState id st) :=
  h.modify id fun _ _ => rfl

/-- The same store to a semaphore. -/
theorem setSem (h : Twin k k') (i : ℕ) (s : Sem) : Twin (k.setSem i s) (k'.setSem i s) := by
  refine ⟨h.tcbs, ?_, h.mutexes, h.queues, h.slice⟩
  rw [Kernel.setSem, Kernel.setSem, h.sems]

/-- The same store to a mutex. -/
theorem setMutex (h : Twin k k') (i : ℕ) (m : Mutex) : Twin (k.setMutex i m) (k'.setMutex i m) := by
  refine ⟨h.tcbs, h.sems, ?_, h.queues, h.slice⟩
  rw [Kernel.setMutex, Kernel.setMutex, h.mutexes]

/-- The same store to a queue. -/
theorem setQueue (h : Twin k k') (i : ℕ) (q : Queue) : Twin (k.setQueue i q) (k'.setQueue i q) := by
  refine ⟨h.tcbs, h.sems, h.mutexes, ?_, h.slice⟩
  rw [Kernel.setQueue, Kernel.setQueue, h.queues]

/-- The latch is not compared. -/
theorem hrtError (h : Twin k k') (e : Err) : Twin (k.hrtError e) (k'.hrtError e) :=
  ⟨h.tcbs, h.sems, h.mutexes, h.queues, h.slice⟩

/-- `hrt__make_ready`. -/
theorem makeReady (h : Twin k k') (id : ℕ) : Twin (hrtMakeReady sz id k) (hrtMakeReady sz id k') :=
  ((h.modify id fun _ _ => rfl).push_left _ id).push_right _ id

/-- The body of `hrt_yield`. -/
theorem yieldBody (h : Twin k k') (me : ℕ) : Twin (hrtYieldBody sz me k) (hrtYieldBody sz me k') := by
  unfold hrtYieldBody
  rw [h.stateOf]
  split
  · exact ((h.modify me fun _ _ => rfl).push_left _ me).push_right _ me
  · exact h

/-! ## Scheduling points -/

/-- `hrt__schedule` on the second kernel. -/
theorem schedule_right (h : Twin k k') (oldSp : ℕ) : Twin k (hrtSchedule sz oldSp k').2 := by
  obtain ⟨sp, rq, cur, e, heq⟩ := hrtSchedule_frame sz oldSp k'
  rw [heq]
  refine ⟨fun id => ⟨sp id, ?_⟩, h.sems, h.mutexes, h.queues, h.slice⟩
  obtain ⟨sp', hsp'⟩ := h.tcbs id
  show { k'.tcbs id with sp := sp id } = _
  rw [hsp']

/-! ## The critical sections -/

section Sections

variable (sz i me)

/-- `hrt_sem_try_take` looks at the semaphore only. -/
theorem semTryTake (h : Twin k k') :
    (hrtSemTryTake i k').1 = (hrtSemTryTake i k).1 ∧
      Twin (hrtSemTryTake i k).2 (hrtSemTryTake i k').2 := by
  unfold hrtSemTryTake
  rw [h.sems]
  split
  · exact ⟨rfl, h.setSem i _⟩
  · exact ⟨rfl, h⟩

/-- The second critical section of `hrt_sem_take` looks at the semaphore and parks the caller. -/
theorem semTakeCs (h : Twin k k') :
    (hrtSemTakeCs sz i me k').1 = (hrtSemTakeCs sz i me k).1 ∧
      Twin (hrtSemTakeCs sz i me k).2 (hrtSemTakeCs sz i me k').2 := by
  unfold hrtSemTakeCs
  rw [h.sems]
  split
  · exact ⟨rfl, h.setSem i _⟩
  · exact ⟨rfl, (h.setSem i _).setState me _⟩

/-- A give pops the same waiter, and the push that readies it is not compared. -/
theorem giveCommonCs (h : Twin k k') :
    (giveCommonCs sz i k').1 = (giveCommonCs sz i k).1 ∧
      Twin (giveCommonCs sz i k).2 (giveCommonCs sz i k').2 := by
  unfold HardRT.giveCommonCs
  rw [h.sems]
  split
  · exact ⟨rfl, (h.setSem i _).makeReady _⟩
  · exact ⟨rfl, h.setSem i _⟩

/-- `hrt_mutex_try_lock` looks at the mutex and the caller. -/
theorem mutexTryLock (h : Twin k k') :
    (hrtMutexTryLock sz i me k').1 = (hrtMutexTryLock sz i me k).1 ∧
      Twin (hrtMutexTryLock sz i me k).2 (hrtMutexTryLock sz i me k').2 := by
  unfold hrtMutexTryLock
  rw [h.mutexes]
  split_ifs
  · exact ⟨rfl, h.hrtError _⟩
  · exact ⟨rfl, h.setMutex i _⟩
  · exact ⟨rfl, h.hrtError _⟩
  · exact ⟨rfl, h⟩

/-- The second critical section of `hrt_mutex_lock` looks at the mutex and the caller. -/
theorem mutexLockCs (h : Twin k k') :
    (hrtMutexLockCs sz i me k').1 = (hrtMutexLockCs sz i me k).1 ∧
      Twin (hrtMutexLockCs sz i me k).2 (hrtMutexLockCs sz i me k').2 := by
  unfold hrtMutexLockCs
  rw [h.mutexes]
  split_ifs
  · exact ⟨rfl, h.setMutex i _⟩
  · exact ⟨rfl, h.hrtError _⟩
  · exact ⟨rfl, (h.setMutex i _).setState me _⟩

/-- An unlock hands the mutex to the same waiter. -/
theorem mutexUnlockCs (h : Twin k k') :
    (hrtMutexUnlockCs sz i me k').1 = (hrtMutexUnlockCs sz i me k).1 ∧
      Twin (hrtMutexUnlockCs sz i me k).2 (hrtMutexUnlockCs sz i me k').2 := by
  unfold hrtMutexUnlockCs
  rw [h.mutexes]
  split_ifs
  · exact ⟨rfl, h.hrtError _⟩
  · exact ⟨rfl, h.hrtError _⟩
  · split
    · exact ⟨rfl, (h.setMutex i _).makeReady _⟩
    · exact ⟨rfl, h.setMutex i _⟩

/-- The same receiver is woken. -/
theorem wakeRx (h : Twin k k') :
    (wakeRx sz i k').1 = (wakeRx sz i k).1 ∧ Twin (wakeRx sz i k).2 (wakeRx sz i k').2 := by
  unfold HardRT.wakeRx
  rw [h.queues]
  split
  · exact ⟨rfl, (h.setQueue i _).makeReady _⟩
  · exact ⟨rfl, h.setQueue i _⟩

/-- The same sender is woken. -/
theorem wakeTx (h : Twin k k') :
    (wakeTx sz i k').1 = (wakeTx sz i k).1 ∧ Twin (wakeTx sz i k).2 (wakeTx sz i k').2 := by
  unfold HardRT.wakeTx
  rw [h.queues]
  split
  · exact ⟨rfl, (h.setQueue i _).makeReady _⟩
  · exact ⟨rfl, h.setQueue i _⟩

/-- **A send attempt** returns the same code, wakes the same task and leaves twins. -/
theorem queueTrySendCs (h : Twin k k') (item : List UInt8) :
    (hrtQueueTrySendCs sz i item k').1 = (hrtQueueTrySendCs sz i item k).1 ∧
      (hrtQueueTrySendCs sz i item k').2.1 = (hrtQueueTrySendCs sz i item k).2.1 ∧
      Twin (hrtQueueTrySendCs sz i item k).2.2 (hrtQueueTrySendCs sz i item k').2.2 := by
  unfold hrtQueueTrySendCs
  rw [h.queues]
  simp only
  split
  · exact ⟨rfl, (h.setQueue i _).wakeRx sz i⟩
  · exact ⟨rfl, rfl, h.setQueue i _⟩

/-- **A receive attempt** returns the same code and bytes, wakes the same task and leaves twins. -/
theorem queueTryRecvCs (h : Twin k k') :
    (hrtQueueTryRecvCs sz i k').1 = (hrtQueueTryRecvCs sz i k).1 ∧
      (hrtQueueTryRecvCs sz i k').2.1 = (hrtQueueTryRecvCs sz i k).2.1 ∧
      (hrtQueueTryRecvCs sz i k').2.2.1 = (hrtQueueTryRecvCs sz i k).2.2.1 ∧
      Twin (hrtQueueTryRecvCs sz i k).2.2.2 (hrtQueueTryRecvCs sz i k').2.2.2 := by
  unfold hrtQueueTryRecvCs
  rw [h.queues]
  simp only
  split
  · exact ⟨rfl, rfl, (h.setQueue i _).wakeTx sz i⟩
  · exact ⟨rfl, rfl, rfl, h.setQueue i _⟩

/-- The re-check of `hrt_queue_send` completes on both sides or parks on both. -/
theorem queueSendCs (h : Twin k k') (item : List UInt8) :
    (hrtQueueSendCs sz i me item k').1 = (hrtQueueSendCs sz i me item k).1 ∧
      Twin (hrtQueueSendCs sz i me item k).2 (hrtQueueSendCs sz i me item k').2 := by
  unfold hrtQueueSendCs
  rw [h.queues]
  split
  · obtain ⟨hw, ht⟩ := (h.setQueue i (enqueueCs item (k.queues i)).2).wakeRx sz i
    simp only
    exact ⟨by rw [hw], ht⟩
  · exact ⟨rfl, (h.setQueue i _).setState me _⟩

/-- The re-check of `hrt_queue_recv` completes on both sides or parks on both. -/
theorem queueRecvCs (h : Twin k k') :
    (hrtQueueRecvCs sz i me k').1 = (hrtQueueRecvCs sz i me k).1 ∧
      Twin (hrtQueueRecvCs sz i me k).2 (hrtQueueRecvCs sz i me k').2 := by
  unfold hrtQueueRecvCs
  rw [h.queues]
  split
  · obtain ⟨hw, ht⟩ := (h.setQueue i (dequeueCs (k.queues i)).2.2).wakeTx sz i
    simp only
    exact ⟨by rw [hw], ht⟩
  · exact ⟨rfl, (h.setQueue i _).setState me _⟩

end Sections

end Twin

/-! ## One action of a task -/

/-- The calls whose effect does not depend on the port, the clock or the kernel's parameters: all but
`hrt_create_task`, `hrt_sleep`, `hrt_set_policy` and `hrt_set_default_timeslice`. -/
def Call.plain : Call → Bool
  | .createTask _ | .sleep _ | .setPolicy _ | .setDefaultTimeslice _ => false
  | _ => true

/-- The outcomes are the same but for what the ports own. -/
structure TwinOutcome (o o' : Outcome) : Prop where
  k : Twin o.k o'.k
  cont : o'.cont = o.cont
  evs : o'.evs = o.evs
  spawn : o.spawn = none
  spawn' : o'.spawn = none

section Actions

variable {sz : Sizing} {port port' : Port} {t : ℕ} {k k' : Kernel} {call : Call} {c : Cont}
  {o o' : Outcome}

/-- One turn of the loop of `hrt_queue_send`. -/
theorem sendAttempt_twin (h : Twin k k') (q : ℕ) (item : List UInt8) :
    TwinOutcome (sendAttempt sz t q item k) (sendAttempt sz t q item k') := by
  obtain ⟨h1, h2, h3⟩ := h.queueTrySendCs sz q item
  unfold sendAttempt
  simp only
  rw [h1, h2, h.queues]
  split
  · split <;> exact ⟨h3, rfl, rfl, rfl, rfl⟩
  · exact ⟨h3, rfl, rfl, rfl, rfl⟩

/-- One turn of the loop of `hrt_queue_recv`. -/
theorem recvAttempt_twin (h : Twin k k') (q : ℕ) :
    TwinOutcome (recvAttempt sz t q k) (recvAttempt sz t q k') := by
  obtain ⟨h1, h2, h3, h4⟩ := h.queueTryRecvCs sz q
  unfold recvAttempt
  simp only
  rw [h1, h2, h3]
  split
  · split <;> exact ⟨h4, rfl, rfl, rfl, rfl⟩
  · exact ⟨h4, rfl, rfl, rfl, rfl⟩

/-- The first action of a call. -/
theorem issue_twin (h : Twin k k') (hc : call.plain = true) :
    TwinOutcome (issue sz port t k call) (issue sz port' t k' call) := by
  cases call with
  | createTask a => exact absurd hc (by simp [Call.plain])
  | sleep ms => exact absurd hc (by simp [Call.plain])
  | setPolicy p => exact absurd hc (by simp [Call.plain])
  | setDefaultTimeslice n => exact absurd hc (by simp [Call.plain])
  | yield => exact ⟨h.yieldBody t, rfl, rfl, rfl, rfl⟩
  | taskDelete =>
      simp only [issue]
      split
      · exact ⟨h, rfl, rfl, rfl, rfl⟩
      · exact ⟨h.setState t _, rfl, rfl, rfl, rfl⟩
  | semTryTake i =>
      obtain ⟨h1, h2⟩ := h.semTryTake i
      simp only [issue]
      rw [h1]
      split <;> exact ⟨h2, rfl, rfl, rfl, rfl⟩
  | semTake i =>
      obtain ⟨h1, h2⟩ := h.semTryTake i
      simp only [issue]
      rw [h1]
      split <;> exact ⟨h2, rfl, rfl, rfl, rfl⟩
  | semGive i =>
      obtain ⟨h1, h2⟩ := h.giveCommonCs sz i
      simp only [issue]
      rw [h1, h.sems]
      split <;> exact ⟨h2, rfl, rfl, rfl, rfl⟩
  | mutexTryLock i =>
      obtain ⟨h1, h2⟩ := h.mutexTryLock sz i t
      simp only [issue]
      rw [h1]
      split <;> exact ⟨h2, rfl, rfl, rfl, rfl⟩
  | mutexLock i =>
      obtain ⟨h1, h2⟩ := h.mutexTryLock sz i t
      simp only [issue]
      split
      · exact ⟨h.hrtError _, rfl, rfl, rfl, rfl⟩
      · rw [h1]
        split <;> exact ⟨h2, rfl, rfl, rfl, rfl⟩
  | mutexUnlock i =>
      obtain ⟨h1, h2⟩ := h.mutexUnlockCs sz i t
      simp only [issue]
      rw [h1]
      split <;> exact ⟨h2, rfl, rfl, rfl, rfl⟩
  | queueTrySend q item =>
      obtain ⟨h1, h2, h3⟩ := h.queueTrySendCs sz q item
      simp only [issue]
      rw [h1, h2, h.queues]
      split
      · split <;> exact ⟨h3, rfl, rfl, rfl, rfl⟩
      · exact ⟨h3, rfl, rfl, rfl, rfl⟩
  | queueSend q item => exact sendAttempt_twin h q item
  | queueTryRecv q =>
      obtain ⟨h1, h2, h3, h4⟩ := h.queueTryRecvCs sz q
      simp only [issue]
      rw [h1, h2, h3]
      split
      · split <;> exact ⟨h4, rfl, rfl, rfl, rfl⟩
      · exact ⟨h4, rfl, rfl, rfl, rfl⟩
  | queueRecv q => exact recvAttempt_twin h q

/-- **The same action of the same task on twins** is enabled on both, with the same continuation and the
same events, and leaves twins. -/
theorem nextAction_twin (h : Twin k k') (hc : call.plain = true)
    (ho : nextAction sz port t call k c = some o) :
    ∃ o', nextAction sz port' t call k' c = some o' ∧ TwinOutcome o o' := by
  cases c with
  | none => exact absurd ho (by simp [nextAction])
  | hop a => exact absurd ho (by simp [nextAction])
  | user =>
      obtain rfl := Option.some.inj ho
      obtain ⟨hk, hcont, hevs, hs, hs'⟩ :
          TwinOutcome (issue sz port t k call) (issue sz port' t k' call) := issue_twin h hc
      exact ⟨_, rfl, hk, hcont, congrArg (Event.call t call :: ·) hevs, hs, hs'⟩
  | yield a =>
      obtain rfl := Option.some.inj ho
      exact ⟨_, rfl, h.yieldBody t, rfl, rfl, rfl, rfl⟩
  | pend a =>
      obtain rfl := Option.some.inj ho
      exact ⟨_, rfl, ⟨h.tcbs, h.sems, h.mutexes, h.queues, h.slice⟩, rfl, rfl, rfl, rfl⟩
  | resumed a =>
      obtain rfl := Option.some.inj ho
      refine ⟨_, rfl, ?_⟩
      cases a with
      | ret _ _ => exact ⟨h, rfl, rfl, rfl, rfl⟩
      | sendAgain q item => exact sendAttempt_twin h q item
      | recvAgain q => exact recvAttempt_twin h q
  | semTake i =>
      obtain rfl := Option.some.inj ho
      refine ⟨_, rfl, ?_⟩
      obtain ⟨h1, h2⟩ := h.semTakeCs sz i t
      unfold semTakeAction
      simp only
      rw [h1]
      split <;> exact ⟨h2, rfl, rfl, rfl, rfl⟩
  | mutexLock i =>
      obtain rfl := Option.some.inj ho
      refine ⟨_, rfl, ?_⟩
      obtain ⟨h1, h2⟩ := h.mutexLockCs sz i t
      unfold mutexLockAction
      simp only
      rw [h1]
      split <;> exact ⟨h2, rfl, rfl, rfl, rfl⟩
  | queueSend q item =>
      obtain rfl := Option.some.inj ho
      refine ⟨_, rfl, ?_⟩
      obtain ⟨h1, h2⟩ := h.queueSendCs sz q t item
      unfold queueSendAction
      simp only
      rw [h1]
      split <;> exact ⟨h2, rfl, rfl, rfl, rfl⟩
  | queueRecv q =>
      obtain rfl := Option.some.inj ho
      refine ⟨_, rfl, ?_⟩
      obtain ⟨h1, h2⟩ := h.queueRecvCs sz q t
      unfold queueRecvAction
      simp only
      rw [h1]
      split <;> exact ⟨h2, rfl, rfl, rfl, rfl⟩

/-! ## The task an action pushes -/

/-- Task `id` is made ready by the action, or it is the acting task, which gives up the CPU while
ready. -/
def Readies (t : ℕ) (k : Kernel) (o : Outcome) (id : ℕ) : Prop :=
  o.k.stateOf id = .ready ∧ ((id = t ∧ ∃ a, o.cont = .pend a) ∨ k.stateOf id = .blocked)

/-- The action pushes the task it readies, if it readies one, to the queue of its priority. -/
def PushesReadied (sz : Sizing) (t : ℕ) (k : Kernel) (o : Outcome) : Prop :=
  ∃ w : Option ℕ, o.k.rq = (w.elim k.rq fun id => (rqPush sz (k.tcbs id).prio id k).rq) ∧
    ∀ id, w = some id ↔ Readies t k o id

section Pushes

variable {k' : Kernel} {c' : Cont} {evs : List Event}

/-- An action that pushes nobody and makes nobody ready, the acting task staying on the CPU if it is. -/
theorem PushesReadied.nobody (hrq : k'.rq = k.rq)
    (hst : ∀ id, k'.stateOf id = .ready → k.stateOf id = .ready)
    (hself : ∀ a, c' = .pend a → k'.stateOf t ≠ .ready) :
    PushesReadied sz t k ⟨k', c', evs, none⟩ := by
  refine ⟨none, hrq, fun id => iff_of_false (by simp) ?_⟩
  rintro ⟨hready, ⟨rfl, a, ha⟩ | hblk⟩
  · exact hself a ha hready
  · rw [hst id hready] at hblk
    exact absurd hblk (by simp)

/-- The acting task leaves the ready ones. -/
theorem PushesReadied.gone (st : TaskState) (hne : st ≠ .ready) (hrq : k'.rq = k.rq)
    (hst : ∀ id, k'.stateOf id = if id = t then st else k.stateOf id) :
    PushesReadied sz t k ⟨k', c', evs, none⟩ := by
  have hself : k'.stateOf t ≠ .ready := by
    rw [hst t, if_pos rfl]
    exact hne
  refine .nobody hrq (fun id hid => ?_) fun _ _ => hself
  have hidt : id ≠ t := fun heq => hself (heq ▸ hid)
  rwa [hst id, if_neg hidt] at hid

/-- A wakeup pushes the task it wakes, and readies no other. -/
theorem PushesReadied.wake (hr : sz.Representable) (hpart : BlockedPartition sz k) {w : WaitQ} {i : ℕ}
    (hw : Wakes sz w i k k') (hc' : ∀ a, c' ≠ .pend a) :
    PushesReadied sz t k ⟨k', c', evs, none⟩ := by
  have hst := hw.stateOf
  have hb := hpart.blocked_of_wakes hr hw
  obtain ⟨k₁, hs, -, -, rfl⟩ := hw
  refine ⟨some i, ?_, fun id => ?_⟩
  · rw [hrtMakeReady_rq, hs.tcbs]
    exact rqPush_rq_congr hs.rq _ _
  · rw [Option.some.injEq]
    constructor
    · rintro rfl
      exact ⟨(hst _).trans (if_pos rfl), Or.inr hb⟩
    · rintro ⟨hready, ⟨-, a, ha⟩ | hblk⟩
      · exact absurd ha (hc' a)
      · by_contra hne
        have hsame := (hst id).trans (if_neg (Ne.symm hne))
        rw [hready, hblk] at hsame
        exact absurd hsame (by simp)

/-- `hrt_yield` pushes a caller that is ready. -/
theorem PushesReadied.yield {a : After} :
    PushesReadied sz t k ⟨hrtYieldBody sz t k, .pend a, evs, none⟩ := by
  by_cases hst : k.stateOf t = .ready
  · refine ⟨some t, hrtYieldBody_rq sz t k hst, fun id => ?_⟩
    rw [Option.some.injEq, Readies, stateOf_hrtYieldBody]
    constructor
    · rintro rfl
      exact ⟨hst, Or.inl ⟨rfl, a, rfl⟩⟩
    · rintro ⟨hready, ⟨rfl, -⟩ | hblk⟩
      · rfl
      · rw [hready] at hblk
        exact absurd hblk (by simp)
  · have hsame := stateOf_hrtYieldBody sz t k
    refine .nobody (by rw [hrtYieldBody, if_neg hst]) (fun id hid => (hsame id).symm.trans hid) ?_
    intro _ _
    rwa [hsame]

end Pushes

/-- **What an action pushes** is the task it readies, if it readies one, to the queue of its
priority. -/
theorem TaskEffect.readied (h : TaskEffect sz port t k call c o) (hr : sz.Representable)
    (hpart : BlockedPartition sz k) (hcall : call.creates = none) : PushesReadied sz t k o := by
  cases h with
  | @quiet _ c' k' evs hq _ hc' =>
      refine .nobody hq.same.rq (fun id hid => (hq.same.stateOf id).symm.trans hid) fun a ha => ?_
      rw [ha] at hc'
      rcases hc' with ha | ⟨ha, -⟩
      · exact absurd ha (by simp)
      · exact absurd ha (by simp [Cont.rechecks])
  | request => exact .nobody rfl (fun _ hid => hid) (by simp)
  | yield _ => exact .yield
  | @sleep ms evs =>
      exact .gone .sleep (by simp) rfl fun id => by simp [hrtSleepBody_eq]
  | delete _ _ =>
      exact .gone .unused (by simp) rfl fun id => by simp [hrtTaskDeleteBody]
  | park _ hp => exact .gone .blocked (by simp) hp.rq hp.stateOf
  | wake _ _ hw => exact .wake hr hpart hw (by simp)
  | wakeOnRecheck _ hw => exact .wake hr hpart hw (by simp)
  | create hca => exact absurd hcall (by rw [hca]; simp [Call.creates])
  | policy _ => exact .nobody rfl (fun _ hid => hid) (by simp)

end Actions

end HardRT
