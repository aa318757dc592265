import HardRT.System.Thread

/-! # What one action can do

A dozen API functions reach the scheduler's data through very few doors. An action of a task either
leaves the scheduler alone, or it is one of: a reschedule request, a yield, a sleep, a deletion, a
parking on a wait FIFO, a waking of the head of a wait FIFO, a creation, a policy change.
`taskEffect` is that classification, with the continuation before and after; `isrEffect` is the one for
interrupt service routines. Every invariant about control blocks, ready queues and wait FIFOs is
derived from these two and never looks inside an API function again.

* `Quiet k k'` — neither the scheduler's data nor a wait FIFO changed.
* `Parks sz t w k k'` — `t` was appended to the FIFO `w` and is blocked.
* `Wakes sz w h k k'` — `h` was popped from the FIFO `w` and made ready. -/

namespace HardRT

open Lib

/-! ## Scheduler data and wait FIFOs -/

/-- The two kernels agree on everything the scheduler reads. -/
structure SameSched (k k' : Kernel) : Prop where
  tcbs : k'.tcbs = k.tcbs
  rq : k'.rq = k.rq
  current : k'.current = k.current
  tick : k'.tick = k.tick
  tickHz : k'.tickHz = k.tickHz
  policy : k'.policy = k.policy
  pend : k'.pend = k.pend

/-- Nothing changed. -/
theorem SameSched.refl (k : Kernel) : SameSched k k := ⟨rfl, rfl, rfl, rfl, rfl, rfl, rfl⟩

/-- One change after another. -/
theorem SameSched.trans {k k₁ k₂ : Kernel} (h : SameSched k k₁) (h' : SameSched k₁ k₂) :
    SameSched k k₂ :=
  ⟨h'.tcbs.trans h.tcbs, h'.rq.trans h.rq, h'.current.trans h.current, h'.tick.trans h.tick,
    h'.tickHz.trans h.tickHz, h'.policy.trans h.policy, h'.pend.trans h.pend⟩

/-- A store to a semaphore. -/
theorem SameSched.setSem (k : Kernel) (i : ℕ) (s : Sem) : SameSched k (k.setSem i s) :=
  ⟨rfl, rfl, rfl, rfl, rfl, rfl, rfl⟩

/-- A store to a mutex. -/
theorem SameSched.setMutex (k : Kernel) (i : ℕ) (m : Mutex) : SameSched k (k.setMutex i m) :=
  ⟨rfl, rfl, rfl, rfl, rfl, rfl, rfl⟩

/-- A store to a queue. -/
theorem SameSched.setQueue (k : Kernel) (i : ℕ) (q : Queue) : SameSched k (k.setQueue i q) :=
  ⟨rfl, rfl, rfl, rfl, rfl, rfl, rfl⟩

/-- The states are the same. -/
theorem SameSched.stateOf {k k' : Kernel} (h : SameSched k k') (j : ℕ) :
    k'.stateOf j = k.stateOf j := by
  rw [Kernel.stateOf, h.tcbs]
  rfl

/-- Neither the scheduler's data nor a wait FIFO changed. -/
structure Quiet (k k' : Kernel) : Prop where
  same : SameSched k k'
  ring : k'.ring = k.ring

/-- Task `t` was appended to the FIFO `w` and marked blocked. -/
def Parks (sz : Sizing) (t : ℕ) (w : WaitQ) (k k' : Kernel) : Prop :=
  ∃ k₁, SameSched k k₁ ∧
    k₁.ring = Function.update k.ring w ((k.ring w).push 256 sz.maxTasks (t % 256)) ∧
    k' = k₁.setState t .blocked

/-- The head `h` of the FIFO `w` was popped and made ready. -/
def Wakes (sz : Sizing) (w : WaitQ) (h : ℕ) (k k' : Kernel) : Prop :=
  ∃ k₁, SameSched k k₁ ∧ ((k.ring w).pop 256 sz.maxTasks).1 = some h ∧
    k₁.ring = Function.update k.ring w ((k.ring w).pop 256 sz.maxTasks).2 ∧
    k' = hrtMakeReady sz h k₁

/-- Parking changes one task's state, to blocked. -/
theorem Parks.stateOf {sz : Sizing} {t : ℕ} {w : WaitQ} {k k' : Kernel} (hp : Parks sz t w k k')
    (j : ℕ) : k'.stateOf j = if j = t then .blocked else k.stateOf j := by
  obtain ⟨k₁, hs, -, rfl⟩ := hp
  rw [Kernel.stateOf_setState, hs.stateOf]

/-- Parking leaves the ready queues alone. -/
theorem Parks.rq {sz : Sizing} {t : ℕ} {w : WaitQ} {k k' : Kernel} (hp : Parks sz t w k k') :
    k'.rq = k.rq := by
  obtain ⟨k₁, hs, -, rfl⟩ := hp
  exact hs.rq

/-- A waking changes one task's state, to ready. -/
theorem Wakes.stateOf {sz : Sizing} {w : WaitQ} {id : ℕ} {k k' : Kernel} (hw : Wakes sz w id k k')
    (j : ℕ) : k'.stateOf j = if j = id then .ready else k.stateOf j := by
  obtain ⟨k₁, hs, -, -, rfl⟩ := hw
  rw [stateOf_hrtMakeReady, hs.stateOf]

/-- Whoever a waking leaves in another state than ready was in that state. -/
theorem Wakes.stateOf_of_ne {sz : Sizing} {w : WaitQ} {id : ℕ} {k k' : Kernel} (hw : Wakes sz w id k k')
    {j : ℕ} {st : TaskState} (hst : st ≠ .ready) (h : k'.stateOf j = st) : k.stateOf j = st := by
  rw [hw.stateOf] at h
  split at h
  · exact absurd h.symm hst
  · exact h

/-- Nothing changed. -/
theorem Quiet.refl (k : Kernel) : Quiet k k := ⟨SameSched.refl k, rfl⟩

/-- One quiet change after another. -/
theorem Quiet.trans {k k₁ k₂ : Kernel} (h : Quiet k k₁) (h' : Quiet k₁ k₂) : Quiet k k₂ :=
  ⟨h.same.trans h'.same, h'.ring.trans h.ring⟩

/-- A waking after a quiet change is a waking. -/
theorem Quiet.wakes {sz : Sizing} {w : WaitQ} {h : ℕ} {k k₁ k₂ : Kernel} (hq : Quiet k k₁)
    (hw : Wakes sz w h k₁ k₂) : Wakes sz w h k k₂ := by
  obtain ⟨k', hs, hp, hring, rfl⟩ := hw
  rw [hq.ring] at hp hring
  exact ⟨k', hq.same.trans hs, hp, hring, rfl⟩

/-- An error is latched. -/
theorem Quiet.hrtError (k : Kernel) (e : Err) : Quiet k (k.hrtError e) :=
  ⟨⟨rfl, rfl, rfl, rfl, rfl, rfl, rfl⟩, Kernel.ring_hrtError k e⟩

/-- Writing a semaphore back with the same FIFO is quiet. -/
theorem Quiet.setSem {k : Kernel} {i : ℕ} {s : Sem} (h : s.waitq = (k.sems i).waitq) :
    Quiet k (k.setSem i s) := by
  refine ⟨SameSched.setSem k i s, ?_⟩
  rw [Kernel.ring_setSem, h]
  exact Function.update_eq_self (WaitQ.sem i) k.ring

/-- Writing a mutex back with the same FIFO is quiet. -/
theorem Quiet.setMutex {k : Kernel} {i : ℕ} {m : Mutex} (h : m.waitq = (k.mutexes i).waitq) :
    Quiet k (k.setMutex i m) := by
  refine ⟨SameSched.setMutex k i m, ?_⟩
  rw [Kernel.ring_setMutex, h]
  exact Function.update_eq_self (WaitQ.mutex i) k.ring

/-- Replacing the receiver FIFO of a queue replaces that ring only. -/
theorem ring_setQueue_rx (k : Kernel) (i : ℕ) (r : RingBuffer ℕ) :
    (k.setQueue i { k.queues i with rx := r }).ring = Function.update k.ring (.rx i) r := by
  rw [Kernel.ring_setQueue]
  refine Function.update_eq_self_iff.mpr ?_
  simp [Kernel.ring]

/-- Replacing the sender FIFO of a queue replaces that ring only. -/
theorem ring_setQueue_tx (k : Kernel) (i : ℕ) (r : RingBuffer ℕ) :
    (k.setQueue i { k.queues i with tx := r }).ring = Function.update k.ring (.tx i) r := by
  rw [Kernel.ring_setQueue]
  congr 1
  exact Function.update_eq_self (WaitQ.rx i) k.ring

/-- Writing a queue back with the same FIFOs is quiet. -/
theorem Quiet.setQueue {k : Kernel} {i : ℕ} {q : Queue} (hrx : q.rx = (k.queues i).rx)
    (htx : q.tx = (k.queues i).tx) : Quiet k (k.setQueue i q) := by
  refine ⟨SameSched.setQueue k i q, ?_⟩
  have hself : Function.update k.ring (.rx i) (k.queues i).rx = k.ring :=
    Function.update_eq_self (WaitQ.rx i) k.ring
  rw [Kernel.ring_setQueue, hrx, htx, hself]
  exact Function.update_eq_self (WaitQ.tx i) k.ring

/-! ## The critical sections -/

section Sections

variable {sz : Sizing} {i me : ℕ} {item : List UInt8} {k : Kernel}

/-- `hrt_sem_try_take` decrements the count or does nothing. -/
theorem hrtSemTryTake_quiet : Quiet k (hrtSemTryTake i k).2 := by
  unfold hrtSemTryTake
  split
  · exact Quiet.setSem rfl
  · exact Quiet.refl k

/-- **The second critical section of `hrt_sem_take`** decrements the count or parks the caller. -/
theorem hrtSemTakeCs_effect (sz : Sizing) (i me : ℕ) (k : Kernel) :
    ((hrtSemTakeCs sz i me k).1 = true ∧ Quiet k (hrtSemTakeCs sz i me k).2) ∨
    ((k.sems i).count = 0 ∧ (hrtSemTakeCs sz i me k).1 = false ∧
      Parks sz me (.sem i) k (hrtSemTakeCs sz i me k).2) := by
  unfold hrtSemTakeCs
  split
  · exact Or.inl ⟨rfl, Quiet.setSem rfl⟩
  · rename_i h0
    exact Or.inr ⟨not_not.mp h0, rfl, _, SameSched.setSem _ _ _, Kernel.ring_setSem _ _ _, rfl⟩

/-- **A give** wakes the head of the FIFO or raises the count. -/
theorem giveCommonCs_effect (sz : Sizing) (i : ℕ) (k : Kernel) :
    ((giveCommonCs sz i k).1 = none ∧ Quiet k (giveCommonCs sz i k).2) ∨
    ∃ h, (giveCommonCs sz i k).1 = some h ∧ Wakes sz (.sem i) h k (giveCommonCs sz i k).2 := by
  unfold giveCommonCs semWaitqPop
  cases hp : ((k.sems i).waitq.pop 256 sz.maxTasks).1 with
  | none =>
      refine Or.inl ⟨rfl, Quiet.setSem ?_⟩
      have hsame := RingBuffer.pop_snd_of_none hp
      split <;> simp [hsame]
  | some h => exact Or.inr ⟨h, rfl, _, SameSched.setSem _ _ _, hp, Kernel.ring_setSem _ _ _, rfl⟩

/-- `hrt_mutex_try_lock` takes the mutex or reports an error. -/
theorem hrtMutexTryLock_quiet : Quiet k (hrtMutexTryLock sz i me k).2 := by
  unfold hrtMutexTryLock
  split_ifs
  · exact Quiet.hrtError k _
  · exact Quiet.setMutex rfl
  · exact Quiet.hrtError k _
  · exact Quiet.refl k

/-- **The second critical section of `hrt_mutex_lock`** parks the caller exactly if somebody else owns
the mutex. -/
theorem hrtMutexLockCs_effect (sz : Sizing) (i me : ℕ) (k : Kernel) :
    ((hrtMutexLockCs sz i me k).1 ≠ .parked ∧ Quiet k (hrtMutexLockCs sz i me k).2) ∨
    (((k.mutexes i).locked = true ∧ (k.mutexes i).owner ≠ me) ∧
      (hrtMutexLockCs sz i me k).1 = .parked ∧
      Parks sz me (.mutex i) k (hrtMutexLockCs sz i me k).2) := by
  unfold hrtMutexLockCs
  split_ifs with hfree hown
  · exact Or.inl ⟨by simp, Quiet.setMutex rfl⟩
  · exact Or.inl ⟨by simp, Quiet.hrtError k _⟩
  · exact Or.inr ⟨⟨Bool.eq_true_of_not_eq_false hfree, hown⟩, rfl, _, SameSched.setMutex _ _ _,
      Kernel.ring_setMutex _ _ _, rfl⟩

/-- **An unlock** hands the mutex to the head of the FIFO, frees it or is refused. -/
theorem hrtMutexUnlockCs_effect (sz : Sizing) (i me : ℕ) (k : Kernel) :
    ((∀ h, (hrtMutexUnlockCs sz i me k).1 ≠ .handoff h) ∧ Quiet k (hrtMutexUnlockCs sz i me k).2) ∨
    ∃ h, (hrtMutexUnlockCs sz i me k).1 = .handoff h ∧
      Wakes sz (.mutex i) h k (hrtMutexUnlockCs sz i me k).2 := by
  unfold hrtMutexUnlockCs mutexWaitqPop
  split_ifs
  · exact Or.inl ⟨by simp, Quiet.hrtError k _⟩
  · exact Or.inl ⟨by simp, Quiet.hrtError k _⟩
  · cases hp : ((k.mutexes i).waitq.pop 256 sz.maxTasks).1 with
    | none => exact Or.inl ⟨by simp, Quiet.setMutex (RingBuffer.pop_snd_of_none hp)⟩
    | some h =>
        exact Or.inr ⟨h, rfl, _, SameSched.setMutex _ _ _, hp, Kernel.ring_setMutex _ _ _, rfl⟩

/-- What an operation that may wake one waiter does: nothing to the scheduler, or one waking. -/
def WakesAtMost (sz : Sizing) (w : WaitQ) (woken : Option ℕ) (k k' : Kernel) : Prop :=
  (woken = none ∧ Quiet k k') ∨ ∃ h, woken = some h ∧ Wakes sz w h k k'

/-- A quiet change before a waking. -/
theorem Quiet.wakesAtMost {w : WaitQ} {woken : Option ℕ} {k₁ k₂ : Kernel} (hq : Quiet k k₁)
    (h : WakesAtMost sz w woken k₁ k₂) : WakesAtMost sz w woken k k₂ := by
  rcases h with ⟨hn, hq'⟩ | ⟨j, hj, hw⟩
  · exact Or.inl ⟨hn, hq.trans hq'⟩
  · exact Or.inr ⟨j, hj, hq.wakes hw⟩

/-- Waking a receiver. -/
theorem wakeRx_effect : WakesAtMost sz (.rx i) (wakeRx sz i k).1 k (wakeRx sz i k).2 := by
  unfold wakeRx wqPop
  cases hp : ((k.queues i).rx.pop 256 sz.maxTasks) with
  | mk o r =>
      cases o with
      | none =>
          have hr : r = (k.queues i).rx := by
            have := RingBuffer.pop_snd_of_none (congrArg Prod.fst hp)
            rwa [hp] at this
          exact Or.inl ⟨rfl, Quiet.setQueue hr rfl⟩
      | some h =>
          refine Or.inr ⟨h, rfl, _, SameSched.setQueue _ _ _, congrArg Prod.fst hp, ?_, rfl⟩
          rw [ring_setQueue_rx]
          exact congrArg (Function.update k.ring (.rx i)) (congrArg Prod.snd hp).symm

/-- Waking a sender. -/
theorem wakeTx_effect : WakesAtMost sz (.tx i) (wakeTx sz i k).1 k (wakeTx sz i k).2 := by
  unfold wakeTx wqPop
  cases hp : ((k.queues i).tx.pop 256 sz.maxTasks) with
  | mk o r =>
      cases o with
      | none =>
          have hr : r = (k.queues i).tx := by
            have := RingBuffer.pop_snd_of_none (congrArg Prod.fst hp)
            rwa [hp] at this
          exact Or.inl ⟨rfl, Quiet.setQueue rfl hr⟩
      | some h =>
          refine Or.inr ⟨h, rfl, _, SameSched.setQueue _ _ _, congrArg Prod.fst hp, ?_, rfl⟩
          rw [ring_setQueue_tx]
          exact congrArg (Function.update k.ring (.tx i)) (congrArg Prod.snd hp).symm

/-- Storing an item moves no task. -/
theorem enqueueCs_quiet : Quiet k (k.setQueue i (enqueueCs item (k.queues i)).2) := by
  unfold enqueueCs
  split <;> exact Quiet.setQueue rfl rfl

/-- Nor does taking one out. -/
theorem dequeueCs_quiet : Quiet k (k.setQueue i (dequeueCs (k.queues i)).2.2) := by
  unfold dequeueCs
  split <;> exact Quiet.setQueue rfl rfl

/-- **A send attempt** wakes at most the head of the rx FIFO. -/
theorem hrtQueueTrySendCs_effect (sz : Sizing) (i : ℕ) (item : List UInt8) (k : Kernel) :
    WakesAtMost sz (.rx i) (hrtQueueTrySendCs sz i item k).2.1 k
    (hrtQueueTrySendCs sz i item k).2.2 := by
  unfold hrtQueueTrySendCs
  simp only
  split
  · exact enqueueCs_quiet.wakesAtMost wakeRx_effect
  · exact Or.inl ⟨rfl, enqueueCs_quiet⟩

/-- **A receive attempt** wakes at most the head of the tx FIFO. -/
theorem hrtQueueTryRecvCs_effect (sz : Sizing) (i : ℕ) (k : Kernel) :
    WakesAtMost sz (.tx i) (hrtQueueTryRecvCs sz i k).2.2.1 k
    (hrtQueueTryRecvCs sz i k).2.2.2 := by
  unfold hrtQueueTryRecvCs
  simp only
  split
  · exact dequeueCs_quiet.wakesAtMost wakeTx_effect
  · exact Or.inl ⟨rfl, dequeueCs_quiet⟩

/-- A refused `hrt_queue_try_send` is quiet. -/
theorem hrtQueueTrySendCs_quiet (h : (hrtQueueTrySendCs sz i item k).1 ≠ 0) :
    Quiet k (hrtQueueTrySendCs sz i item k).2.2 := by
  unfold hrtQueueTrySendCs at h ⊢
  simp only at h ⊢
  split
  · rename_i h0
    rw [if_pos h0] at h
    exact absurd h0 h
  · exact enqueueCs_quiet

/-- A refused `hrt_queue_try_recv` is quiet. -/
theorem hrtQueueTryRecvCs_quiet (h : (hrtQueueTryRecvCs sz i k).1 ≠ 0) :
    Quiet k (hrtQueueTryRecvCs sz i k).2.2.2 := by
  unfold hrtQueueTryRecvCs at h ⊢
  simp only at h ⊢
  split
  · rename_i h0
    rw [if_pos h0] at h
    exact absurd h0 h
  · exact dequeueCs_quiet

/-- **The re-check of `hrt_queue_send`** completes the send if there is room by now, and parks the caller
otherwise. -/
theorem hrtQueueSendCs_effect (sz : Sizing) (i me : ℕ) (item : List UInt8) (k : Kernel) :
    ((k.queues i).count < (k.queues i).capacity ∧ ∃ code bytes woken,
      (hrtQueueSendCs sz i me item k).1 = .done code bytes woken ∧
      WakesAtMost sz (.rx i) woken k (hrtQueueSendCs sz i me item k).2) ∨
    ((k.queues i).capacity ≤ (k.queues i).count ∧ (hrtQueueSendCs sz i me item k).1 = .parked ∧
      Parks sz me (.tx i) k (hrtQueueSendCs sz i me item k).2) := by
  unfold hrtQueueSendCs
  split
  · exact Or.inl ⟨‹_›, _, _, _, rfl, enqueueCs_quiet.wakesAtMost wakeRx_effect⟩
  · exact Or.inr ⟨Nat.le_of_not_lt ‹_›, rfl, _, SameSched.setQueue _ _ _, ring_setQueue_tx _ _ _, rfl⟩

/-- **The re-check of `hrt_queue_recv`** completes the receive if there is an item by now, and parks the
caller otherwise. -/
theorem hrtQueueRecvCs_effect (sz : Sizing) (i me : ℕ) (k : Kernel) :
    ((k.queues i).count ≠ 0 ∧ ∃ code bytes woken,
      (hrtQueueRecvCs sz i me k).1 = .done code bytes woken ∧
      WakesAtMost sz (.tx i) woken k (hrtQueueRecvCs sz i me k).2) ∨
    ((k.queues i).count = 0 ∧ (hrtQueueRecvCs sz i me k).1 = .parked ∧
      Parks sz me (.rx i) k (hrtQueueRecvCs sz i me k).2) := by
  unfold hrtQueueRecvCs
  split
  · exact Or.inl ⟨‹_›, _, _, _, rfl, dequeueCs_quiet.wakesAtMost wakeTx_effect⟩
  · exact Or.inr ⟨not_not.mp ‹_›, rfl, _, SameSched.setQueue _ _ _, ring_setQueue_rx _ _ _, rfl⟩

end Sections

/-! ## The effect of an action of a task -/

/-- The task is executing code: its own, or a call that has not yet given up the CPU. -/
def Cont.executing : Cont → Bool
  | .user | .resumed _ | .semTake _ | .mutexLock _ | .queueSend _ _ | .queueRecv _ => true
  | _ => false

/-- The second critical section that comes next will park its caller `t`. -/
def Cont.parksIn (t : ℕ) (k : Kernel) : Cont → Prop
  | .semTake i => (k.sems i).count = 0
  | .mutexLock i => (k.mutexes i).locked = true ∧ (k.mutexes i).owner ≠ t
  | .queueSend q _ => (k.queues q).capacity ≤ (k.queues q).count
  | .queueRecv q => (k.queues q).count = 0
  | _ => False

instance (t : ℕ) (k : Kernel) (c : Cont) : Decidable (c.parksIn t k) := by
  cases c <;> unfold Cont.parksIn <;> infer_instance

/-- The FIFO whose head, if any, is woken by the re-check of a blocking queue call. -/
def Cont.recheckWakes (k : Kernel) : Cont → Option WaitQ
  | .queueSend q _ => if (k.queues q).count < (k.queues q).capacity then some (.rx q) else Option.none
  | .queueRecv q => if (k.queues q).count ≠ 0 then some (.tx q) else Option.none
  | _ => Option.none

/-- Only a call that is about to re-check parks. -/
theorem Cont.rechecks_of_parksIn {t : ℕ} {k : Kernel} {c : Cont} (h : c.parksIn t k) :
    c.rechecks = true := by
  cases c <;> first | rfl | exact h.elim

/-- The next action is the body of `hrt_yield`, called by the task or inside a call that woke another
task. -/
def runsYield (call : Call) : Cont → Bool
  | .user => call = .yield
  | .yield _ => true
  | _ => false

/-- The FIFO whose head, if any, is woken by a call that succeeds. -/
def Call.wakesFifo : Call → Option WaitQ
  | .semGive i => some (.sem i)
  | .mutexUnlock i => some (.mutex i)
  | .queueTrySend q _ | .queueSend q _ => some (.rx q)
  | .queueTryRecv q | .queueRecv q => some (.tx q)
  | _ => none

/-- The FIFO whose head the next action may wake. -/
def Cont.wakesFifo (call : Call) : Cont → Option WaitQ
  | .user => call.wakesFifo
  | .resumed (.sendAgain q _) | .queueSend q _ => some (.rx q)
  | .resumed (.recvAgain q) | .queueRecv q => some (.tx q)
  | _ => Option.none

/-- **The ways an action of task `t` can touch the scheduler.** The indices are the call it issues if
it is between calls, its continuation, and the outcome. -/
inductive TaskEffect (sz : Sizing) (port : Port) (t : ℕ) (k : Kernel) (call : Call) :
    Cont → Outcome → Prop
  /-- Nothing the scheduler reads has changed. -/
  | quiet {c c' k' evs} (hq : Quiet k k') (hc : c.executing = true)
      (hc' : c' = .user ∨ (c'.rechecks = true ∧ c.issues = true)) :
      TaskEffect sz port t k call c ⟨k', c', evs, none⟩
  /-- `hrt__pend_context_switch`. -/
  | request {a evs} :
      TaskEffect sz port t k call (.pend a) ⟨k.hrtPendContextSwitch, .hop a, evs, none⟩
  /-- The body of `hrt_yield`, called by the task or by a call of it that woke another one. -/
  | yield {c a evs} (hc : (c = .user ∧ call = .yield ∧ a = .ret .yield 0) ∨ c = .yield a) :
      TaskEffect sz port t k call c ⟨hrtYieldBody sz t k, .pend a, evs, none⟩
  /-- `hrt_sleep`. -/
  | sleep {ms evs} :
      TaskEffect sz port t k call .user
        ⟨hrtSleepBody t ms k, .pend (.ret (.sleep ms) 0), evs, none⟩
  /-- `hrt_task_delete`. -/
  | delete {evs} (ht : t ≠ sz.idleId) (hcall : call = .taskDelete) :
      TaskEffect sz port t k call .user
        ⟨hrtTaskDeleteBody t k, .pend (.ret .taskDelete 0), evs, none⟩
  /-- The task parks itself. -/
  | park {c w a k' evs} (hc : c.parksIn t k) (hp : Parks sz t w k k') :
      TaskEffect sz port t k call c ⟨k', .pend a, evs, none⟩
  /-- The task wakes a waiter and will yield to it. -/
  | wake {c w h a k' evs} (hc : c.issues = true) (hf : c.wakesFifo call = some w)
      (hw : Wakes sz w h k k') :
      TaskEffect sz port t k call c ⟨k', .yield a, evs, none⟩
  /-- The re-check of a blocking queue call wakes a waiter and returns at once. -/
  | wakeOnRecheck {c w h k' evs} (hc : c.recheckWakes k = some w) (hw : Wakes sz w h k k') :
      TaskEffect sz port t k call c ⟨k', .user, evs, none⟩
  /-- `hrt_create_task`. -/
  | create {a evs} (hcall : call = .createTask a) :
      TaskEffect sz port t k call .user
        ⟨(hrtCreateTask sz port a k).2, .user, evs, (hrtCreateTask sz port a k).1⟩
  /-- `hrt_set_policy`. -/
  | policy {p evs} (hcall : call = .setPolicy p) :
      TaskEffect sz port t k call .user ⟨{ k with policy := p }, .user, evs, none⟩

section TaskEffect

variable {sz : Sizing} {port : Port} {t : ℕ} {k : Kernel} {call : Call} {c : Cont}

/-- The classification does not look at the events. -/
theorem TaskEffect.withEvs {o : Outcome} (h : TaskEffect sz port t k call c o) (evs : List Event) :
    TaskEffect sz port t k call c { o with evs := evs } := by
  cases h with
  | quiet hq hc hc' => exact .quiet hq hc hc'
  | request => exact .request
  | yield hc => exact .yield hc
  | sleep => exact .sleep
  | delete ht hcall => exact .delete ht hcall
  | park hc hp => exact .park hc hp
  | wake hc hf hw => exact .wake hc hf hw
  | wakeOnRecheck hc hw => exact .wakeOnRecheck hc hw
  | create hcall => exact .create hcall
  | policy hcall => exact .policy hcall

/-- `hrt_queue_try_send` called by `hrt_queue_send`, from either place in its loop. -/
theorem sendAttempt_effect {q : ℕ} {item : List UInt8} (hc : c.issues = true)
    (hf : c.wakesFifo call = some (.rx q)) (hex : c.executing = true) :
    TaskEffect sz port t k call c (sendAttempt sz t q item k) := by
  have heff := hrtQueueTrySendCs_effect sz q item k
  unfold sendAttempt
  simp only
  split
  · rcases heff with ⟨hn, hq⟩ | ⟨h, hh, hw⟩
    · rw [hn]
      exact .quiet hq hex (Or.inl rfl)
    · rw [hh]
      exact .wake hc hf hw
  · rename_i hne
    exact .quiet (hrtQueueTrySendCs_quiet hne) hex (Or.inr ⟨rfl, hc⟩)

/-- `hrt_queue_try_recv` called by `hrt_queue_recv`, from either place in its loop. -/
theorem recvAttempt_effect {q : ℕ} (hc : c.issues = true) (hf : c.wakesFifo call = some (.tx q))
    (hex : c.executing = true) :
    TaskEffect sz port t k call c (recvAttempt sz t q k) := by
  have heff := hrtQueueTryRecvCs_effect sz q k
  unfold recvAttempt
  simp only
  split
  · rcases heff with ⟨hn, hq⟩ | ⟨h, hh, hw⟩
    · rw [hn]
      exact .quiet hq hex (Or.inl rfl)
    · rw [hh]
      exact .wake hc hf hw
  · rename_i hne
    exact .quiet (hrtQueueTryRecvCs_quiet hne) hex (Or.inr ⟨rfl, hc⟩)

/-- The first action of a call. -/
theorem issue_effect : TaskEffect sz port t k call .user (issue sz port t k call) := by
  cases call with
  | createTask a => exact .create rfl
  | yield => exact .yield (Or.inl ⟨rfl, rfl, rfl⟩)
  | sleep ms => exact .sleep
  | taskDelete =>
      simp only [issue]
      split
      · exact .quiet (Quiet.refl k) rfl (Or.inl rfl)
      · exact .delete ‹_› rfl
  | setPolicy p => exact .policy rfl
  | setDefaultTimeslice n =>
      refine .quiet ⟨⟨rfl, rfl, rfl, rfl, rfl, rfl, rfl⟩, ?_⟩ rfl (Or.inl rfl)
      funext w
      cases w <;> rfl
  | semTryTake i =>
      simp only [issue]
      split <;> exact .quiet hrtSemTryTake_quiet rfl (Or.inl rfl)
  | semTake i =>
      simp only [issue]
      split
      · exact .quiet hrtSemTryTake_quiet rfl (Or.inl rfl)
      · exact .quiet hrtSemTryTake_quiet rfl (Or.inr ⟨rfl, rfl⟩)
  | semGive i =>
      simp only [issue]
      rcases giveCommonCs_effect sz i k with ⟨hn, hq⟩ | ⟨h, hh, hw⟩
      · rw [hn]
        exact .quiet hq rfl (Or.inl rfl)
      · rw [hh]
        exact .wake rfl rfl hw
  | mutexTryLock i =>
      simp only [issue]
      split <;> exact .quiet hrtMutexTryLock_quiet rfl (Or.inl rfl)
  | mutexLock i =>
      simp only [issue]
      split_ifs
      · exact .quiet (Quiet.hrtError k _) rfl (Or.inl rfl)
      · exact .quiet hrtMutexTryLock_quiet rfl (Or.inl rfl)
      · exact .quiet hrtMutexTryLock_quiet rfl (Or.inr ⟨rfl, rfl⟩)
  | mutexUnlock i =>
      simp only [issue]
      rcases hrtMutexUnlockCs_effect sz i t k with
        ⟨hn, hq⟩ | ⟨h, hh, hw⟩
      · split
        · exact .quiet hq rfl (Or.inl rfl)
        · rename_i w hw
          exact absurd hw (hn w)
        · exact .quiet hq rfl (Or.inl rfl)
      · rw [hh]
        exact .wake rfl rfl hw
  | queueTrySend q item =>
      have heff := hrtQueueTrySendCs_effect sz q item k
      simp only [issue]
      split
      · rcases heff with ⟨hn, hq⟩ | ⟨h, hh, hw⟩
        · rw [hn]
          exact .quiet hq rfl (Or.inl rfl)
        · rw [hh]
          exact .wake rfl rfl hw
      · rename_i hne
        exact .quiet (hrtQueueTrySendCs_quiet hne) rfl (Or.inl rfl)
  | queueSend q item => exact sendAttempt_effect rfl rfl rfl
  | queueTryRecv q =>
      have heff := hrtQueueTryRecvCs_effect sz q k
      simp only [issue]
      split
      · rcases heff with ⟨hn, hq⟩ | ⟨h, hh, hw⟩
        · rw [hn]
          exact .quiet hq rfl (Or.inl rfl)
        · rw [hh]
          exact .wake rfl rfl hw
      · rename_i hne
        exact .quiet (hrtQueueTryRecvCs_quiet hne) rfl (Or.inl rfl)
  | queueRecv q => exact recvAttempt_effect rfl rfl rfl

/-- The action after `hrt_port_yield_to_scheduler` has returned. -/
theorem resume_effect (a : After) :
    TaskEffect sz port t k call (.resumed a) (resume sz t k a) := by
  cases a with
  | ret c' code => exact .quiet (Quiet.refl k) rfl (Or.inl rfl)
  | sendAgain q item => exact sendAttempt_effect rfl rfl rfl
  | recvAgain q => exact recvAttempt_effect rfl rfl rfl

/-- The action of `hrt_sem_take` after its failed attempt. -/
theorem semTakeAction_effect (i : ℕ) :
    TaskEffect sz port t k call (.semTake i) (semTakeAction sz t i k) := by
  unfold semTakeAction
  rcases hrtSemTakeCs_effect sz i t k with ⟨h1, hq⟩ | ⟨h0, h1, hp⟩
  · simp only [h1, if_true]
    exact .quiet hq rfl (Or.inl rfl)
  · simp only [h1, Bool.false_eq_true, if_false]
    exact .park h0 hp

/-- The action of `hrt_mutex_lock` after its failed attempt. -/
theorem mutexLockAction_effect (i : ℕ) :
    TaskEffect sz port t k call (.mutexLock i) (mutexLockAction sz t i k) := by
  unfold mutexLockAction
  rcases hrtMutexLockCs_effect sz i t k with ⟨h1, hq⟩ | ⟨h0, h1, hp⟩
  · simp only
    split
    · exact .quiet hq rfl (Or.inl rfl)
    · exact .quiet hq rfl (Or.inl rfl)
    · exact absurd ‹_› h1
  · simp only [h1]
    exact .park h0 hp

/-- The action of `hrt_queue_send` after its failed attempt. -/
theorem queueSendAction_effect (q : ℕ) (item : List UInt8) :
    TaskEffect sz port t k call (.queueSend q item) (queueSendAction sz t q item k) := by
  unfold queueSendAction
  rcases hrtQueueSendCs_effect sz q t item k with
    ⟨h0, code, bytes, woken, h1, hw⟩ | ⟨h0, h1, hp⟩
  · simp only [h1]
    rcases hw with ⟨-, hq⟩ | ⟨h, -, hw⟩
    · exact .quiet hq rfl (Or.inl rfl)
    · exact .wakeOnRecheck (if_pos h0) hw
  · simp only [h1]
    exact .park h0 hp

/-- The action of `hrt_queue_recv` after its failed attempt. -/
theorem queueRecvAction_effect (q : ℕ) :
    TaskEffect sz port t k call (.queueRecv q) (queueRecvAction sz t q k) := by
  unfold queueRecvAction
  rcases hrtQueueRecvCs_effect sz q t k with
    ⟨h0, code, bytes, woken, h1, hw⟩ | ⟨h0, h1, hp⟩
  · simp only [h1]
    rcases hw with ⟨-, hq⟩ | ⟨h, -, hw⟩
    · exact .quiet hq rfl (Or.inl rfl)
    · exact .wakeOnRecheck (if_pos h0) hw
  · simp only [h1]
    exact .park h0 hp

/-- **Every action of a task is one of the listed effects.** -/
theorem taskEffect {o : Outcome} (h : nextAction sz port t call k c = some o) :
    TaskEffect sz port t k call c o := by
  cases c with
  | none => exact absurd h (by simp [nextAction])
  | hop a => exact absurd h (by simp [nextAction])
  | user =>
      obtain rfl := Option.some.inj h
      exact issue_effect.withEvs _
  | yield a =>
      obtain rfl := Option.some.inj h
      exact .yield (Or.inr rfl)
  | pend a =>
      obtain rfl := Option.some.inj h
      exact .request
  | resumed a =>
      obtain rfl := Option.some.inj h
      exact resume_effect a
  | semTake i =>
      obtain rfl := Option.some.inj h
      exact semTakeAction_effect i
  | mutexLock i =>
      obtain rfl := Option.some.inj h
      exact mutexLockAction_effect i
  | queueSend q item =>
      obtain rfl := Option.some.inj h
      exact queueSendAction_effect q item
  | queueRecv q =>
      obtain rfl := Option.some.inj h
      exact queueRecvAction_effect q

/-- A slot that an action leaves free was free, or it is the caller's and the call is
`hrt_task_delete`. -/
theorem TaskEffect.unused {o : Outcome} (h : TaskEffect sz port t k call c o) {j : ℕ}
    (hun : o.k.stateOf j = .unused) :
    k.stateOf j = .unused ∨ (j = t ∧ c = .user ∧ call = .taskDelete) := by
  cases h with
  | quiet hq hc hc' => exact Or.inl (by rwa [hq.same.stateOf] at hun)
  | request => exact Or.inl hun
  | yield hc => exact Or.inl (by rwa [stateOf_hrtYieldBody] at hun)
  | sleep =>
      by_cases hj : j = t
      · subst hj
        simp [hrtSleepBody_eq] at hun
      · exact Or.inl (by simpa [hrtSleepBody_eq, hj] using hun)
  | delete ht hcall =>
      by_cases hj : j = t
      · exact Or.inr ⟨hj, rfl, hcall⟩
      · exact Or.inl (by simpa [hrtTaskDeleteBody, hj] using hun)
  | park hc hp =>
      rw [hp.stateOf] at hun
      split at hun
      · exact absurd hun (by simp)
      · exact Or.inl hun
  | wake hc hf hw => exact Or.inl (hw.stateOf_of_ne (by simp) hun)
  | wakeOnRecheck hc hw => exact Or.inl (hw.stateOf_of_ne (by simp) hun)
  | create hcall => exact Or.inl (hrtCreateTask_unused hun)
  | policy hcall => exact Or.inl hun

/-- A slot other than the acting task's is free afterwards only if it was free before. -/
theorem TaskEffect.unused_of_unused {o : Outcome} (h : TaskEffect sz port t k call c o) {j : ℕ}
    (hj : j ≠ t) (hun : o.k.stateOf j = .unused) : k.stateOf j = .unused :=
  (h.unused hun).resolve_right fun hdel => hj hdel.1

/-- A task that an action leaves blocked was blocked, or it is the caller and has just parked. -/
theorem TaskEffect.blocked {o : Outcome} (h : TaskEffect sz port t k call c o) {j : ℕ}
    (hb : o.k.stateOf j = .blocked) : k.stateOf j = .blocked ∨ (j = t ∧ c.parksIn t k) := by
  cases h with
  | quiet hq hc hc' => exact Or.inl (by rwa [hq.same.stateOf] at hb)
  | request => exact Or.inl hb
  | yield hc => exact Or.inl (by rwa [stateOf_hrtYieldBody] at hb)
  | sleep =>
      by_cases hj : j = t
      · subst hj
        simp [hrtSleepBody_eq] at hb
      · exact Or.inl (by simpa [hrtSleepBody_eq, hj] using hb)
  | delete ht hcall =>
      by_cases hj : j = t
      · subst hj
        simp [hrtTaskDeleteBody] at hb
      · exact Or.inl (by simpa [hrtTaskDeleteBody, hj] using hb)
  | park hc hp =>
      by_cases hj : j = t
      · exact Or.inr ⟨hj, hc⟩
      · exact Or.inl (by rwa [hp.stateOf, if_neg hj] at hb)
  | wake hc hf hw => exact Or.inl (hw.stateOf_of_ne (by simp) hb)
  | wakeOnRecheck hc hw => exact Or.inl (hw.stateOf_of_ne (by simp) hb)
  | create hcall => exact Or.inl ((hrtCreateTask_blocked_iff sz port _ k j).mp hb)
  | policy hcall => exact Or.inl hb

/-- An action that builds a context is a call of `hrt_create_task`. -/
theorem TaskEffect.spawn_eq {o : Outcome} (h : TaskEffect sz port t k call c o) {id : ℕ}
    (hid : o.spawn = some id) :
    ∃ a, c = .user ∧ call = .createTask a ∧ (hrtCreateTask sz port a k).1 = some id := by
  cases h with
  | create hcall => exact ⟨_, rfl, hcall, hid⟩
  | _ => exact absurd hid (by simp)

/-- An action of a task leaves it with a context. -/
theorem TaskEffect.cont_ne_none {o : Outcome} (h : TaskEffect sz port t k call c o) :
    o.cont ≠ .none := by
  cases h with
  | quiet hq hc hc' =>
      rcases hc' with rfl | ⟨hre, -⟩
      · simp
      · intro hn
        have hre' : Cont.none.rechecks = true := hn ▸ hre
        simp [Cont.rechecks] at hre'
  | _ => simp

/-- No action of a task changes who is current. -/
theorem TaskEffect.current {o : Outcome} (h : TaskEffect sz port t k call c o) :
    o.k.current = k.current := by
  have hwake : ∀ {w : WaitQ} {id : ℕ} {k' : Kernel}, Wakes sz w id k k' → k'.current = k.current := by
    rintro w id k' ⟨k₁, hs, -, -, rfl⟩
    rw [hrtMakeReady_current, hs.current]
  cases h with
  | quiet hq hc hc' => exact hq.same.current
  | request => rfl
  | yield hc =>
      show (hrtYieldBody sz t k).current = k.current
      unfold hrtYieldBody
      split
      · rw [rqPush_current]
        rfl
      · rfl
  | sleep => rfl
  | delete ht hcall => rfl
  | park hc hp =>
      obtain ⟨k₁, hs, -, rfl⟩ := hp
      exact hs.current
  | wake hc hf hw => exact hwake hw
  | wakeOnRecheck hc hw => exact hwake hw
  | create hcall => exact (hrtCreateTask_frame sz port _ k).1
  | policy hcall => rfl

/-- No action but `hrt__pend_context_switch` touches the request. -/
theorem TaskEffect.pend {o : Outcome} (h : TaskEffect sz port t k call c o) (hc : ∀ a, c ≠ .pend a) :
    o.k.pend = k.pend := by
  have hwake : ∀ {w : WaitQ} {id : ℕ} {k' : Kernel}, Wakes sz w id k k' → k'.pend = k.pend := by
    rintro w id k' ⟨k₁, hs, -, -, rfl⟩
    rw [hrtMakeReady_pend, hs.pend]
  cases h with
  | quiet hq _ _ => exact hq.same.pend
  | request => exact absurd rfl (hc _)
  | yield _ =>
      show (hrtYieldBody sz t k).pend = k.pend
      unfold hrtYieldBody
      split
      · rw [rqPush_pend]
        rfl
      · rfl
  | sleep => rfl
  | delete _ _ => rfl
  | park _ hp =>
      obtain ⟨k₁, hs, -, rfl⟩ := hp
      exact hs.pend
  | wake _ _ hw => exact hwake hw
  | wakeOnRecheck _ hw => exact hwake hw
  | create _ => exact (hrtCreateTask_frame sz port _ k).2.2
  | policy _ => rfl

/-- No action but `hrt__pend_context_switch` comes to `hrt_port_yield_to_scheduler`. -/
theorem TaskEffect.cont_ne_hop {o : Outcome} (h : TaskEffect sz port t k call c o)
    (hc : ∀ a, c ≠ .pend a) (a : After) : o.cont ≠ .hop a := by
  cases h with
  | quiet _ _ hc' =>
      rintro rfl
      rcases hc' with ha | ⟨ha, -⟩
      · exact absurd ha (by simp)
      · exact absurd ha (by simp [Cont.rechecks])
  | request => exact absurd rfl (hc _)
  | _ => simp

/-- **The ways an action of task `t` can change the control block of slot `j`.** -/
inductive TcbEffect (t : ℕ) (k : Kernel) (o : Outcome) (j : ℕ) : Prop
  | same (h : o.k.tcbs j = k.tcbs j)
  /-- The task itself stops being ready and is about to request a switch. -/
  | leave (st : TaskState) (wake : ℕ) {a} (hj : j = t) (hst : st ≠ .ready) (hc : o.cont = .pend a)
      (h : o.k.tcbs j = { k.tcbs j with state := st, wakeTick := wake })
  /-- The slot is made ready, with a fresh quantum. -/
  | refill (h : o.k.tcbs j = (k.tcbs j).refill)
  /-- A task is created in the slot. -/
  | create {a : TaskArgs} {sp : ℕ} (hun : k.stateOf j = .unused) (hnew : o.spawn = some j)
      (h : o.k.tcbs j = a.readyTcb k sp)

/-- A waking refills the woken task and no other. -/
theorem Wakes.tcbs {w : WaitQ} {id : ℕ} {k' : Kernel} (hw : Wakes sz w id k k') (j : ℕ) :
    k'.tcbs j = k.tcbs j ∨ k'.tcbs j = (k.tcbs j).refill := by
  obtain ⟨k₁, hs, -, -, rfl⟩ := hw
  rw [hrtMakeReady_tcbs, hs.tcbs]
  by_cases hj : j = id
  · subst hj
    exact Or.inr (by simp [Tcb.refill])
  · exact Or.inl (Function.update_of_ne hj _ _)

/-- A waking adds the woken task to the queue of its priority, and nothing else. -/
theorem Wakes.mem_readyList {w : WaitQ} {id : ℕ} {k' : Kernel} (hw : Wakes sz w id k k')
    (hr : sz.Representable) (hwf : ReadyWF sz k) {p j : ℕ} (hp : p < sz.maxPrio)
    (hj : j ∈ k'.readyList sz p) : j ∈ k.readyList sz p ∨ p = (k.tcbs id).prio := by
  obtain ⟨k₁, hs, -, -, rfl⟩ := hw
  have hwf₁ : ReadyWF sz (markReady id k₁) := fun p hp => hs.rq ▸ hwf p hp
  rcases mem_readyList_push hwf₁ hr hp hj with hold | ⟨hp', -⟩
  · left
    rw [Kernel.readyList, ← hs.rq]
    exact hold
  · right
    simpa [markReady, Tcb.refill, Kernel.modifyTcb, hs.tcbs] using hp'

/-- A creation adds the new task to the queue of its priority, and nothing else. -/
theorem hrtCreateTask_mem_readyList (port : Port) {a : TaskArgs} (hr : sz.Representable)
    (hwf : ReadyWF sz k) {p j : ℕ} (hp : p < sz.maxPrio)
    (hj : j ∈ (hrtCreateTask sz port a k).2.readyList sz p) :
    j ∈ k.readyList sz p ∨ (p = a.prio ∧ createdSlot sz k a = some j) := by
  rw [← hrtCreateTask_slot sz port]
  rcases hrtCreateTask_cases sz port a k with ⟨e, he⟩ | ⟨id, sp, e, hlt, -, he⟩
  · rw [he] at hj
    exact Or.inl hj
  · rw [he] at hj ⊢
    have hwf₁ : ReadyWF sz
        { k with tcbs := Function.update k.tcbs id (a.readyTcb k sp), error := e } := hwf
    refine (mem_readyList_push hwf₁ hr hp hj).imp_right fun h => ⟨h.1, ?_⟩
    rw [h.2, hr.mod_eq hlt]

/-- A creation fills one free slot and no other. -/
theorem hrtCreateTask_tcbs (sz : Sizing) (port : Port) (a : TaskArgs) (k : Kernel) (j : ℕ) :
    (hrtCreateTask sz port a k).2.tcbs j = k.tcbs j ∨
    (k.stateOf j = .unused ∧ (hrtCreateTask sz port a k).1 = some j ∧
      ∃ sp, (hrtCreateTask sz port a k).2.tcbs j = a.readyTcb k sp) := by
  rcases hrtCreateTask_cases sz port a k with ⟨e, he⟩ | ⟨id, sp, e, -, hun, he⟩
  · rw [he]
    exact Or.inl rfl
  · rw [he]
    by_cases hj : j = id
    · subst hj
      exact Or.inr ⟨hun, rfl, sp, by simp⟩
    · exact Or.inl (by simp [hj])

/-- Only a creation changes a priority. -/
theorem TcbEffect.prio {o : Outcome} {j : ℕ} (h : TcbEffect t k o j) (hj : o.spawn ≠ some j) :
    (o.k.tcbs j).prio = (k.tcbs j).prio := by
  cases h with
  | same hs => rw [hs]
  | leave st wake _ _ _ hs => rw [hs]
  | refill hs => rw [hs]; rfl
  | create hun hnew hs => exact absurd hnew hj

/-- Only a creation changes a saved stack pointer. -/
theorem TcbEffect.sp {o : Outcome} {j : ℕ} (h : TcbEffect t k o j) (hj : o.spawn ≠ some j) :
    (o.k.tcbs j).sp = (k.tcbs j).sp := by
  cases h with
  | same hs => rw [hs]
  | leave st wake _ _ _ hs => rw [hs]
  | refill hs => rw [hs]; rfl
  | create hun hnew hs => exact absurd hnew hj

/-- A ready task other than the caller stays ready and keeps its priority. -/
theorem TcbEffect.ready_of_ne {o : Outcome} {j : ℕ} (h : TcbEffect t k o j) (hj : j ≠ t)
    (hst : k.stateOf j = .ready) : o.k.stateOf j = .ready ∧ (o.k.tcbs j).prio = (k.tcbs j).prio := by
  cases h with
  | same hs => exact ⟨by rw [Kernel.stateOf, hs]; exact hst, by rw [hs]⟩
  | leave st wake hjt _ _ hs => exact absurd hjt hj
  | refill hs => exact ⟨by rw [Kernel.stateOf, hs]; rfl, by rw [hs]; rfl⟩
  | create hun hnew hs => exact absurd (hst.symm.trans hun) (by simp)

/-- **Every action changes control blocks in one of these ways.** -/
theorem TaskEffect.tcb {o : Outcome} (h : TaskEffect sz port t k call c o) (j : ℕ) :
    TcbEffect t k o j := by
  have hwake : ∀ {w : WaitQ} {id : ℕ} {k' : Kernel} {c' : Cont} {evs : List Event},
      Wakes sz w id k k' → TcbEffect t k ⟨k', c', evs, none⟩ j := by
    intro w id k' c' evs hw
    rcases hw.tcbs j with hs | hs
    · exact .same hs
    · exact .refill hs
  cases h with
  | quiet hq hc hc' => exact .same (by rw [hq.same.tcbs])
  | request => exact .same rfl
  | yield hc =>
      by_cases hst : k.stateOf t = .ready
      · by_cases hj : j = t
        · subst hj
          refine .refill ?_
          have hst' : (k.tcbs j).state = .ready := hst
          simp [hrtYieldBody, hst, ← hst', Kernel.modifyTcb, Tcb.refill]
        · exact .same (by simp [hrtYieldBody, hst, Kernel.modifyTcb, hj])
      · exact .same (by simp [hrtYieldBody, hst])
  | @sleep ms evs =>
      by_cases hj : j = t
      · subst hj
        exact .leave .sleep ((k.tick + hrtMsToTicks ms k.tickHz) % 2 ^ 32) rfl (by simp) rfl
          (by simp [hrtSleepBody_eq, Kernel.modifyTcb])
      · exact .same (by simp [hrtSleepBody_eq, Kernel.modifyTcb, hj])
  | delete ht hcall =>
      by_cases hj : j = t
      · subst hj
        exact .leave .unused (k.tcbs j).wakeTick rfl (by simp) rfl
          (by simp [hrtTaskDeleteBody, Kernel.setState, Kernel.modifyTcb])
      · exact .same (by simp [hrtTaskDeleteBody, Kernel.setState, Kernel.modifyTcb, hj])
  | park hc hp =>
      obtain ⟨k₁, hs, -, rfl⟩ := hp
      by_cases hj : j = t
      · subst hj
        exact .leave .blocked (k.tcbs j).wakeTick rfl (by simp) rfl
          (by simp [Kernel.setState, Kernel.modifyTcb, hs.tcbs])
      · exact .same (by simp [Kernel.setState, Kernel.modifyTcb, hj, hs.tcbs])
  | wake hc hf hw => exact hwake hw
  | wakeOnRecheck hc hw => exact hwake hw
  | create hcall =>
      rcases hrtCreateTask_tcbs sz port _ k j with hs | ⟨hun, hnew, sp, hs⟩
      · exact .same hs
      · exact .create hun hnew hs
  | policy hcall => exact .same rfl

end TaskEffect

/-! ## The effect of an ISR -/

/-- The FIFO an ISR operation may pop. -/
def Isr.waitQ : Isr → WaitQ
  | .semGive i => .sem i
  | .queueTrySend q _ => .rx q
  | .queueTryRecv q => .tx q

/-- **Every ISR operation** leaves the scheduler alone, or wakes the head of its FIFO and requests a
reschedule. -/
theorem isrEffect (sz : Sizing) (k : Kernel) (op : Isr) :
    Quiet k (isrAction sz k op).2.1 ∨
    ∃ h k', Wakes sz op.waitQ h k k' ∧ (isrAction sz k op).2.1 = k'.hrtPendContextSwitch := by
  have hcase : ∀ {w : WaitQ} {woken : Option ℕ} {k' : Kernel}, WakesAtMost sz w woken k k' →
      Quiet k (pendIfWoken woken k') ∨
      ∃ h k₁, Wakes sz w h k k₁ ∧ pendIfWoken woken k' = k₁.hrtPendContextSwitch := by
    rintro w woken k' (⟨rfl, hq⟩ | ⟨h, rfl, hw⟩)
    · exact Or.inl hq
    · exact Or.inr ⟨h, k', hw, rfl⟩
  cases op with
  | semGive i => exact hcase (giveCommonCs_effect sz i k)
  | queueTrySend q item => exact hcase (hrtQueueTrySendCs_effect sz q item k)
  | queueTryRecv q => exact hcase (hrtQueueTryRecvCs_effect sz q k)

/-- No ISR operation changes who is current. -/
theorem isr_current (sz : Sizing) (k : Kernel) (op : Isr) :
    (isrAction sz k op).2.1.current = k.current := by
  rcases isrEffect sz k op with hq | ⟨id, k', ⟨k₁, hs, -, -, rfl⟩, heq⟩
  · exact hq.same.current
  · rw [heq]
    show (hrtMakeReady sz id k₁).current = k.current
    rw [hrtMakeReady_current, hs.current]

/-- No ISR operation withdraws a reschedule request. -/
theorem isr_pend (sz : Sizing) (k : Kernel) (op : Isr) (h : k.pend = true) :
    (isrAction sz k op).2.1.pend = true := by
  rcases isrEffect sz k op with hq | ⟨id, k', -, heq⟩
  · exact hq.same.pend.trans h
  · rw [heq]
    rfl

/-- **An ISR that wakes somebody requests a reschedule**; any other leaves the ready queues and the
request alone. -/
theorem isr_pend_or_rq (sz : Sizing) (k : Kernel) (op : Isr) :
    (isrAction sz k op).2.1.pend = true ∨
    ((isrAction sz k op).2.1.rq = k.rq ∧ (isrAction sz k op).2.1.pend = k.pend) := by
  rcases isrEffect sz k op with hq | ⟨id, k', -, heq⟩
  · exact Or.inr ⟨hq.same.rq, hq.same.pend⟩
  · rw [heq]
    exact Or.inl rfl

/-- An ISR operation leaves a control block alone or refills it. -/
theorem isr_tcbs (sz : Sizing) (k : Kernel) (op : Isr) (j : ℕ) :
    (isrAction sz k op).2.1.tcbs j = k.tcbs j ∨
    (isrAction sz k op).2.1.tcbs j = (k.tcbs j).refill := by
  rcases isrEffect sz k op with hq | ⟨id, k', hw, heq⟩
  · exact Or.inl (by rw [hq.same.tcbs])
  · rw [heq]
    exact hw.tcbs j

/-- An ISR operation leaves priorities and stack pointers alone. -/
theorem isr_config (sz : Sizing) (k : Kernel) (op : Isr) (j : ℕ) :
    ((isrAction sz k op).2.1.tcbs j).prio = (k.tcbs j).prio ∧
    ((isrAction sz k op).2.1.tcbs j).sp = (k.tcbs j).sp := by
  rcases isr_tcbs sz k op j with hs | hs <;> rw [hs] <;> exact ⟨rfl, rfl⟩

/-- An ISR operation leaves ready tasks ready. -/
theorem isr_ready {sz : Sizing} {k : Kernel} {op : Isr} {j : ℕ} (h : k.stateOf j = .ready) :
    (isrAction sz k op).2.1.stateOf j = .ready := by
  rcases isr_tcbs sz k op j with hs | hs
  · exact (congrArg Tcb.state hs).trans h
  · exact congrArg Tcb.state hs

/-- Whoever an ISR operation leaves in another state than ready was in that state. -/
theorem isr_stateOf_of_ne {sz : Sizing} {k : Kernel} {op : Isr} {j : ℕ} {st : TaskState}
    (hst : st ≠ .ready) (h : (isrAction sz k op).2.1.stateOf j = st) : k.stateOf j = st := by
  rcases isrEffect sz k op with hq | ⟨id, k', hw, heq⟩
  · rwa [hq.same.stateOf] at h
  · rw [heq] at h
    exact hw.stateOf_of_ne hst h

/-- A task that an ISR operation leaves blocked was blocked. -/
theorem isr_blocked {sz : Sizing} {k : Kernel} {op : Isr} {j : ℕ}
    (h : (isrAction sz k op).2.1.stateOf j = .blocked) : k.stateOf j = .blocked :=
  isr_stateOf_of_ne (by simp) h

/-- A slot that an ISR operation leaves free was free. -/
theorem isr_unused {sz : Sizing} {k : Kernel} {op : Isr} {j : ℕ}
    (h : (isrAction sz k op).2.1.stateOf j = .unused) : k.stateOf j = .unused :=
  isr_stateOf_of_ne (by simp) h

end HardRT
