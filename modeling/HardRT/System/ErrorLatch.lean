import HardRT.System.Partition
import HardRT.System.ReadyBooks

/-! # The error latch

`hrt_error` is called from the checks of `rq_push`, `_set_sp`, `hrt_port_prepare_task_stack`,
`hrt_create_task`, `hrt__tick_isr` and the mutex calls. This module says, function by function, that the
latch `g_error` is left alone as long as those checks pass, and that they do when the books are in order
and the caller keeps to the documented preconditions (`Call.Legal`). -/

namespace HardRT

open Lib

/-! ## Pushes -/

section Pushes

variable {sz : Sizing} {k : Kernel} {id : ℕ} {run : ℕ → Prop}

/-- A push that gets past its checks raises no error. -/
theorem rqPush_error {p : ℕ} (h : RqAccepts sz k p) (id : ℕ) : (rqPush sz p id k).error = k.error := by
  rw [rqPush_of_accepts h]
  rfl

/-- A task whose control block has just been written is pushed. -/
theorem rqPush_modifyTcb_error {f : Tcb → Tcb} (hf : (f (k.tcbs id)).prio = (k.tcbs id).prio)
    (h : RqAccepts sz k (k.tcbs id).prio) :
    (rqPush sz ((k.modifyTcb id f).tcbs id).prio id (k.modifyTcb id f)).error = k.error := by
  have hprio : ((k.modifyTcb id f).tcbs id).prio = (k.tcbs id).prio := by
    simpa [Kernel.modifyTcb] using hf
  rw [hprio]
  exact rqPush_error (k := k.modifyTcb id f) h id

/-- A task is made ready without an error if its queue has room. -/
theorem hrtMakeReady_error (h : RqAccepts sz k (k.tcbs id).prio) :
    (hrtMakeReady sz id k).error = k.error :=
  rqPush_modifyTcb_error rfl h

/-- So it is with a yield; a caller that is not ready is not pushed. -/
theorem hrtYieldBody_error (h : k.stateOf id = .ready → RqAccepts sz k (k.tcbs id).prio) :
    (hrtYieldBody sz id k).error = k.error := by
  unfold hrtYieldBody
  split
  · exact rqPush_modifyTcb_error rfl (h ‹_›)
  · rfl

/-- Only a null stack pointer is refused. -/
theorem setSp_error {sp : ℕ} (h : sp ≠ 0) : (setSp id sp k).error = k.error := by
  simp [setSp, h, Kernel.modifyTcb]

/-- **A task that is not queued finds room** in every ready queue. -/
theorem ReadyBooks.accepts (h : ReadyBooks sz k run) (hid : id < sz.maxTasks)
    (hq : ¬ (k.stateOf id = .ready ∧ ¬ run id)) {p : ℕ} (hp : p < sz.maxPrio) : RqAccepts sz k p :=
  ⟨hp, h.set.count_lt hp hid hq⟩

/-- A task in use that is not queued finds room in its own ready queue. -/
theorem ReadyBooks.accepts_own (h : ReadyBooks sz k run) (hused : k.stateOf id ≠ .unused)
    (hq : ¬ (k.stateOf id = .ready ∧ ¬ run id)) : RqAccepts sz k (k.tcbs id).prio :=
  h.accepts (h.lt id hused) hq (h.prio id hused)

end Pushes

/-! ## The critical sections -/

/-- **Whoever is woken next finds room**: the head of any wait FIFO can be pushed. -/
def HeadsFit (sz : Sizing) (k : Kernel) : Prop :=
  ∀ w id, ((k.ring w).pop 256 sz.maxTasks).1 = some id → RqAccepts sz k (k.tcbs id).prio

/-- The heads of the FIFOs are blocked, hence not queued. -/
theorem ReadyBooks.headsFit {sz : Sizing} {k : Kernel} {run : ℕ → Prop} (h : ReadyBooks sz k run)
    (hr : sz.Representable) (hpart : BlockedPartition sz k) : HeadsFit sz k := by
  intro w id hpop
  have hb := hpart.blocked_of_pop hr hpop
  refine h.accepts_own ?_ ?_ <;> rw [hb] <;> simp

section Sections

variable {sz : Sizing} {k : Kernel} {i me : ℕ} {item : List UInt8}

/-- **A give raises no error** if the head of the wait FIFO fits. -/
theorem giveCommonCs_error (h : HeadsFit sz k) : (giveCommonCs sz i k).2.error = k.error := by
  unfold giveCommonCs semWaitqPop
  split
  · rename_i waiter s heq
    rw [Prod.mk.injEq] at heq
    exact hrtMakeReady_error (k := k.setSem i s) (h (.sem i) waiter heq.1)
  · rfl

/-- An unlock by the owner raises no error. -/
theorem hrtMutexUnlockCs_error (h : HeadsFit sz k) (hme : me < sz.maxTasks)
    (hown : (k.mutexes i).locked = true ∧ (k.mutexes i).owner = me) :
    (hrtMutexUnlockCs sz i me k).2.error = k.error := by
  unfold hrtMutexUnlockCs mutexWaitqPop
  rw [if_neg (Nat.not_le.mpr hme), if_neg (by simp [hown])]
  split
  · rename_i waiter m heq
    rw [Prod.mk.injEq] at heq
    exact hrtMakeReady_error (k := k.setMutex i { m with locked := true, owner := waiter })
      (h (.mutex i) waiter heq.1)
  · rfl

/-- An attempt to lock a mutex the caller does not own raises no error. -/
theorem hrtMutexTryLock_error (hme : me < sz.maxTasks)
    (hown : ¬ ((k.mutexes i).locked = true ∧ (k.mutexes i).owner = me)) :
    (hrtMutexTryLock sz i me k).2.error = k.error := by
  unfold hrtMutexTryLock
  split_ifs with hctx hfree hrec
  · exact absurd hme (Nat.not_lt.mpr hctx)
  · rfl
  · exact absurd ⟨Bool.of_not_eq_false hfree, hrec⟩ hown
  · rfl

/-- The second critical section of `hrt_mutex_lock` raises no error unless the caller owns the mutex. -/
theorem hrtMutexLockCs_error
    (hown : ¬ ((k.mutexes i).locked = true ∧ (k.mutexes i).owner = me)) :
    (hrtMutexLockCs sz i me k).2.error = k.error := by
  unfold hrtMutexLockCs
  split_ifs with hfree hrec
  · rfl
  · exact absurd ⟨Bool.of_not_eq_false hfree, hrec⟩ hown
  · rfl

/-- Waking a receiver that fits raises no error. -/
theorem wakeRx_error (h : HeadsFit sz k) : (wakeRx sz i k).2.error = k.error := by
  unfold wakeRx wqPop
  split
  · rename_i waiter r heq
    exact hrtMakeReady_error (k := k.setQueue i { k.queues i with rx := r })
      (h (.rx i) waiter (congrArg Prod.fst heq))
  · rfl

/-- Waking a sender that fits raises no error. -/
theorem wakeTx_error (h : HeadsFit sz k) : (wakeTx sz i k).2.error = k.error := by
  unfold wakeTx wqPop
  split
  · rename_i waiter r heq
    exact hrtMakeReady_error (k := k.setQueue i { k.queues i with tx := r })
      (h (.tx i) waiter (congrArg Prod.fst heq))
  · rfl

/-- Copying an item in or out touches neither a FIFO nor a ready queue. -/
theorem HeadsFit.quiet {k' : Kernel} (h : HeadsFit sz k) (hq : Quiet k k') : HeadsFit sz k' := by
  intro w id hpop
  rw [hq.ring] at hpop
  have hacc := h w id hpop
  rwa [RqAccepts, ← hq.same.rq, ← hq.same.tcbs] at hacc

/-- A send attempt. -/
theorem hrtQueueTrySendCs_error (h : HeadsFit sz k) :
    (hrtQueueTrySendCs sz i item k).2.2.error = k.error := by
  simp only [hrtQueueTrySendCs]
  split
  · exact wakeRx_error (h.quiet enqueueCs_quiet)
  · rfl

/-- A receive attempt. -/
theorem hrtQueueTryRecvCs_error (h : HeadsFit sz k) :
    (hrtQueueTryRecvCs sz i k).2.2.2.error = k.error := by
  simp only [hrtQueueTryRecvCs]
  split
  · exact wakeTx_error (h.quiet dequeueCs_quiet)
  · rfl

/-- The re-check of `hrt_queue_send`. -/
theorem hrtQueueSendCs_error (h : HeadsFit sz k) :
    (hrtQueueSendCs sz i me item k).2.error = k.error := by
  unfold hrtQueueSendCs
  split
  · exact wakeRx_error (h.quiet enqueueCs_quiet)
  · rfl

/-- The re-check of `hrt_queue_recv`. -/
theorem hrtQueueRecvCs_error (h : HeadsFit sz k) : (hrtQueueRecvCs sz i me k).2.error = k.error := by
  unfold hrtQueueRecvCs
  split
  · exact wakeTx_error (h.quiet dequeueCs_quiet)
  · rfl

end Sections

/-! ## Documented preconditions -/

/-- **The preconditions of `hrt_create_task`**: an entry, a stack of at least 64 words, a valid priority
and a free slot. -/
def CreateLegal (sz : Sizing) (k : Kernel) (a : TaskArgs) : Prop :=
  a.Valid ∧ a.prio < sz.maxPrio ∧ firstUnused sz k ≠ none

instance (sz : Sizing) (k : Kernel) (a : TaskArgs) : Decidable (CreateLegal sz k a) :=
  inferInstanceAs (Decidable (_ ∧ _))

/-- The port has no objection to the stack, and stores no null pointer for it. -/
def Port.AcceptsStack (port : Port) (a : TaskArgs) : Prop :=
  ∃ sp, port.prepareTaskStack a.stackWords a.nWords = .ok sp ∧ sp ≠ some 0

/-- **The preconditions of a call** of task `t`: a creation is legal, no lock is taken twice, and only
the owner unlocks. -/
def Call.Legal (sz : Sizing) (t : ℕ) (k : Kernel) : Call → Prop
  | .createTask a => CreateLegal sz k a
  | .mutexTryLock m | .mutexLock m => ¬ ((k.mutexes m).locked = true ∧ (k.mutexes m).owner = t)
  | .mutexUnlock m => (k.mutexes m).locked = true ∧ (k.mutexes m).owner = t
  | _ => True

instance (sz : Sizing) (t : ℕ) (k : Kernel) : (c : Call) → Decidable (c.Legal sz t k)
  | .createTask a => inferInstanceAs (Decidable (CreateLegal sz k a))
  | .mutexTryLock _ | .mutexLock _ => inferInstanceAs (Decidable (¬ (_ ∧ _)))
  | .mutexUnlock _ => inferInstanceAs (Decidable (_ ∧ _))
  | .yield | .sleep _ | .taskDelete | .setPolicy _ | .setDefaultTimeslice _ | .semTryTake _
  | .semTake _ | .semGive _ | .queueTrySend _ _ | .queueSend _ _ | .queueTryRecv _ | .queueRecv _ =>
      instDecidableTrue

/-! ## Creation, actions, interrupts -/

section Actions

variable {sz : Sizing} {port : Port} {k : Kernel} {run : ℕ → Prop} {t : ℕ} {call : Call} {c : Cont}
  {o : Outcome}

/-- Filling a slot raises no error if the port accepts the stack. -/
theorem clearAndFill_error {a : TaskArgs} (hstack : port.AcceptsStack a) (id : ℕ) :
    (clearAndFill port a id k).error = k.error := by
  obtain ⟨sp, hsp, hsp0⟩ := hstack
  unfold clearAndFill
  rw [hsp]
  cases sp with
  | none => rfl
  | some sp => exact setSp_error fun h0 => hsp0 (by rw [h0])

/-- Nor does the push that ends it, if the ready queue has room. -/
theorem fillSlot_error {a : TaskArgs} (hstack : port.AcceptsStack a) (hacc : RqAccepts sz k a.prio)
    (id : ℕ) : (fillSlot sz port a id k).error = k.error := by
  obtain ⟨sp, e, heq, -⟩ := clearAndFill_spec port a id k
  have hprio : ((markReady id (clearAndFill port a id k)).tcbs id).prio = a.prio := by
    rw [heq]
    simp [markReady, Tcb.refill, Kernel.modifyTcb, TaskArgs.tcb]
  have hrq : (markReady id (clearAndFill port a id k)).rq = k.rq := clearAndFill_rq port a id k
  rw [fillSlot, hprio, rqPush_error]
  · exact clearAndFill_error hstack id
  · rwa [RqAccepts, hrq]

/-- **A legal creation raises no error.** -/
theorem ReadyBooks.create_error (h : ReadyBooks sz k run) {a : TaskArgs} (ha : CreateLegal sz k a)
    (hstack : port.AcceptsStack a) : (hrtCreateTask sz port a k).2.error = k.error := by
  obtain ⟨⟨hfn, hst, hw⟩, hp, hfree⟩ := ha
  unfold hrtCreateTask
  rw [if_neg (by simp [hfn, hst, hw])]
  cases hid : firstUnused sz k with
  | none => exact absurd hid hfree
  | some id =>
      obtain ⟨hlt, hun⟩ := firstUnused_spec hid
      exact fillSlot_error hstack
        (h.accepts hlt (fun hq => by rw [hun] at hq; exact absurd hq.1 (by simp)) hp) id

/-- **A legal call raises no error** in its first action, if a yielding caller is on the CPU. -/
theorem ReadyBooks.issue_error (h : ReadyBooks sz k run) (hfit : HeadsFit sz k)
    (ht : t < sz.maxTasks) (hrun : run t) (hlegal : call.Legal sz t k)
    (hstack : ∀ a ∈ call.creates, port.AcceptsStack a) :
    (issue sz port t k call).k.error = k.error := by
  cases call with
  | createTask a => exact h.create_error hlegal (hstack a rfl)
  | yield =>
      refine hrtYieldBody_error fun hst => h.accepts_own (by rw [hst]; simp) fun hq => hq.2 hrun
  | sleep ms => rfl
  | taskDelete =>
      simp only [issue]
      split <;> rfl
  | setPolicy p => rfl
  | setDefaultTimeslice n => rfl
  | semTryTake i =>
      simp only [issue, hrtSemTryTake]
      split_ifs <;> rfl
  | semTake i =>
      simp only [issue, hrtSemTryTake]
      split_ifs <;> rfl
  | semGive i =>
      simp only [issue]
      split <;> exact giveCommonCs_error hfit
  | mutexTryLock i =>
      simp only [issue]
      split <;> exact hrtMutexTryLock_error ht hlegal
  | mutexLock i =>
      simp only [issue, if_neg (Nat.not_le.mpr ht)]
      split <;> exact hrtMutexTryLock_error ht hlegal
  | mutexUnlock i =>
      simp only [issue]
      split <;> exact hrtMutexUnlockCs_error hfit ht hlegal
  | queueTrySend q item =>
      simp only [issue]
      split
      · split <;> exact hrtQueueTrySendCs_error hfit
      · exact hrtQueueTrySendCs_error hfit
  | queueSend q item =>
      simp only [issue, sendAttempt]
      split
      · split <;> exact hrtQueueTrySendCs_error hfit
      · exact hrtQueueTrySendCs_error hfit
  | queueTryRecv q =>
      simp only [issue]
      split
      · split <;> exact hrtQueueTryRecvCs_error hfit
      · exact hrtQueueTryRecvCs_error hfit
  | queueRecv q =>
      simp only [issue, recvAttempt]
      split
      · split <;> exact hrtQueueTryRecvCs_error hfit
      · exact hrtQueueTryRecvCs_error hfit

/-- **No action of the task on the CPU raises an error**, if its calls are legal and it is not about to
find itself the owner in the second critical section of a lock. -/
theorem ReadyBooks.nextAction_error (h : ReadyBooks sz k run) (hfit : HeadsFit sz k)
    (ht : t < sz.maxTasks) (hrun : c.leaving = false → run t)
    (hlegal : c = .user → call.Legal sz t k ∧ ∀ a ∈ call.creates, port.AcceptsStack a)
    (hlock : ∀ m, c = .mutexLock m → ¬ ((k.mutexes m).locked = true ∧ (k.mutexes m).owner = t))
    (ho : nextAction sz port t call k c = some o) : o.k.error = k.error := by
  cases c with
  | none => exact absurd ho (by simp [nextAction])
  | hop a => exact absurd ho (by simp [nextAction])
  | user =>
      obtain rfl := Option.some.inj ho
      exact h.issue_error hfit ht (hrun rfl) (hlegal rfl).1 (hlegal rfl).2
  | yield a =>
      obtain rfl := Option.some.inj ho
      exact hrtYieldBody_error fun hst => h.accepts_own (by rw [hst]; simp) fun hq => hq.2 (hrun rfl)
  | pend a =>
      obtain rfl := Option.some.inj ho
      rfl
  | resumed a =>
      obtain rfl := Option.some.inj ho
      cases a with
      | ret c' code => rfl
      | sendAgain q item =>
          have hissue : (issue sz port t k (.queueSend q item)).k.error = k.error :=
            h.issue_error hfit ht (hrun rfl) trivial (by simp [Call.creates])
          exact hissue
      | recvAgain q =>
          have hissue : (issue sz port t k (.queueRecv q)).k.error = k.error :=
            h.issue_error hfit ht (hrun rfl) trivial (by simp [Call.creates])
          exact hissue
  | semTake i =>
      obtain rfl := Option.some.inj ho
      simp only [semTakeAction, hrtSemTakeCs]
      split_ifs <;> rfl
  | mutexLock i =>
      obtain rfl := Option.some.inj ho
      simp only [mutexLockAction]
      split <;> exact hrtMutexLockCs_error (hlock i rfl)
  | queueSend q item =>
      obtain rfl := Option.some.inj ho
      simp only [queueSendAction]
      split <;> exact hrtQueueSendCs_error hfit
  | queueRecv q =>
      obtain rfl := Option.some.inj ho
      simp only [queueRecvAction]
      split <;> exact hrtQueueRecvCs_error hfit

/-- **No ISR operation raises an error.** -/
theorem isrAction_error (hfit : HeadsFit sz k) (op : Isr) :
    (isrAction sz k op).2.1.error = k.error := by
  have hpend : ∀ (w : Option ℕ) (k' : Kernel), (pendIfWoken w k').error = k'.error := by
    intro w k'
    cases w <;> rfl
  cases op with
  | semGive i => exact (hpend _ _).trans (giveCommonCs_error hfit)
  | queueTrySend q item => exact (hpend _ _).trans (hrtQueueTrySendCs_error hfit)
  | queueTryRecv q => exact (hpend _ _).trans (hrtQueueTryRecvCs_error hfit)

/-- **A tick raises no error** once a task has been dispatched: every sleeper it wakes finds room. -/
theorem ReadyBooks.tick_error (h : ReadyBooks sz k run) (hr : sz.Representable)
    (hrun : ∀ id, run id → ¬ wakesAt k ((k.tick + 1) % 2 ^ 32) id) {cur : ℕ}
    (hcur : k.current = some cur) (hlt : cur < sz.maxTasks) : (hrtTickIsr sz k).error = k.error := by
  have hloop : (ReadyBooks sz (wakeSleepers sz (hrtIncTick k)).1 run ∧
      ∀ id, run id → ¬ wakesAt (wakeSleepers sz (hrtIncTick k)).1
        (wakeSleepers sz (hrtIncTick k)).1.tick id) ∧
      (wakeSleepers sz (hrtIncTick k)).1.error = k.error := by
    refine wakeSleepers_induction (fun s => (ReadyBooks sz s.1 run ∧
      ∀ id, run id → ¬ wakesAt s.1 s.1.tick id) ∧ s.1.error = k.error)
      ⟨⟨h.of_eq rfl (fun _ => rfl) fun _ => rfl, hrun⟩, rfl⟩ ?_
    rintro s i ⟨hbooks, herr⟩ - hwakes
    refine ⟨hbooks.1.wakeOne hr hbooks.2 hwakes, (hrtMakeReady_error ?_).trans herr⟩
    refine hbooks.1.accepts_own ?_ ?_ <;> rw [hwakes.1] <;> simp
  have hcur' : (wakeSleepers sz (hrtIncTick k)).1.current = some cur :=
    (wakeSleepers_frame sz (hrtIncTick k)).1.trans hcur
  have hcore : (tickCore sz k).error = k.error := by
    rw [tickCore, chargeSlice, hcur']
    simp only [if_neg (Nat.not_le.mpr hlt)]
    split <;> exact hloop.2
  rcases hrtTickIsr_cases sz k with heq | heq
  · rw [heq]
    exact hcore
  · rw [heq]
    exact hcore

/-- **A switch raises no error**: the outgoing task is not queued yet. -/
theorem ReadyBooks.schedule_error (h : ReadyBooks sz k fun id => k.current = some id) (oldSp : ℕ) :
    (hrtSchedule sz oldSp k).2.error = k.error := by
  have hsave : (HardRT.saveOutgoing sz oldSp k).error = k.error := by
    unfold HardRT.saveOutgoing
    split_ifs with h0
    · rfl
    · cases hcur : k.current with
      | none => rfl
      | some cur =>
          simp only
          split
          · rename_i hst
            rw [stateOf_setSp] at hst
            rw [rqPush_error, setSp_error h0]
            have hacc := h.accepts_own (by rw [hst]; simp) fun hq => hq.2 hcur
            rwa [RqAccepts, setSp_rq, setSp_tcbs, Function.update_self]
          · exact setSp_error h0
  obtain ⟨rq, hpick⟩ := hrtPickNextReady_frame sz (HardRT.saveOutgoing sz oldSp k)
  simp only [hrtSchedule, hpick]
  exact hsave

/-- `hrt_init` raises no error. -/
theorem hrtInit_error (cfg : Option KernelConfig) (hport : port.initIdleTask ≠ some 0) :
    (hrtInit sz port cfg k).error = k.error := by
  unfold hrtInit
  simp only
  split
  · rename_i sp hsp
    rw [setSp_error fun h0 => hport (by rw [hsp, h0])]
    cases cfg <;> rfl
  · cases cfg <;> rfl

end Actions

end HardRT
