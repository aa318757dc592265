import HardRT.System.Interleave

/-! # The ways of completing a queue operation

`src/core/hardrt_queue.c` has the enqueue-and-wake and the dequeue-and-wake logic three times each: in the
non-blocking function, in its `_from_isr` form, and in the re-check of the blocking function, which runs
when space or data appears between its failed attempt and its critical section.

* `QueueOp.critical`, `QueueOp.returned` — what each of them does in its critical section, and by the time
  it has returned or hands over to the scheduler.
* `queue_paths_agree` — all three do the same to the queue and to the waiter; the first two request a
  switch exactly if they woke a task, and so does the re-check if nobody was parked.
* `recheck_requests_nothing` — with somebody parked, it does not. -/

namespace HardRT

open Lib

/-! ## Operations and paths -/

/-- The operations on a queue. -/
inductive QueueOp
  | send (item : List UInt8)
  | recv
  deriving DecidableEq, Repr

/-- The functions that can complete one. -/
inductive QueuePath
  /-- `hrt_queue_try_send`, `hrt_queue_try_recv`. -/
  | tryCall
  /-- `hrt_queue_try_send_from_isr`, `hrt_queue_try_recv_from_isr`. -/
  | fromIsr
  /-- The re-check inside `hrt_queue_send`, `hrt_queue_recv`. -/
  | recheck
  deriving DecidableEq, Repr

/-- What a critical section that completes an operation leaves behind: the code the function will
return, the bytes copied out, the task woken, and the kernel. -/
structure Completion where
  code : ℤ
  bytes : List UInt8
  woken : Option ℕ
  k : Kernel

/-- What is left of a call up to its return or to `hrt_port_yield_to_scheduler`, if nothing comes in
between. -/
def upToHop (sz : Sizing) (t : ℕ) (o : Outcome) : Kernel :=
  match o.cont with
  -- a call that woke a task yields first, and the yield ends in the same request
  | .yield _ => (hrtYieldBody sz t o.k).hrtPendContextSwitch
  | .pend _ => o.k.hrtPendContextSwitch
  | _ => o.k

/-- It is what the next actions of the task do. -/
theorem upToHop_nextAction {sz : Sizing} {port : Port} {t : ℕ} {c : Call} {o o' : Outcome}
    (ho : ∃ a, o.cont = .yield a ∨ o.cont = .pend a)
    (h : nextAction sz port t c o.k o.cont = some o') : upToHop sz t o' = upToHop sz t o := by
  obtain ⟨a, ha | ha⟩ := ho
  · rw [ha] at h
    obtain rfl := Option.some.inj h
    rw [upToHop, upToHop, ha]
  · rw [ha] at h
    obtain rfl := Option.some.inj h
    rw [upToHop, upToHop, ha]

/-- The end of the non-blocking functions: `if (woken) hrt_yield();`. -/
def yieldIfWoken (sz : Sizing) (t : ℕ) (w : Option ℕ) (k : Kernel) : Kernel :=
  if w.isSome then (hrtYieldBody sz t k).hrtPendContextSwitch else k

/-- **A function requests a switch** if `hrt__pend_context_switch` is among the things it does. -/
def RequestsSwitch (f : Kernel → Kernel) (k : Kernel) : Prop := (f { k with pend := false }).pend = true

instance (f : Kernel → Kernel) (k : Kernel) : Decidable (RequestsSwitch f k) :=
  inferInstanceAs (Decidable (_ = _))

namespace QueueOp

/-- There is room for a send, or an item for a receive. -/
def Possible (q : Queue) : QueueOp → Prop
  | .send _ => q.count < q.capacity
  | .recv => q.count ≠ 0

instance (q : Queue) : (op : QueueOp) → Decidable (op.Possible q)
  | .send _ => inferInstanceAs (Decidable (_ < _))
  | .recv => inferInstanceAs (Decidable (_ ≠ _))

/-- The tasks that wait for this operation. -/
def waiting (q : Queue) : QueueOp → RingBuffer ℕ
  | .send _ => q.rx
  | .recv => q.tx

/-- The critical section of each path, on queue `i`; `none` if it does not complete the operation but
parks the calling task `t`. -/
def critical (sz : Sizing) (i t : ℕ) (k : Kernel) : QueueOp → QueuePath → Option Completion
  | .send item, .tryCall =>
      let r := hrtQueueTrySendCs sz i item k
      some ⟨r.1, [], r.2.1, r.2.2⟩
  | .send item, .fromIsr =>
      let r := hrtQueueTrySendFromIsrCs sz i item k
      some ⟨r.1, [], r.2.1, r.2.2⟩
  | .send item, .recheck =>
      match hrtQueueSendCs sz i t item k with
      | (.done code _ w, k') => some ⟨code, [], w, k'⟩
      | (.parked, _) => none
  | .recv, .tryCall =>
      let r := hrtQueueTryRecvCs sz i k
      some ⟨r.1, r.2.1, r.2.2.1, r.2.2.2⟩
  | .recv, .fromIsr =>
      let r := hrtQueueTryRecvFromIsrCs sz i k
      some ⟨r.1, r.2.1, r.2.2.1, r.2.2.2⟩
  | .recv, .recheck =>
      match hrtQueueRecvCs sz i t k with
      | (.done code bytes w, k') => some ⟨code, bytes, w, k'⟩
      | (.parked, _) => none

/-- The kernel once the function has returned or hands over to the scheduler. -/
def returned (sz : Sizing) (port : Port) (i t : ℕ) (k : Kernel) : QueueOp → QueuePath → Kernel
  | .send item, .tryCall => upToHop sz t (issue sz port t k (.queueTrySend i item))
  | .send item, .fromIsr => (isrAction sz k (.queueTrySend i item)).2.1
  | .send item, .recheck => upToHop sz t (queueSendAction sz t i item k)
  | .recv, .tryCall => upToHop sz t (issue sz port t k (.queueTryRecv i))
  | .recv, .fromIsr => (isrAction sz k (.queueTryRecv i)).2.1
  | .recv, .recheck => upToHop sz t (queueRecvAction sz t i k)

/-! ## What all paths do -/

/-- The common critical section. -/
def complete (sz : Sizing) (i : ℕ) (k : Kernel) : QueueOp → Completion
  | .send item =>
      let w := wakeRx sz i (k.setQueue i (enqueueCs item (k.queues i)).2)
      ⟨0, [], w.1, w.2⟩
  | .recv =>
      let w := wakeTx sz i (k.setQueue i (dequeueCs (k.queues i)).2.2)
      ⟨0, (dequeueCs (k.queues i)).2.1, w.1, w.2⟩

section Paths

variable {sz : Sizing} {port : Port} {i t : ℕ} {k : Kernel} {op : QueueOp}

/-- **The critical sections are the same**, if the operation can be completed. -/
theorem critical_eq (h : op.Possible (k.queues i)) (p : QueuePath) :
    op.critical sz i t k p = some (op.complete sz i k) := by
  cases op with
  | send item =>
      cases p with
      | tryCall =>
          rw [critical, hrtQueueTrySendCs_of_lt h]
          rfl
      | fromIsr =>
          rw [critical, show hrtQueueTrySendFromIsrCs sz i item k = _ from hrtQueueTrySendCs_of_lt h]
          rfl
      | recheck =>
          rw [critical, hrtQueueSendCs_of_lt h]
          rfl
  | recv =>
      cases p with
      | tryCall =>
          rw [critical, hrtQueueTryRecvCs_of_pos h]
          rfl
      | fromIsr =>
          rw [critical, show hrtQueueTryRecvFromIsrCs sz i k = _ from hrtQueueTryRecvCs_of_pos h]
          rfl
      | recheck =>
          rw [critical, hrtQueueRecvCs_of_pos h]
          rfl

/-- **What follows the critical section** is up to the path: the non-blocking call yields if it woke a
task, the ISR form requests a switch if it did, the re-check returns. -/
theorem returned_eq (h : op.Possible (k.queues i)) (p : QueuePath) :
    op.returned sz port i t k p =
      match p with
      | .tryCall => yieldIfWoken sz t (op.complete sz i k).woken (op.complete sz i k).k
      | .fromIsr => pendIfWoken (op.complete sz i k).woken (op.complete sz i k).k
      | .recheck => (op.complete sz i k).k := by
  cases op with
  | send item =>
      cases p with
      | tryCall =>
          rw [returned, issue, hrtQueueTrySendCs_of_lt h, complete]
          -- both sides look at the waking only through its result
          generalize wakeRx sz i (k.setQueue i (enqueueCs item (k.queues i)).2) = r
          rcases r with ⟨_ | w, k'⟩ <;> rfl
      | fromIsr =>
          rw [returned, isrAction,
            show hrtQueueTrySendFromIsrCs sz i item k = _ from hrtQueueTrySendCs_of_lt h]
          rfl
      | recheck =>
          rw [returned, queueSendAction, hrtQueueSendCs_of_lt h]
          rfl
  | recv =>
      cases p with
      | tryCall =>
          rw [returned, issue, hrtQueueTryRecvCs_of_pos h, complete]
          generalize wakeTx sz i (k.setQueue i (dequeueCs (k.queues i)).2.2) = r
          rcases r with ⟨_ | w, k'⟩ <;> rfl
      | fromIsr =>
          rw [returned, isrAction,
            show hrtQueueTryRecvFromIsrCs sz i k = _ from hrtQueueTryRecvCs_of_pos h]
          rfl
      | recheck =>
          rw [returned, queueRecvAction, hrtQueueRecvCs_of_pos h]
          rfl

/-- The task woken is the one that has waited longest. -/
theorem complete_woken (sz : Sizing) (i : ℕ) (k : Kernel) (op : QueueOp) :
    (op.complete sz i k).woken = (wqPop sz (op.waiting (k.queues i))).1 := by
  cases op with
  | send item =>
      rw [complete, waiting, ← enqueueCs_rx item (k.queues i), wakeRx_fst]
      simp only [Kernel.setQueue, Function.update_self]
  | recv =>
      rw [complete, waiting, ← dequeueCs_tx (k.queues i), wakeTx_fst]
      simp only [Kernel.setQueue, Function.update_self]

/-- The FIFO of a queue that the operation may take a task from. -/
def fifo (i : ℕ) : QueueOp → WaitQ
  | .send _ => .rx i
  | .recv => .tx i

/-- Nothing but the queue and the woken task changes. -/
theorem complete_effect (sz : Sizing) (i : ℕ) (k : Kernel) (op : QueueOp) :
    WakesAtMost sz (op.fifo i) (op.complete sz i k).woken k (op.complete sz i k).k := by
  cases op with
  | send item => exact enqueueCs_quiet.wakesAtMost wakeRx_effect
  | recv => exact dequeueCs_quiet.wakesAtMost wakeTx_effect

/-- **The woken task, and no other, becomes ready.** -/
theorem complete_stateOf (sz : Sizing) (i : ℕ) (k : Kernel) (op : QueueOp) (j : ℕ) :
    (op.complete sz i k).k.stateOf j =
      if (op.complete sz i k).woken = some j then .ready else k.stateOf j := by
  rcases op.complete_effect sz i k with ⟨hnone, hq⟩ | ⟨id, hsome, hw⟩
  · rw [hnone, hq.same.stateOf]
    rfl
  · rw [hsome, hw.stateOf]
    simp only [Option.some.injEq, eq_comm]

/-- The critical section itself makes no request. -/
theorem complete_pend (sz : Sizing) (i : ℕ) (k : Kernel) (op : QueueOp) :
    (op.complete sz i k).k.pend = k.pend := by
  rcases op.complete_effect sz i k with ⟨-, hq⟩ | ⟨id, -, k₁, hs, -, -, heq⟩
  · exact hq.same.pend
  · rw [heq, hrtMakeReady_pend, hs.pend]

/-- **The request**, on top of one that may be pending already. -/
theorem returned_pend (h : op.Possible (k.queues i)) (p : QueuePath) :
    (op.returned sz port i t k p).pend =
      (k.pend || (decide (p ≠ .recheck) && (wqPop sz (op.waiting (k.queues i))).1.isSome)) := by
  rw [returned_eq h, ← complete_woken]
  have hpend := op.complete_pend sz i k
  cases p with
  | tryCall =>
      cases hw : (op.complete sz i k).woken <;> simp [yieldIfWoken, hpend, Kernel.hrtPendContextSwitch]
  | fromIsr =>
      cases hw : (op.complete sz i k).woken <;> simp [pendIfWoken, hpend, Kernel.hrtPendContextSwitch]
  | recheck => simp [hpend]

/-- What follows the critical section leaves the queues alone. -/
theorem returned_queues (h : op.Possible (k.queues i)) (p : QueuePath) :
    (op.returned sz port i t k p).queues = (op.complete sz i k).k.queues := by
  rw [returned_eq h]
  cases p with
  | tryCall =>
      simp only [yieldIfWoken]
      split_ifs
      · exact (hrtYieldBody_objects sz t _).queues
      · rfl
  | fromIsr =>
      simp only [pendIfWoken]
      split_ifs <;> rfl
  | recheck => rfl

end Paths

end QueueOp

/-! ## The result -/

/-- **All ways of completing a queue operation agree.** Whenever a send has room or a receive an item,
each of the three paths completes it with code 0 and leaves the same kernel at the end of its critical
section: the same queue, and the same waiter ready, namely the one at the head of the wait FIFO, and
nobody else. What comes after leaves the queues alone, and a switch is requested exactly if a waiter was
woken: always on the first two paths, on the re-check exactly if nobody was parked. -/
theorem queue_paths_agree (sz : Sizing) (port : Port) (i t : ℕ) (k : Kernel) (op : QueueOp)
    (h : op.Possible (k.queues i)) :
    ∃ c : Completion, c.code = 0 ∧ c.woken = (wqPop sz (op.waiting (k.queues i))).1 ∧
      (∀ j, c.k.stateOf j = if c.woken = some j then .ready else k.stateOf j) ∧
      ∀ p, op.critical sz i t k p = some c ∧
        (op.returned sz port i t k p).queues = c.k.queues ∧
        ((p = .recheck → (op.waiting (k.queues i)).count = 0) ↔
          (RequestsSwitch (fun k => op.returned sz port i t k p) k ↔ c.woken.isSome)) := by
  refine ⟨op.complete sz i k, ?_, op.complete_woken sz i k, op.complete_stateOf sz i k,
    fun p => ⟨op.critical_eq h p, op.returned_queues h p, ?_⟩⟩
  · cases op <;> rfl
  · -- from a clear bit, a bit that is set is a request made by the path itself
    have hpend : (op.returned sz port i t { k with pend := false } p).pend = _ :=
      op.returned_pend (k := { k with pend := false }) h p
    rw [RequestsSwitch, hpend, op.complete_woken]
    by_cases hp : p = .recheck
    · -- somebody is woken exactly if somebody is parked
      have hwoken : (wqPop sz (op.waiting (k.queues i))).1 = none ↔
          (op.waiting (k.queues i)).count = 0 := by
        rw [wqPop, RingBuffer.pop]
        split_ifs with hcount <;> simp [hcount]
      simp [hp, ← hwoken]
    · simp [hp]

/-- Task 0 fills a queue of one item and finds it full on its next send; an ISR takes the item out; task
1, of higher priority, finds the queue empty and is parked. Task 0 is about to re-check. -/
def lateSpaceRun : List Interleave.Action :=
  [.main (.createTask ⟨1, 0, 0x1000, 64, some ⟨1, 0⟩⟩),
    .main (.createTask ⟨1, 0, 0x2000, 64, some ⟨0, 0⟩⟩),
    .task 0 (.queueSend 0 [1]), .task 0 (.queueSend 0 [2]), .isr (.queueTryRecv 0),
    .task 1 (.queueRecv 0), .task 1 (.queueRecv 0)]

/-- In that state, all three critical sections would wake task 1. -/
theorem queue_paths_agree_lateSpace :
    ∃ s c, exec (Interleave.step .default .posix) (Sys.boot .default .posix none .basic .bss)
        lateSpaceRun = some s ∧ c.woken = some 1 ∧
      ∀ p, (QueueOp.send [2]).critical .default 0 0 s.k p = some c := by
  have heval : ((exec (Interleave.step .default .posix) (Sys.boot .default .posix none .basic .bss)
      lateSpaceRun).map fun s => (decide ((QueueOp.send [2]).Possible (s.k.queues 0)),
        (wqPop .default ((QueueOp.send [2]).waiting (s.k.queues 0))).1)) = some (true, some 1) := by
    decide +kernel
  obtain ⟨s, hs, hv⟩ := Option.map_eq_some_iff.mp heval
  obtain ⟨hpos, hpop⟩ : (QueueOp.send [2]).Possible (s.k.queues 0) ∧
      (wqPop .default ((QueueOp.send [2]).waiting (s.k.queues 0))).1 = some 1 := by
    simpa only [Prod.mk.injEq, decide_eq_true_eq] using hv
  obtain ⟨c, -, hwoken, -, hpaths⟩ := queue_paths_agree .default .posix 0 0 s.k (.send [2]) hpos
  exact ⟨s, c, hs, hwoken.trans hpop, fun p => (hpaths p).1⟩

/-- **The re-check wakes a task and requests nothing.** After `lateSpaceRun`, a send by either of the
other functions would wake task 1 and request a switch; the re-check of `hrt_queue_send` wakes it and
returns. -/
theorem recheck_requests_nothing :
    ∃ s, exec (Interleave.step .default .posix) (Sys.boot .default .posix none .basic .bss)
        lateSpaceRun = some s ∧ s.conts 0 = .queueSend 0 [2] ∧
      (QueueOp.send [2]).Possible (s.k.queues 0) ∧
      ((QueueOp.send [2]).critical .default 0 0 s.k .recheck).map Completion.woken = some (some 1) ∧
      RequestsSwitch (fun k => (QueueOp.send [2]).returned .default .posix 0 0 k .tryCall) s.k ∧
      RequestsSwitch (fun k => (QueueOp.send [2]).returned .default .posix 0 0 k .fromIsr) s.k ∧
      ¬ RequestsSwitch (fun k => (QueueOp.send [2]).returned .default .posix 0 0 k .recheck) s.k := by
  have heval : ((exec (Interleave.step .default .posix) (Sys.boot .default .posix none .basic .bss)
      lateSpaceRun).map fun s => decide (s.conts 0 = .queueSend 0 [2] ∧
        (QueueOp.send [2]).Possible (s.k.queues 0) ∧
        ((QueueOp.send [2]).critical .default 0 0 s.k .recheck).map Completion.woken = some (some 1) ∧
        RequestsSwitch (fun k => (QueueOp.send [2]).returned .default .posix 0 0 k .tryCall) s.k ∧
        RequestsSwitch (fun k => (QueueOp.send [2]).returned .default .posix 0 0 k .fromIsr) s.k ∧
        ¬ RequestsSwitch (fun k => (QueueOp.send [2]).returned .default .posix 0 0 k .recheck) s.k)) =
      some true := by
    decide +kernel
  obtain ⟨s, hs, hv⟩ := Option.map_eq_some_iff.mp heval
  exact ⟨s, hs, of_decide_eq_true hv⟩

end HardRT
