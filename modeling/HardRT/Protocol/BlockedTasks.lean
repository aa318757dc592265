import HardRT.System.Partition

/-! # Where blocked tasks are

Over every run of the kernel (creation, deletion, sleeping, yielding, ticks, policy changes, all
semaphore, mutex and queue operations, and re-initialisation of objects nobody waits on), the blocked
tasks are exactly the tasks in the wait FIFOs, each in one place. Hence a push to a wait FIFO is never
dropped, and a waking operation always wakes a blocked task.

* `App.step` — the interleaving machine together with object initialisation.
* `blocked_iff_waiting` — the partition, in every reachable state. -/

namespace HardRT

open Lib

/-! ## Initialising objects at run time -/

/-- An object initialisation. -/
inductive ObjInit
  /-- `hrt_sem_init` or `hrt_sem_init_counting`. -/
  | sem (i : ℕ) (spec : SemSpec)
  /-- `hrt_mutex_init`. -/
  | mutex (i : ℕ)
  /-- `hrt_queue_init`. -/
  | queue (i : ℕ) (spec : QueueSpec)

namespace ObjInit

/-- Run the initialiser. -/
def apply (k : Kernel) : ObjInit → Kernel
  | .sem i spec => k.setSem i (spec.apply (k.sems i))
  | .mutex i => k.setMutex i (hrtMutexInit (k.mutexes i))
  | .queue i spec => k.setQueue i (hrtQueueInit spec.capacity spec.itemSize (k.queues i))

/-- Nobody waits on the object. -/
def Unwaited (k : Kernel) : ObjInit → Prop
  | .sem i _ => (k.sems i).waitq.count = 0
  | .mutex i => (k.mutexes i).waitq.count = 0
  | .queue i _ => (k.queues i).rx.count = 0 ∧ (k.queues i).tx.count = 0

instance (k : Kernel) : (o : ObjInit) → Decidable (o.Unwaited k)
  | .sem i _ => inferInstanceAs (Decidable ((k.sems i).waitq.count = 0))
  | .mutex i => inferInstanceAs (Decidable ((k.mutexes i).waitq.count = 0))
  | .queue i _ =>
      inferInstanceAs (Decidable ((k.queues i).rx.count = 0 ∧ (k.queues i).tx.count = 0))

/-- An initialiser touches nothing the scheduler reads. -/
theorem apply_same (k : Kernel) (o : ObjInit) : SameSched k (o.apply k) := by
  cases o <;> exact ⟨rfl, rfl, rfl, rfl, rfl, rfl, rfl⟩

/-- The FIFOs after an initialisation: unchanged, or empty before and after. -/
theorem ring_apply (k : Kernel) {o : ObjInit} (h : o.Unwaited k) (w : WaitQ) :
    (o.apply k).ring w = k.ring w ∨
    ((k.ring w).count = 0 ∧ ∃ buf, (o.apply k).ring w = ⟨buf, 0, 0, 0⟩) := by
  cases o with
  | sem i spec =>
      simp only [apply, Kernel.ring_setSem]
      by_cases hw : w = .sem i
      · subst hw
        refine Or.inr ⟨h, ?_⟩
        rw [Function.update_self]
        cases spec <;> exact ⟨_, rfl⟩
      · exact Or.inl (Function.update_of_ne hw _ _)
  | mutex i =>
      simp only [apply, Kernel.ring_setMutex]
      by_cases hw : w = .mutex i
      · subst hw
        refine Or.inr ⟨h, ?_⟩
        rw [Function.update_self]
        exact ⟨_, rfl⟩
      · exact Or.inl (Function.update_of_ne hw _ _)
  | queue i spec =>
      simp only [apply, Kernel.ring_setQueue]
      by_cases htx : w = .tx i
      · subst htx
        refine Or.inr ⟨h.2, ?_⟩
        rw [Function.update_self]
        exact ⟨_, rfl⟩
      · rw [Function.update_of_ne htx]
        by_cases hrx : w = .rx i
        · subst hrx
          refine Or.inr ⟨h.1, ?_⟩
          rw [Function.update_self]
          exact ⟨_, rfl⟩
        · exact Or.inl (Function.update_of_ne hrx _ _)

end ObjInit

/-- Initialising an object nobody waits on keeps the partition. -/
theorem PartInv.init {sz : Sizing} {s : Sys} (h : PartInv sz s) {o : ObjInit}
    (ho : o.Unwaited s.k) : PartInv sz { s with k := o.apply s.k } := by
  have hst : ∀ j, (o.apply s.k).stateOf j = s.k.stateOf j := (o.apply_same s.k).stateOf
  have hwait : (o.apply s.k).waiters sz = s.k.waiters sz := by
    funext w
    rcases o.ring_apply s.k ho w with heq | ⟨hc, buf, heq⟩
    · rw [Kernel.waiters, heq]
      rfl
    · rw [Kernel.waiters, heq, Kernel.waiters, RingBuffer.toList_eq_nil_iff.mpr hc]
      exact RingBuffer.toList_zero _ _ _ _
  refine ⟨⟨fun w => ?_, ?_, fun j hj => h.part.lt j (hst j ▸ hj)⟩, h.lt, fun t ht => ?_⟩
  · rcases o.ring_apply s.k ho w with heq | ⟨-, buf, heq⟩
    · rw [heq]
      exact h.part.wf w
    · rw [heq]
      exact RingBuffer.WF.zero sz.maxTasks_pos buf
  · rw [hwait]
    exact h.part.part.congr fun j => by rw [hst]
  · rw [hst]
    exact h.recheck t ht

namespace App

/-- What can happen next in an application. -/
inductive Action
  /-- A step of the interleaving machine. -/
  | run (a : Interleave.Action)
  /-- An object is initialised. -/
  | init (o : ObjInit)

/-- **The interleaving machine with object initialisation.** An object is not re-initialised while
tasks wait on it. -/
def step (sz : Sizing) (port : Port) (s : Sys) : Action → Option Sys
  | .run a => Interleave.step sz port s a
  | .init o => if o.Unwaited s.k then some { s with k := o.apply s.k } else none

/-- Every step keeps the partition. -/
theorem step_partInv {sz : Sizing} (hr : sz.Representable) {port : Port} {s s' : Sys} {a : Action}
    (h : PartInv sz s) (hstep : step sz port s a = some s') : PartInv sz s' := by
  cases a with
  | run a => exact h.step hr hstep
  | init o =>
      simp only [step] at hstep
      split at hstep
      · obtain rfl := Option.some.inj hstep
        exact h.init ‹_›
      · exact absurd hstep (by simp)

end App

/-! ## The result -/

/-- Some critical section, run in the state `k`, passes `id` to `hrt__make_ready`. -/
inductive WokenBy (sz : Sizing) (k : Kernel) (id : ℕ) : Prop
  /-- `hrt_sem_give`, `hrt_sem_give_from_isr`. -/
  | give {i : ℕ} (h : (giveCommonCs sz i k).1 = some id)
  /-- `hrt_mutex_unlock`. -/
  | unlock {i me : ℕ} (h : (hrtMutexUnlockCs sz i me k).1 = .handoff id)
  /-- `hrt_queue_try_send`. -/
  | trySend {q : ℕ} {item : List UInt8} (h : (hrtQueueTrySendCs sz q item k).2.1 = some id)
  /-- `hrt_queue_try_send_from_isr`. -/
  | trySendFromIsr {q : ℕ} {item : List UInt8}
      (h : (hrtQueueTrySendFromIsrCs sz q item k).2.1 = some id)
  /-- The re-check of `hrt_queue_send`. -/
  | send {q me : ℕ} {item : List UInt8} {code : ℤ} {bytes : List UInt8}
      (h : (hrtQueueSendCs sz q me item k).1 = .done code bytes (some id))
  /-- `hrt_queue_try_recv`. -/
  | tryRecv {q : ℕ} (h : (hrtQueueTryRecvCs sz q k).2.2.1 = some id)
  /-- `hrt_queue_try_recv_from_isr`. -/
  | tryRecvFromIsr {q : ℕ} (h : (hrtQueueTryRecvFromIsrCs sz q k).2.2.1 = some id)
  /-- The re-check of `hrt_queue_recv`. -/
  | recv {q me : ℕ} {code : ℤ} {bytes : List UInt8}
      (h : (hrtQueueRecvCs sz q me k).1 = .done code bytes (some id))

/-- An operation that reports a woken task woke the head of its FIFO. -/
theorem WakesAtMost.wakes {sz : Sizing} {w : WaitQ} {k k' : Kernel} {woken : Option ℕ} {id : ℕ}
    (h : WakesAtMost sz w woken k k') (hid : woken = some id) : Wakes sz w id k k' := by
  rcases h with ⟨hn, -⟩ | ⟨j, hj, hw⟩
  · exact absurd (hn.symm.trans hid) (by simp)
  · exact Option.some.inj (hj.symm.trans hid) ▸ hw

/-- Every such task is the head of a wait FIFO. -/
theorem WokenBy.wakes {sz : Sizing} {k : Kernel} {id : ℕ} (h : WokenBy sz k id) :
    ∃ w k', Wakes sz w id k k' := by
  cases h with
  | give h => exact ⟨_, _, WakesAtMost.wakes (giveCommonCs_effect _ _ _) h⟩
  | unlock h =>
      rcases hrtMutexUnlockCs_effect _ _ _ _ with ⟨hn, -⟩ | ⟨j, hj, hw⟩
      · exact absurd h (hn id)
      · obtain rfl : j = id := by
          rw [hj] at h
          exact UnlockOutcome.handoff.inj h
        exact ⟨_, _, hw⟩
  | trySend h => exact ⟨_, _, (hrtQueueTrySendCs_effect _ _ _ _).wakes h⟩
  | trySendFromIsr h => exact ⟨_, _, (hrtQueueTrySendCs_effect _ _ _ _).wakes h⟩
  | send h =>
      rcases hrtQueueSendCs_effect _ _ _ _ _ with ⟨-, code, bytes, woken, h1, hw⟩ | ⟨-, h1, -⟩
      · rw [h1] at h
        exact ⟨_, _, hw.wakes (QueueOutcome.done.inj h).2.2⟩
      · rw [h1] at h
        exact absurd h (by simp)
  | tryRecv h => exact ⟨_, _, (hrtQueueTryRecvCs_effect _ _ _).wakes h⟩
  | tryRecvFromIsr h => exact ⟨_, _, (hrtQueueTryRecvCs_effect _ _ _).wakes h⟩
  | recv h =>
      rcases hrtQueueRecvCs_effect _ _ _ _ with ⟨-, code, bytes, woken, h1, hw⟩ | ⟨-, h1, -⟩
      · rw [h1] at h
        exact ⟨_, _, hw.wakes (QueueOutcome.done.inj h).2.2⟩
      · rw [h1] at h
        exact absurd h (by simp)

/-- **Blocked tasks are exactly the waiting ones.** In every reachable state a task is blocked if and
only if it is in some wait FIFO, and it is then in exactly one and exactly once. A task about to park
finds room in every FIFO, so that the push appends its id. Every task a give, unlock, send or receive
passes to `hrt__make_ready` is blocked. -/
theorem blocked_iff_waiting {sz : Sizing} (hr : sz.Representable) {port : Port}
    {cfg : Option KernelConfig} {objs : ObjectSpecs} {mem : Kernel} {as : List App.Action} {s : Sys}
    (hrun : exec (App.step sz port) (Sys.boot sz port cfg objs mem) as = some s) :
    (∀ id, s.k.stateOf id = .blocked ↔ ∃ w, id ∈ s.k.waiters sz w) ∧
    (∀ id w, id ∈ s.k.waiters sz w →
      (s.k.waiters sz w).count id = 1 ∧ ∀ w', id ∈ s.k.waiters sz w' → w' = w) ∧
    (∀ t w, (s.conts t).parksIn t s.k →
      (s.k.ring w).count < sz.maxTasks ∧
      ((s.k.ring w).push 256 sz.maxTasks (t % 256)).toList sz.maxTasks = s.k.waiters sz w ++ [t]) ∧
    (∀ id, WokenBy sz s.k id → s.k.stateOf id = .blocked) := by
  have hinv : PartInv sz s :=
    exec_invariant' (fun s a s' h hs => App.step_partInv hr h hs)
      (PartInv.boot sz port cfg objs mem) hrun
  have hpart := hinv.part.part
  refine ⟨hpart.mem_iff, fun id w hid => ⟨?_, fun w' hw' => hpart.unique hw' hid⟩,
    fun t w hp => ?_, fun id hid => ?_⟩
  · exact List.count_eq_one_of_mem (hpart.nodup w) hid
  · have hpark := hinv.parkable t (Cont.rechecks_of_parksIn hp)
    exact ⟨hpark.room w, hpark.toList_push hr (hinv.part.wf w)⟩
  · obtain ⟨w, k', hw⟩ := hid.wakes
    exact hinv.part.blocked_of_wakes hr hw

/-- A task created before the start takes an empty semaphore and is parked on it. -/
def parkRun : List App.Action :=
  [.run (.main (.createTask ⟨1, 0, 0x20000000, 64, none⟩)), .run (.task 0 (.semTake 0)),
    .run (.task 0 .yield)]

/-- The partition at the end of `parkRun`: task 0 is blocked and waits on semaphore 0 only. -/
theorem blocked_iff_waiting_parked :
    ∃ s, exec (App.step .default .posix)
        (Sys.boot .default .posix none .basic .bss) parkRun = some s ∧
      s.k.stateOf 0 = .blocked ∧ (∃ w, 0 ∈ s.k.waiters .default w) := by
  have hsome : (exec (App.step .default .posix)
      (Sys.boot .default .posix none .basic .bss) parkRun).isSome = true := by decide +kernel
  obtain ⟨s, hs⟩ := Option.isSome_iff_exists.mp hsome
  have hst : ((exec (App.step .default .posix)
      (Sys.boot .default .posix none .basic .bss) parkRun).map fun s => s.k.stateOf 0) =
      some .blocked := by decide +kernel
  have hb : s.k.stateOf 0 = .blocked := by
    rw [hs] at hst
    exact Option.some.inj hst
  exact ⟨s, hs, hb, ((blocked_iff_waiting (by decide) hs).1 0).mp hb⟩

end HardRT
