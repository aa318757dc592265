import HardRT.Spec.Machine
import HardRT.Spec.Refinement

/-! # The runs of the ports are the runs of the specification

The machines of the ports have the runs of those of the specification, action by action and event by
event, whatever was in memory before boot.

* `Outcome.Refines`, `Refines.nextAction`, `Refines.isrAction` — the actions of tasks and ISRs agree.
* `runs_are_specified` — the runs of either port, read through the abstraction, are the runs of the
  specification.
* `runs_ignore_old_memory` — what a run does depends on no cell that was not initialised. -/

namespace HardRT

open Lib

/-! ## Actions -/

/-- The results of an action of the code and of the specification agree. -/
structure Outcome.Refines (sz : Sizing) (o : Outcome) (o' : Spec.Outcome) : Prop where
  kernel : HardRT.Refines sz o.k o'.k
  cont : o.cont = o'.cont
  evs : o.evs = o'.evs
  spawn : o.spawn = o'.spawn

namespace Refines

variable {sz : Sizing} {k : Kernel} {a : Spec.Kernel} {t : ℕ}

/-- The item size on the other side. -/
theorem itemSize (h : Refines sz k a) (q : ℕ) : (a.queues q).itemSize = (k.queues q).itemSize := by
  rw [h.queue]
  rfl

/-- The events of a give. -/
theorem giveEvents (h : Refines sz k a) (i : ℕ) (w : Option ℕ) :
    HardRT.giveEvents i w (k.sems i) = Spec.giveEvents i w (a.sems i) := by
  rw [h.sem]
  rfl

/-- `hrt_queue_send` tries. -/
theorem sendAttempt (h : Refines sz k a) (hr : sz.Representable) (t q : ℕ) (item : List UInt8) :
    (HardRT.sendAttempt sz t q item k).Refines sz (Spec.sendAttempt sz t q item a) := by
  unfold HardRT.sendAttempt Spec.sendAttempt Spec.sendOr
  rw [h.itemSize]
  rcases h.trySend hr q item with ⟨hfull, hspec⟩ | ⟨w, k', a', hlt, hwake, hspec, href⟩
  · rw [hspec, hrtQueueTrySendCs_of_full hfull]
    exact ⟨h, rfl, rfl, rfl⟩
  · rw [hspec, hrtQueueTrySendCs_of_lt hlt, hwake]
    cases w with
    | none => exact ⟨href, rfl, rfl, rfl⟩
    | some w => exact ⟨href, rfl, rfl, rfl⟩

/-- `hrt_queue_recv` tries. -/
theorem recvAttempt (h : Refines sz k a) (hr : sz.Representable) (t q : ℕ) :
    (HardRT.recvAttempt sz t q k).Refines sz (Spec.recvAttempt sz t q a) := by
  unfold HardRT.recvAttempt Spec.recvAttempt Spec.recvOr
  rcases h.tryRecv hr q with ⟨hempty, hspec⟩ | ⟨bytes, w, k', a', hne, hbytes, hwake, hspec, href⟩
  · rw [hspec, hrtQueueTryRecvCs_of_empty hempty]
    exact ⟨h, rfl, rfl, rfl⟩
  · rw [hspec, hrtQueueTryRecvCs_of_pos hne, hbytes, hwake]
    cases w with
    | none => exact ⟨href, rfl, rfl, rfl⟩
    | some w => exact ⟨href, rfl, rfl, rfl⟩

/-- **The first action of a call.** -/
theorem issue (h : Refines sz k a) (hr : sz.Representable) (port : Port) (ht : t < sz.maxTasks)
    (c : Call) : (HardRT.issue sz port t k c).Refines sz (Spec.issue sz port t a c) := by
  cases c with
  | createTask args =>
      obtain ⟨hid, href⟩ := h.createTask hr port args
      exact ⟨href, rfl, by simp [HardRT.issue, Spec.issue, Spec.returns, hid], hid⟩
  | yield => exact ⟨h.yield hr ht, rfl, rfl, rfl⟩
  | sleep ms => exact ⟨h.sleep t ms, rfl, rfl, rfl⟩
  | taskDelete =>
      simp only [HardRT.issue, Spec.issue]
      split
      · exact ⟨h, rfl, rfl, rfl⟩
      · exact ⟨h.setState t .unused, rfl, rfl, rfl⟩
  | setPolicy p =>
      obtain ⟨hs, rfl⟩ := h
      exact ⟨⟨⟨hs.ready, hs.sems, hs.mutexes, hs.queues, hs.current⟩, rfl⟩, rfl, rfl, rfl⟩
  | setDefaultTimeslice n =>
      obtain ⟨hs, rfl⟩ := h
      exact ⟨⟨⟨hs.ready, hs.sems, hs.mutexes, hs.queues, hs.current⟩, rfl⟩, rfl, rfl, rfl⟩
  | semTryTake i =>
      simp only [HardRT.issue, Spec.issue]
      rcases h.semTryTake i with ⟨h0, hspec⟩ | ⟨a', hne, hspec, href⟩
      · rw [hspec, hrtSemTryTake, if_neg (not_not.mpr h0)]
        exact ⟨h, rfl, rfl, rfl⟩
      · rw [hspec, hrtSemTryTake, if_pos hne]
        exact ⟨href, rfl, rfl, rfl⟩
  | semTake i =>
      simp only [HardRT.issue, Spec.issue]
      rcases h.semTryTake i with ⟨h0, hspec⟩ | ⟨a', hne, hspec, href⟩
      · rw [hspec, hrtSemTryTake, if_neg (not_not.mpr h0)]
        exact ⟨h, rfl, rfl, rfl⟩
      · rw [hspec, hrtSemTryTake, if_pos hne]
        exact ⟨href, rfl, rfl, rfl⟩
  | semGive i =>
      obtain ⟨hw, href⟩ := h.semGive hr i
      simp only [HardRT.issue, Spec.issue]
      rw [← hw]
      cases hwk : (giveCommonCs sz i k).1 with
      | none => exact ⟨href, rfl, congrArg (· ++ _) (h.giveEvents i none), rfl⟩
      | some w => exact ⟨href, rfl, h.giveEvents i (some w), rfl⟩
  | mutexTryLock i =>
      obtain ⟨hcode, href⟩ := h.mutexTryLock ht i
      simp only [HardRT.issue, Spec.issue]
      rw [hcode]
      cases (Spec.mutexTryLock i t a).1 with
      | true => exact ⟨href, rfl, rfl, rfl⟩
      | false => exact ⟨href, rfl, rfl, rfl⟩
  | mutexLock i =>
      obtain ⟨hcode, href⟩ := h.mutexTryLock ht i
      simp only [HardRT.issue, Spec.issue]
      rw [if_neg (Nat.not_le.mpr ht), hcode]
      cases (Spec.mutexTryLock i t a).1 with
      | true => exact ⟨href, rfl, rfl, rfl⟩
      | false => exact ⟨href, rfl, rfl, rfl⟩
  | mutexUnlock i =>
      obtain ⟨hout, href⟩ := h.mutexUnlock hr ht i
      simp only [HardRT.issue, Spec.issue]
      rw [hout]
      cases (Spec.mutexUnlock sz i t a).1 with
      | refused => exact ⟨href, rfl, rfl, rfl⟩
      | handoff w => exact ⟨href, rfl, rfl, rfl⟩
      | released => exact ⟨href, rfl, rfl, rfl⟩
  | queueTrySend q item =>
      simp only [HardRT.issue, Spec.issue, Spec.sendOr]
      rw [h.itemSize]
      rcases h.trySend hr q item with ⟨hfull, hspec⟩ | ⟨w, k', a', hlt, hwake, hspec, href⟩
      · rw [hspec, hrtQueueTrySendCs_of_full hfull]
        exact ⟨h, rfl, rfl, rfl⟩
      · rw [hspec, hrtQueueTrySendCs_of_lt hlt, hwake]
        cases w with
        | none => exact ⟨href, rfl, rfl, rfl⟩
        | some w => exact ⟨href, rfl, rfl, rfl⟩
  | queueSend q item => exact h.sendAttempt hr t q item
  | queueTryRecv q =>
      simp only [HardRT.issue, Spec.issue, Spec.recvOr]
      rcases h.tryRecv hr q with ⟨hempty, hspec⟩ | ⟨bytes, w, k', a', hne, hbytes, hwake, hspec, href⟩
      · rw [hspec, hrtQueueTryRecvCs_of_empty hempty]
        exact ⟨h, rfl, rfl, rfl⟩
      · rw [hspec, hrtQueueTryRecvCs_of_pos hne, hbytes, hwake]
        cases w with
        | none => exact ⟨href, rfl, rfl, rfl⟩
        | some w => exact ⟨href, rfl, rfl, rfl⟩
  | queueRecv q => exact h.recvAttempt hr t q

/-- The second critical section of `hrt_sem_take`. -/
theorem semTakeAction (h : Refines sz k a) (hr : sz.Representable) (ht : t < sz.maxTasks) (i : ℕ) :
    (HardRT.semTakeAction sz t i k).Refines sz (Spec.semTakeAction sz t i a) := by
  unfold HardRT.semTakeAction Spec.semTakeAction hrtSemTakeCs
  rcases h.semTryTake i with ⟨h0, hspec⟩ | ⟨a', hne, hspec, href⟩
  · rw [hspec, if_neg (not_not.mpr h0)]
    exact ⟨h.semPark hr ht i, rfl, rfl, rfl⟩
  · rw [hspec, if_pos hne]
    exact ⟨href, rfl, rfl, rfl⟩

/-- The second critical section of `hrt_mutex_lock`. -/
theorem mutexLockAction (h : Refines sz k a) (hr : sz.Representable) (ht : t < sz.maxTasks) (i : ℕ) :
    (HardRT.mutexLockAction sz t i k).Refines sz (Spec.mutexLockAction sz t i a) := by
  obtain ⟨hout, href⟩ := h.mutexLock hr ht i
  unfold HardRT.mutexLockAction Spec.mutexLockAction
  simp only
  rw [hout]
  cases (Spec.mutexLock sz i t a).1 with
  | acquired => exact ⟨href, rfl, rfl, rfl⟩
  | recursive => exact ⟨href, rfl, rfl, rfl⟩
  | parked => exact ⟨href, rfl, rfl, rfl⟩

/-- The second critical section of `hrt_queue_send`. -/
theorem queueSendAction (h : Refines sz k a) (hr : sz.Representable) (ht : t < sz.maxTasks) (q : ℕ)
    (item : List UInt8) :
    (HardRT.queueSendAction sz t q item k).Refines sz (Spec.queueSendAction sz t q item a) := by
  unfold HardRT.queueSendAction Spec.queueSendAction
  rw [h.itemSize]
  rcases h.trySend hr q item with ⟨hfull, hspec⟩ | ⟨w, k', a', hlt, hwake, hspec, href⟩
  · rw [hspec, hrtQueueSendCs, if_neg (Nat.not_lt.mpr hfull)]
    exact ⟨h.parkTx hr ht q, rfl, rfl, rfl⟩
  · rw [hspec, hrtQueueSendCs_of_lt hlt, hwake]
    exact ⟨href, rfl, rfl, rfl⟩

/-- The second critical section of `hrt_queue_recv`. -/
theorem queueRecvAction (h : Refines sz k a) (hr : sz.Representable) (ht : t < sz.maxTasks) (q : ℕ) :
    (HardRT.queueRecvAction sz t q k).Refines sz (Spec.queueRecvAction sz t q a) := by
  unfold HardRT.queueRecvAction Spec.queueRecvAction
  rcases h.tryRecv hr q with ⟨hempty, hspec⟩ | ⟨bytes, w, k', a', hne, hbytes, hwake, hspec, href⟩
  · rw [hspec, hrtQueueRecvCs, if_neg (not_not.mpr hempty)]
    exact ⟨h.parkRx hr ht q, rfl, rfl, rfl⟩
  · rw [hspec, hrtQueueRecvCs_of_pos hne, hbytes, hwake]
    exact ⟨href, rfl, rfl, rfl⟩

/-- **Any action of a task**: both sides have one or neither has, and the results agree. -/
theorem nextAction (h : Refines sz k a) (hr : sz.Representable) (port : Port) (ht : t < sz.maxTasks)
    (c : Call) (cont : Cont) :
    (HardRT.nextAction sz port t c k cont = none ∧ Spec.nextAction sz port t c a cont = none) ∨
    ∃ o o', HardRT.nextAction sz port t c k cont = some o ∧
      Spec.nextAction sz port t c a cont = some o' ∧ o.Refines sz o' := by
  cases cont with
  | none => exact Or.inl ⟨rfl, rfl⟩
  | user =>
      have hissue := h.issue hr port ht c
      exact Or.inr ⟨_, _, rfl, rfl, hissue.kernel, hissue.cont, congrArg _ hissue.evs, hissue.spawn⟩
  | yield x => exact Or.inr ⟨_, _, rfl, rfl, h.yield hr ht, rfl, rfl, rfl⟩
  | pend x => exact Or.inr ⟨_, _, rfl, rfl, h.hrtPendContextSwitch, rfl, rfl, rfl⟩
  | hop x => exact Or.inl ⟨rfl, rfl⟩
  | resumed x =>
      refine Or.inr ⟨_, _, rfl, rfl, ?_⟩
      cases x with
      | ret c code => exact ⟨h, rfl, rfl, rfl⟩
      | sendAgain q item => exact h.sendAttempt hr t q item
      | recvAgain q => exact h.recvAttempt hr t q
  | semTake i => exact Or.inr ⟨_, _, rfl, rfl, h.semTakeAction hr ht i⟩
  | mutexLock i => exact Or.inr ⟨_, _, rfl, rfl, h.mutexLockAction hr ht i⟩
  | queueSend q item => exact Or.inr ⟨_, _, rfl, rfl, h.queueSendAction hr ht q item⟩
  | queueRecv q => exact Or.inr ⟨_, _, rfl, rfl, h.queueRecvAction hr ht q⟩

/-- The request after a waking from an ISR. -/
theorem pendIfWoken (h : Refines sz k a) (w : Option ℕ) :
    Refines sz (HardRT.pendIfWoken w k) (Spec.pendIfWoken w a) := by
  unfold HardRT.pendIfWoken Spec.pendIfWoken
  split
  · exact h.hrtPendContextSwitch
  · exact h

/-- **Any operation of an ISR.** -/
theorem isrAction (h : Refines sz k a) (hr : sz.Representable) (op : Isr) :
    Refines sz (HardRT.isrAction sz k op).2.1 (Spec.isrAction sz a op).1 ∧
    (HardRT.isrAction sz k op).2.2 = (Spec.isrAction sz a op).2 := by
  cases op with
  | semGive i =>
      obtain ⟨hw, href⟩ := h.semGive hr i
      simp only [HardRT.isrAction, Spec.isrAction]
      rw [← hw, h.giveEvents]
      exact ⟨href.pendIfWoken _, rfl⟩
  | queueTrySend q item =>
      simp only [HardRT.isrAction, Spec.isrAction]
      rw [h.itemSize, show hrtQueueTrySendFromIsrCs sz q item k = hrtQueueTrySendCs sz q item k from rfl]
      rcases h.trySend hr q item with ⟨hfull, hspec⟩ | ⟨w, k', a', hlt, hwake, hspec, href⟩
      · rw [hspec, hrtQueueTrySendCs_of_full hfull]
        exact ⟨h, rfl⟩
      · rw [hspec, hrtQueueTrySendCs_of_lt hlt, hwake]
        exact ⟨href.pendIfWoken w, rfl⟩
  | queueTryRecv q =>
      simp only [HardRT.isrAction, Spec.isrAction]
      rw [show hrtQueueTryRecvFromIsrCs sz q k = hrtQueueTryRecvCs sz q k from rfl]
      rcases h.tryRecv hr q with ⟨hempty, hspec⟩ | ⟨bytes, w, k', a', hne, hbytes, hwake, hspec, href⟩
      · rw [hspec, hrtQueueTryRecvCs_of_empty hempty]
        exact ⟨h, rfl⟩
      · rw [hspec, hrtQueueTryRecvCs_of_pos hne, hbytes, hwake]
        exact ⟨href.pendIfWoken w, rfl⟩

end Refines

/-! ## Simulation -/

/-- The system a system stands for. -/
def Sys.abs (sz : Sizing) (s : Sys) : Spec.Sys := ⟨s.k.abs sz, s.conts, s.log⟩

/-- **A system stands for one of the specification**, and its kernel is in order. -/
structure Sys.Refines (sz : Sizing) (s : Sys) (s' : Spec.Sys) : Prop where
  kernel : HardRT.Refines sz s.k s'.k
  conts : s.conts = s'.conts
  log : s.log = s'.log

namespace Sys.Refines

variable {sz : Sizing} {s : Sys} {s' : Spec.Sys} {t : ℕ}

/-- It stands for its abstraction. -/
theorem abs_eq (h : s.Refines sz s') : s.abs sz = s' := by
  obtain ⟨⟨-, hk⟩, hc, hl⟩ := h
  unfold Sys.abs
  rw [hk, hc, hl]

/-- The kernel changes on both sides. -/
theorem kernels (h : s.Refines sz s') {k : Kernel} {a : Spec.Kernel} (hk : HardRT.Refines sz k a) :
    Sys.Refines sz { s with k := k } { s' with k := a } := ⟨hk, h.conts, h.log⟩

/-- A task is created in the same slot. -/
theorem spawned (h : s.Refines sz s') (new : Option ℕ) : s.spawned new = s'.spawned new := by
  cases new with
  | none => exact h.conts
  | some id => exact congrArg (Function.update · id _) h.conts

/-- A task acts. -/
theorem task (h : s.Refines sz s') (hr : sz.Representable) (port : Port) (ht : t < sz.maxTasks)
    (c : Call) : Option.Rel (Sys.Refines sz) (s.task sz port t c) (s'.task sz port t c) := by
  unfold Sys.task Spec.Sys.task
  rw [h.conts]
  rcases h.kernel.nextAction hr port ht c (s'.conts t) with ⟨hn, hn'⟩ | ⟨o, o', ho, ho', href⟩
  · rw [hn, hn']
    exact .none
  · rw [ho, ho']
    refine .some ⟨href.kernel, ?_, ?_⟩
    · show Function.update (s.spawned o.spawn) t o.cont = Function.update (s'.spawned o'.spawn) t o'.cont
      rw [href.cont, href.spawn, h.spawned]
    · exact congrArg₂ (· ++ ·) h.log href.evs

/-- A task is back from the scheduler. -/
theorem land (h : s.Refines sz s') (t : ℕ) (x : After) : (s.land t x).Refines sz (s'.land t x) :=
  ⟨h.kernel, congrArg (Function.update · t _) h.conts, h.log⟩

/-- An ISR runs. -/
theorem isr (h : s.Refines sz s') (hr : sz.Representable) (op : Isr) :
    (s.isr sz op).Refines sz (s'.isr sz op) := by
  obtain ⟨hk, hevs⟩ := h.kernel.isrAction hr op
  exact ⟨hk, h.conts, congrArg₂ (· ++ ·) h.log hevs⟩

/-- `main` makes a call. -/
theorem main (h : s.Refines sz s') (hr : sz.Representable) (port : Port) (c : MainCall) :
    (s.main sz port c).Refines sz (s'.main sz port c) := by
  cases c with
  | createTask args =>
      obtain ⟨hid, hk⟩ := h.kernel.createTask hr port args
      refine ⟨hk, ?_, h.log⟩
      show s.spawned _ = s'.spawned _
      rw [hid, h.spawned]
  | setPolicy p =>
      obtain ⟨⟨hs, hk⟩, hc, hl⟩ := h
      refine ⟨⟨⟨hs.ready, hs.sems, hs.mutexes, hs.queues, hs.current⟩, ?_⟩, hc, hl⟩
      exact congrArg (fun a : Spec.Kernel => { a with policy := p }) hk
  | setDefaultTimeslice n =>
      obtain ⟨⟨hs, hk⟩, hc, hl⟩ := h
      refine ⟨⟨⟨hs.ready, hs.sems, hs.mutexes, hs.queues, hs.current⟩, ?_⟩, hc, hl⟩
      exact congrArg (fun a : Spec.Kernel => { a with defaultSlice := n % 65536 }) hk

/-- The request is cleared. -/
theorem clear (h : s.Refines sz s') :
    HardRT.Refines sz { s.k with pend := false } { s'.k with pend := false } := by
  obtain ⟨⟨hs, hk⟩, -, -⟩ := h
  refine ⟨⟨hs.ready, hs.sems, hs.mutexes, hs.queues, hs.current⟩, ?_⟩
  exact congrArg (fun a : Spec.Kernel => { a with pend := false }) hk

/-- **Boot.** -/
theorem boot (sz : Sizing) (port : Port) (cfg : Option KernelConfig) (objs : ObjectSpecs)
    (mem : Kernel) : (Sys.boot sz port cfg objs mem).Refines sz (Spec.Sys.boot sz port cfg objs) := by
  have hsem : ∀ i, ((objs.sem i).apply (mem.sems i)).Sound sz ∧
      ((objs.sem i).apply (mem.sems i)).pool sz = ⟨(objs.sem i).initCount, (objs.sem i).bound, []⟩ := by
    intro i
    obtain ⟨hcount, hmax, hwait⟩ := (objs.sem i).apply_spec (mem.sems i)
    obtain ⟨hpos, hle⟩ := (objs.sem i).bound_le
    refine ⟨⟨⟨?_, hmax ▸ hpos, hmax ▸ hle⟩, ?_⟩, ?_⟩
    · rw [hcount, hmax]
      exact (objs.sem i).initCount_le
    · cases objs.sem i <;> exact IdRing.zero sz _
    · rw [Sem.pool, hcount, hmax, RingBuffer.toList_eq_nil_iff.mpr hwait]
  -- the kernel before the idle slot gets its stack pointer
  have hbase : ∀ (tickHz : ℕ) (policy : Policy) (slice : ℕ), HardRT.Refines sz
      { tcbs := fun _ => { Tcb.zero with state := .unused }
        rq := fun _ => ⟨fun _ => 0, 0, 0, 0⟩
        current := none
        tick := 0
        tickHz := tickHz
        policy := policy
        defaultSlice := slice
        error := .none
        pend := false
        sems := fun i => (objs.sem i).apply (mem.sems i)
        mutexes := fun i => hrtMutexInit (mem.mutexes i)
        queues := fun i =>
          hrtQueueInit (objs.queue i).capacity (objs.queue i).itemSize (mem.queues i) }
      { tcbs := fun _ => { Tcb.zero with state := .unused }
        ready := fun _ => []
        current := none
        tick := 0
        tickHz := tickHz
        policy := policy
        defaultSlice := slice
        error := .none
        pend := false
        sems := fun i => ⟨(objs.sem i).initCount, (objs.sem i).bound, []⟩
        mutexes := fun _ => ⟨none, []⟩
        queues := fun i => ⟨⟨(objs.queue i).capacity, [], [], []⟩, (objs.queue i).itemSize⟩ } := by
    intro tickHz policy slice
    refine ⟨⟨fun _ _ => IdRing.zero sz _, fun i => (hsem i).1,
      fun i => ⟨Or.inl ⟨rfl, rfl⟩, noOwner_lt _, IdRing.zero sz _⟩, fun i => ⟨⟨?_, ?_⟩,
      IdRing.zero sz _, IdRing.zero sz _⟩, fun t ht => absurd ht (by simp)⟩, ?_⟩
    · exact RingBuffer.WF.zero (objs.queue i).capacity_pos _
    · exact Nat.lt_succ_of_le (objs.queue i).capacity_le
    · unfold Kernel.abs
      simp only [(hsem _).2]
      rfl
  refine ⟨?_, rfl, rfl⟩
  unfold Sys.boot Spec.Sys.boot hrtInit
  simp only
  rcases port.initIdleTask with _ | sp
  · cases cfg <;> exact hbase _ _ _
  · by_cases hsp : sp = 0
    · have hset := fun hz p n => (hbase hz p n).setSp sz.idleId sp
      simp only [setSp, Spec.setSp, if_pos hsp] at hset ⊢
      cases cfg <;> exact hset _ _ _
    · have hset := fun hz p n => (hbase hz p n).setSp sz.idleId sp
      simp only [setSp, Spec.setSp, if_neg hsp] at hset ⊢
      cases cfg <;> exact hset _ _ _

end Sys.Refines

section Steps

variable {sz : Sizing}

/-- **A step of the Cortex-M port** is a step of the specification. -/
theorem CortexM.step_refines (hr : sz.Representable) (idleStack : ℕ) (s : Sys) (s' : Spec.Sys)
    (a : CortexM.Action) (h : s.Refines sz s') :
    Option.Rel (Sys.Refines sz) (CortexM.step sz idleStack s a) (Spec.cortexM sz idleStack s' a) := by
  have hcur : s'.k.current = s.k.current := by rw [← h.kernel.abs]; rfl
  have hpend : s'.k.pend = s.k.pend := by rw [← h.kernel.abs]; rfl
  cases a with
  | main c =>
      simp only [CortexM.step, Spec.cortexM]
      rw [hcur, hpend]
      split
      · exact .some (h.main hr _ c)
      · exact .none
  | start =>
      simp only [CortexM.step, Spec.cortexM]
      rw [hcur]
      split
      · exact .some (h.kernels h.kernel.hrtPendContextSwitch)
      · exact .none
  | task c =>
      simp only [CortexM.step, Spec.cortexM]
      rw [hcur, hpend]
      cases hc : s.k.current with
      | none => exact .none
      | some t =>
          have htask := h.task hr (.cortexM idleStack) (h.kernel.sound.current t hc) c
          simp only
          split
          · exact .none
          · rw [← h.conts]
            cases hcont : s.conts t with
            | hop x => exact .some ((h.land t x).kernels h.kernel.hrtPendContextSwitch)
            | _ => exact htask
  | isr op => exact .some (h.isr hr op)
  | tick => exact .some (h.kernels (h.kernel.tickIsr hr))
  | pendsv oldSp =>
      have hguard : (s'.k.pend = true ∧ (oldSp = 0 ↔ s'.k.current = none)) ↔
          s.k.pend = true ∧ (oldSp = 0 ↔ s.k.current = none) := by rw [hcur, hpend]
      unfold CortexM.step Spec.cortexM
      simp only [hguard]
      split
      · exact .some (h.kernels (h.clear.schedule hr oldSp))
      · exact .none

/-- The POSIX port and the specification are at the same place of the loop. -/
def Posix.Refines (sz : Sizing) (s : Posix.State) (s' : Spec.Sys × Posix.Mode) : Prop :=
  s.sys.Refines sz s'.1 ∧ s.mode = s'.2

/-- A turn of the loop. -/
theorem Posix.loopStep_refines (hr : sz.Representable) {s : Posix.State} {s' : Spec.Sys × Posix.Mode}
    (h : Posix.Refines sz s s') :
    Option.Rel (Posix.Refines sz) (Posix.loopStep sz s) (Spec.loopStep sz s') := by
  obtain ⟨s, mode⟩ := s
  obtain ⟨s', mode'⟩ := s'
  obtain ⟨h, rfl⟩ : s.Refines sz s' ∧ mode = mode' := h
  have hpend : s'.k.pend = s.k.pend := by rw [← h.kernel.abs]; rfl
  cases mode with
  | boot => exact .none
  | running => exact .none
  | head =>
      simp only [Posix.loopStep, Spec.loopStep]
      rw [hpend]
      split
      · exact .some ⟨h.kernels h.clear, rfl⟩
      · exact .some ⟨h, rfl⟩
  | cleared =>
      obtain ⟨hid, hk, hlt⟩ := h.kernel.pick hr
      simp only [Posix.loopStep, Spec.loopStep]
      rw [← hid]
      split
      · exact .some ⟨h.kernels hk, rfl⟩
      · refine .some ⟨h.kernels ⟨⟨hk.sound.ready, hk.sound.sems, hk.sound.mutexes, hk.sound.queues,
          fun t ht => Option.some.inj ht ▸ hlt⟩, ?_⟩, rfl⟩
        exact congrArg (fun a : Spec.Kernel => { a with current := some (hrtPickNextReady sz s.k).1 })
          hk.abs

/-- **A step of the POSIX port** is a step of the specification. -/
theorem Posix.step_refines (hr : sz.Representable) (s : Posix.State) (s' : Spec.Sys × Posix.Mode)
    (a : Posix.Action) (h : Posix.Refines sz s s') :
    Option.Rel (Posix.Refines sz) (Posix.step sz s a) (Spec.posix sz s' a) := by
  cases a with
  | loop => exact Posix.loopStep_refines hr h
  | main c =>
      obtain ⟨h, hm⟩ := h
      simp only [Posix.step, Spec.posix]
      rw [← hm]
      split
      · exact .some ⟨h.main hr .posix c, rfl⟩
      · exact .none
  | start =>
      obtain ⟨h, hm⟩ := h
      simp only [Posix.step, Spec.posix]
      rw [← hm]
      split
      · exact .some ⟨h.kernels h.kernel.hrtPendContextSwitch, rfl⟩
      · exact .none
  | task c =>
      obtain ⟨h, hm⟩ := h
      have hcur : s'.1.k.current = s.sys.k.current := by rw [← h.kernel.abs]; rfl
      simp only [Posix.step, Spec.posix]
      rw [← hm, hcur]
      split
      · cases hc : s.sys.k.current with
        | none => exact .none
        | some t =>
            have htask := h.task hr .posix (h.kernel.sound.current t hc) c
            simp only
            rw [← h.conts]
            cases hcont : s.sys.conts t with
            | hop x =>
                simp only
                split
                · exact .some ⟨h.land t x, rfl⟩
                · exact .some ⟨(h.land t x).kernels (h.kernel.schedulerEntry hr), rfl⟩
            | _ =>
                simp only
                generalize s.sys.task sz .posix t c = x at htask
                generalize s'.1.task sz .posix t c = y at htask
                cases htask with
                | none => exact .none
                | some hx => exact .some ⟨hx, rfl⟩
      · exact .none
  | finish =>
      obtain ⟨h, hm⟩ := h
      have hcur : s'.1.k.current = s.sys.k.current := by rw [← h.kernel.abs]; rfl
      simp only [Posix.step, Spec.posix]
      rw [← hm, hcur]
      split
      · cases hc : s.sys.k.current with
        | none => exact .none
        | some t =>
            simp only
            rw [← h.conts, ← h.log, h.kernel.stateOf t]
            split
            · exact .some ⟨(h.land t _).kernels (h.kernel.schedulerEntry hr), rfl⟩
            · exact .none
      · exact .none
  | isr op => exact .some ⟨h.1.isr hr op, h.2⟩
  | tick alarm =>
      obtain ⟨h, hm⟩ := h
      refine .some ⟨h.kernels ?_, hm⟩
      unfold Posix.tickHandler
      split
      · exact (h.kernel.tickIsr hr).hrtPendContextSwitch
      · exact h.kernel.tickIsr hr

end Steps

/-! ## Results -/

section Results

variable {sz : Sizing} (cfg : Option KernelConfig) (objs : ObjectSpecs) (mem : Kernel)

/-- The system and the place of the loop that a state of the POSIX port stands for. -/
def Posix.State.abs (sz : Sizing) (s : Posix.State) : Spec.Sys × Posix.Mode := (s.sys.abs sz, s.mode)

/-- **The kernel implements its specification.** On either port, from whatever memory, a sequence of
actions is a run exactly if it is one of the specification, and then the state it leads to stands for the
one the specification leads to: the same tasks in the same order in every queue, the same tokens, owners
and items, the same continuations and events. All data structures stay in order. -/
theorem runs_are_specified (hr : sz.Representable) :
    (∀ (idleStack : ℕ) (as : List CortexM.Action),
      (exec (CortexM.step sz idleStack) (CortexM.boot sz idleStack cfg objs mem) as).map (Sys.abs sz) =
        exec (Spec.cortexM sz idleStack) (.boot sz (.cortexM idleStack) cfg objs) as ∧
      ∀ s, exec (CortexM.step sz idleStack) (CortexM.boot sz idleStack cfg objs mem) as = some s →
        s.k.Sound sz) ∧
    ∀ as : List Posix.Action,
      (exec (Posix.step sz) (Posix.boot sz cfg objs mem) as).map (Posix.State.abs sz) =
        exec (Spec.posix sz) (.boot sz .posix cfg objs, .boot) as ∧
      ∀ s, exec (Posix.step sz) (Posix.boot sz cfg objs mem) as = some s → s.sys.k.Sound sz := by
  refine ⟨fun idleStack as => ?_, fun as => ?_⟩
  · have hboot := Sys.Refines.boot sz (.cortexM idleStack) cfg objs mem
    refine ⟨exec_map_eq (CortexM.step_refines hr idleStack) (fun s s' h => h.abs_eq) hboot as,
      fun s hs => ?_⟩
    obtain ⟨s', -, h⟩ := exec_rel_left (CortexM.step_refines hr idleStack) hboot hs
    exact h.kernel.sound
  · have hboot : Posix.Refines sz (Posix.boot sz cfg objs mem) (.boot sz .posix cfg objs, .boot) :=
      ⟨Sys.Refines.boot sz .posix cfg objs mem, rfl⟩
    refine ⟨exec_map_eq (Posix.step_refines hr) (fun s s' h => Prod.ext h.1.abs_eq h.2) hboot as,
      fun s hs => ?_⟩
    obtain ⟨s', -, h⟩ := exec_rel_left (Posix.step_refines hr) hboot hs
    exact h.1.kernel.sound

/-- One task sends a byte to itself. -/
def selfSend : List CortexM.Action :=
  [.main (.createTask ⟨1, 0, 0x20001000, 64, none⟩), .start, .pendsv 0, .task (.queueSend 0 [7]),
    .task (.queueRecv 0)]

/-- What it reports. -/
def selfSendLog : List Event :=
  [.call 0 (.queueSend 0 [7]), .put 0 (some 0) [7], .ret 0 (.queueSend 0 [7]) 0,
    .call 0 (.queueRecv 0), .got 0 (some 0) [7], .ret 0 (.queueRecv 0) 0]

/-- The specification sends the byte round as well: its events are those of the board. -/
theorem runs_are_specified_default :
    (exec (Spec.cortexM .default 0x20000000) (.boot .default (.cortexM 0x20000000) none .basic)
      selfSend).map Spec.Sys.log = some selfSendLog := by
  have hr : Sizing.default.Representable := by decide
  have hspec := ((runs_are_specified none .basic .bss hr).1 0x20000000 selfSend).1
  rw [← hspec, Option.map_map]
  show (exec (CortexM.step .default 0x20000000) CortexM.board selfSend).map Sys.log = _
  decide +kernel

/-- **A run depends on no cell that was not initialised.** What is in memory when the kernel and the
objects are initialised (old ring cells, old items) changes neither what can happen nor what does: from
any other memory the same actions are possible, with the same events and continuations, and lead to a
kernel that stands for the same state. -/
theorem runs_ignore_old_memory (hr : sz.Representable) (mem' : Kernel) :
    (∀ (idleStack : ℕ) (as : List CortexM.Action) (s : Sys),
      exec (CortexM.step sz idleStack) (CortexM.boot sz idleStack cfg objs mem) as = some s →
      ∃ s', exec (CortexM.step sz idleStack) (CortexM.boot sz idleStack cfg objs mem') as = some s' ∧
        s'.log = s.log ∧ s'.conts = s.conts ∧ s'.k.abs sz = s.k.abs sz) ∧
    ∀ (as : List Posix.Action) (s : Posix.State),
      exec (Posix.step sz) (Posix.boot sz cfg objs mem) as = some s →
      ∃ s', exec (Posix.step sz) (Posix.boot sz cfg objs mem') as = some s' ∧
        s'.sys.log = s.sys.log ∧ s'.sys.conts = s.sys.conts ∧ s'.mode = s.mode ∧
        s'.sys.k.abs sz = s.sys.k.abs sz := by
  refine ⟨fun idleStack as s hs => ?_, fun as s hs => ?_⟩
  · -- there and back through the specification
    have hboot := fun mem => Sys.Refines.boot sz (.cortexM idleStack) cfg objs mem
    obtain ⟨a, ha, h⟩ := exec_rel_left (CortexM.step_refines hr idleStack) (hboot mem) hs
    obtain ⟨s', hs', h'⟩ := exec_rel_right (CortexM.step_refines hr idleStack) (hboot mem') ha
    exact ⟨s', hs', h'.log.trans h.log.symm, h'.conts.trans h.conts.symm,
      h'.kernel.abs.trans h.kernel.abs.symm⟩
  · have hboot : ∀ mem, Posix.Refines sz (Posix.boot sz cfg objs mem) (.boot sz .posix cfg objs, .boot) :=
      fun mem => ⟨Sys.Refines.boot sz .posix cfg objs mem, rfl⟩
    obtain ⟨a, ha, h⟩ := exec_rel_left (Posix.step_refines hr) (hboot mem) hs
    obtain ⟨s', hs', h'⟩ := exec_rel_right (Posix.step_refines hr) (hboot mem') ha
    exact ⟨s', hs', h'.1.log.trans h.1.log.symm, h'.1.conts.trans h.1.conts.symm, h'.2.trans h.2.symm,
      h'.1.kernel.abs.trans h.1.kernel.abs.symm⟩

/-- Memory that an earlier program has left behind. -/
def usedMemory : Kernel :=
  { Kernel.bss with
    sems := fun _ => ⟨3, 200, ⟨fun _ => 250, 5, 6, 7⟩⟩
    mutexes := fun _ => ⟨true, 77, ⟨fun _ => 250, 5, 6, 7⟩⟩
    queues := fun _ =>
      ⟨fun _ => 0xAA, 40, 41, 42, 43, 44, ⟨fun _ => 250, 5, 6, 7⟩, ⟨fun _ => 250, 5, 6, 7⟩⟩ }

/-- A board that starts from such memory reports what one with cleared memory does. -/
theorem runs_ignore_old_memory_used :
    ∃ s, exec (CortexM.step .default 0x20000000) (CortexM.boot .default 0x20000000 none .basic usedMemory)
      selfSend = some s ∧ s.log = selfSendLog := by
  have hr : Sizing.default.Representable := by decide
  have heval : (exec (CortexM.step .default 0x20000000) CortexM.board selfSend).map Sys.log =
      some selfSendLog := by decide +kernel
  obtain ⟨s, hs, hlog⟩ := Option.map_eq_some_iff.mp heval
  obtain ⟨s', hs', hlog', -⟩ :=
    (runs_ignore_old_memory none .basic .bss hr usedMemory).1 0x20000000 selfSend s hs
  exact ⟨s', hs', hlog'.trans hlog⟩

end Results

end HardRT
