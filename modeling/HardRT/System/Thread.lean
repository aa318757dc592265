import HardRT.Core.Tick
import HardRT.Sync.Semaphore
import HardRT.Sync.Mutex
import HardRT.Sync.Queue

/-! # Tasks as programs over the kernel

A task runs its own code and issues API calls. Inside a call it moves in atomic actions: a critical
section, one core function, or one of the two port calls that end every blocking call,

  `hrt__pend_context_switch(); hrt_port_yield_to_scheduler();`

Between two actions interrupts and other tasks may run, so a task inside a call carries a continuation
(`Cont`): which action comes next and what the call does after it (`After`). `nextAction` is one such
action of one task. `hrt_port_yield_to_scheduler` itself (`Cont.hop`) is where the ports differ and is
left to them.

Every action reports the events it caused; the log of a system is the sequence of all of them. -/

namespace HardRT

open Lib

/-! ## Calls and continuations -/

/-- The API calls of a task. -/
inductive Call
  | createTask (a : TaskArgs)
  | yield
  | sleep (ms : ℕ)
  | taskDelete
  | setPolicy (p : Policy)
  | setDefaultTimeslice (n : ℕ)
  | semTryTake (s : ℕ)
  | semTake (s : ℕ)
  | semGive (s : ℕ)
  | mutexTryLock (m : ℕ)
  | mutexLock (m : ℕ)
  | mutexUnlock (m : ℕ)
  | queueTrySend (q : ℕ) (item : List UInt8)
  | queueSend (q : ℕ) (item : List UInt8)
  | queueTryRecv (q : ℕ)
  | queueRecv (q : ℕ)
  deriving DecidableEq, Repr

/-- The arguments of a call of `hrt_create_task`. -/
def Call.creates : Call → Option TaskArgs
  | .createTask a => some a
  | _ => none

/-- What a call does once `hrt_port_yield_to_scheduler` has returned to it. -/
inductive After
  /-- Return this code to the caller. -/
  | ret (c : Call) (code : ℤ)
  /-- Go round the loop of `hrt_queue_send`. -/
  | sendAgain (q : ℕ) (item : List UInt8)
  /-- Go round the loop of `hrt_queue_recv`. -/
  | recvAgain (q : ℕ)
  deriving DecidableEq, Repr

/-- The next action of a task. -/
inductive Cont
  /-- No user code here: a slot never filled, or the idle task's `wfi` loop. -/
  | none
  /-- The task's own code, between two calls. -/
  | user
  /-- The body of an `hrt_yield` made by a call that woke another task. -/
  | yield (a : After)
  /-- `hrt__pend_context_switch()`. -/
  | pend (a : After)
  /-- `hrt_port_yield_to_scheduler()`. -/
  | hop (a : After)
  /-- Just back from `hrt_port_yield_to_scheduler()`. -/
  | resumed (a : After)
  /-- The second critical section of `hrt_sem_take`. -/
  | semTake (s : ℕ)
  /-- The second critical section of `hrt_mutex_lock`. -/
  | mutexLock (m : ℕ)
  /-- The second critical section of `hrt_queue_send`. -/
  | queueSend (q : ℕ) (item : List UInt8)
  /-- The second critical section of `hrt_queue_recv`. -/
  | queueRecv (q : ℕ)
  deriving DecidableEq, Repr

/-- The task has given up the CPU in the kernel's books and not yet switched away. -/
def Cont.leaving : Cont → Bool
  | .pend _ | .hop _ => true
  | _ => false

/-- The next action enters an API function afresh: a new call, or the call to the non-blocking form at
the top of the loop of `hrt_queue_send` and `hrt_queue_recv`. -/
def Cont.issues : Cont → Bool
  | .user | .resumed (.sendAgain _ _) | .resumed (.recvAgain _) => true
  | _ => false

/-- The next action is the second critical section of a blocking call. -/
def Cont.rechecks : Cont → Bool
  | .semTake _ | .mutexLock _ | .queueSend _ _ | .queueRecv _ => true
  | _ => false

/-! ## Events -/

/-- What happened, in critical-section order. `src = none` stands for an ISR. -/
inductive Event
  /-- Task `t` entered the call `c`. -/
  | call (t : ℕ) (c : Call)
  /-- The call `c` returned `code` to task `t`. -/
  | ret (t : ℕ) (c : Call) (code : ℤ)
  /-- Task `t` took a token by decrementing the count. -/
  | semTaken (s t : ℕ)
  /-- Task `t` was put on the wait FIFO. -/
  | semParked (s t : ℕ)
  /-- A give took place. -/
  | semGiven (s : ℕ)
  /-- That give popped task `t` from the wait FIFO. -/
  | semHandoff (s t : ℕ)
  /-- That give found no waiter and a full count. -/
  | semSaturated (s : ℕ)
  /-- Task `t` found the mutex free and took it. -/
  | mutexAcquired (m t : ℕ)
  /-- Task `t` was put on the wait FIFO. -/
  | mutexParked (m t : ℕ)
  /-- The owner `t` unlocked. -/
  | mutexUnlocked (m t : ℕ)
  /-- That unlock passed ownership to task `t`. -/
  | mutexHandoff (m t : ℕ)
  /-- An item was copied in. -/
  | put (q : ℕ) (src : Option ℕ) (bytes : List UInt8)
  /-- An item was copied out. -/
  | got (q : ℕ) (src : Option ℕ) (bytes : List UInt8)
  /-- Task `t` was put on the receiver FIFO. -/
  | rxParked (q t : ℕ)
  /-- Task `t` was popped from the receiver FIFO. -/
  | rxWoken (q t : ℕ)
  /-- Task `t` was put on the sender FIFO. -/
  | txParked (q t : ℕ)
  /-- Task `t` was popped from the sender FIFO. -/
  | txWoken (q t : ℕ)
  deriving DecidableEq, Repr

/-- The event is the entry of task `t` into a call, or the return from one. -/
def Event.callOf (t : ℕ) : Event → Bool
  | .call u _ | .ret u _ _ => u = t
  | _ => false

/-- Where task `t` stands between its calls: the last that it entered or returned from. -/
def lastCall (t : ℕ) (log : List Event) : Option Event := (log.filter (Event.callOf t)).getLast?

/-- **The function of task `t` has ended**: the `hrt_task_delete` at the end of `hrt__task_trampoline` has
returned. A task that called `hrt_task_delete` itself is indistinguishable from one whose function is
over until it goes on. -/
def Exited (t : ℕ) (state : TaskState) (cont : Cont) (log : List Event) : Prop :=
  cont = .user ∧ state = .unused ∧ lastCall t log = some (.ret t .taskDelete 0)

instance (t : ℕ) (state : TaskState) (cont : Cont) (log : List Event) :
    Decidable (Exited t state cont log) :=
  inferInstanceAs (Decidable (_ ∧ _ ∧ _))

/-! ## One action of a task -/

/-- The result of one action: the kernel, the acting task's continuation, the events, and the slot in
which the action built a fresh context, if any. -/
structure Outcome where
  k : Kernel
  cont : Cont
  evs : List Event
  spawn : Option ℕ

/-- `hrt_queue_try_send` as called by `hrt_queue_send`. -/
def sendAttempt (sz : Sizing) (t q : ℕ) (item : List UInt8) (k : Kernel) : Outcome :=
  let r := hrtQueueTrySendCs sz q item k
  let bytes := itemBytes (k.queues q).itemSize item
  if r.1 = 0 then
    match r.2.1 with
    | some w =>
        ⟨r.2.2, .yield (.ret (.queueSend q item) 0), [.put q (some t) bytes, .rxWoken q w], none⟩
    | none => ⟨r.2.2, .user, [.put q (some t) bytes, .ret t (.queueSend q item) 0], none⟩
  else ⟨r.2.2, .queueSend q item, [], none⟩

/-- `hrt_queue_try_recv` as called by `hrt_queue_recv`. -/
def recvAttempt (sz : Sizing) (t q : ℕ) (k : Kernel) : Outcome :=
  let r := hrtQueueTryRecvCs sz q k
  if r.1 = 0 then
    match r.2.2.1 with
    | some w =>
        ⟨r.2.2.2, .yield (.ret (.queueRecv q) 0), [.got q (some t) r.2.1, .txWoken q w], none⟩
    | none => ⟨r.2.2.2, .user, [.got q (some t) r.2.1, .ret t (.queueRecv q) 0], none⟩
  else ⟨r.2.2.2, .queueRecv q, [], none⟩

/-- The events of a give at a semaphore that was `S`: who was woken, or else whether it was lost. -/
def giveEvents (i : ℕ) (woken : Option ℕ) (S : Sem) : List Event :=
  match woken with
  | some w => [.semGiven i, .semHandoff i w]
  | none => if S.count < S.maxCount then [.semGiven i] else [.semGiven i, .semSaturated i]

/-- The first action of a call. The event `Event.call` is added by `nextAction`. -/
def issue (sz : Sizing) (port : Port) (t : ℕ) (k : Kernel) : Call → Outcome
  | .createTask a =>
      let r := hrtCreateTask sz port a k
      ⟨r.2, .user, [.ret t (.createTask a) (r.1.elim (-1) fun id => (id : ℤ))], r.1⟩
  | .yield => ⟨hrtYieldBody sz t k, .pend (.ret .yield 0), [], none⟩
  | .sleep ms => ⟨hrtSleepBody t ms k, .pend (.ret (.sleep ms) 0), [], none⟩
  | .taskDelete =>
      -- the idle slot is refused: the function returns at once
      if t = sz.idleId then ⟨k, .user, [.ret t .taskDelete 0], none⟩
      else ⟨hrtTaskDeleteBody t k, .pend (.ret .taskDelete 0), [], none⟩
  | .setPolicy p => ⟨{ k with policy := p }, .user, [.ret t (.setPolicy p) 0], none⟩
  | .setDefaultTimeslice n =>
      ⟨{ k with defaultSlice := n % 65536 }, .user, [.ret t (.setDefaultTimeslice n) 0], none⟩
  | .semTryTake i =>
      let r := hrtSemTryTake i k
      if r.1 = 0 then ⟨r.2, .user, [.semTaken i t, .ret t (.semTryTake i) 0], none⟩
      else ⟨r.2, .user, [.ret t (.semTryTake i) (-1)], none⟩
  | .semTake i =>
      let r := hrtSemTryTake i k
      if r.1 = 0 then ⟨r.2, .user, [.semTaken i t, .ret t (.semTake i) 0], none⟩
      else ⟨r.2, .semTake i, [], none⟩
  | .semGive i =>
      let r := giveCommonCs sz i k
      match r.1 with
      | some w => ⟨r.2, .yield (.ret (.semGive i) 0), giveEvents i (some w) (k.sems i), none⟩
      | none => ⟨r.2, .user, giveEvents i none (k.sems i) ++ [.ret t (.semGive i) 0], none⟩
  | .mutexTryLock i =>
      let r := hrtMutexTryLock sz i t k
      if r.1 = 0 then ⟨r.2, .user, [.mutexAcquired i t, .ret t (.mutexTryLock i) 0], none⟩
      else ⟨r.2, .user, [.ret t (.mutexTryLock i) (-1)], none⟩
  | .mutexLock i =>
      if sz.maxTasks ≤ t then
        ⟨k.hrtError .mutexBadCtx, .user, [.ret t (.mutexLock i) (-1)], none⟩
      else
        let r := hrtMutexTryLock sz i t k
        if r.1 = 0 then ⟨r.2, .user, [.mutexAcquired i t, .ret t (.mutexLock i) 0], none⟩
        else ⟨r.2, .mutexLock i, [], none⟩
  | .mutexUnlock i =>
      let r := hrtMutexUnlockCs sz i t k
      match r.1 with
      | .refused => ⟨r.2, .user, [.ret t (.mutexUnlock i) (-1)], none⟩
      | .handoff w =>
          ⟨r.2, .yield (.ret (.mutexUnlock i) 0), [.mutexUnlocked i t, .mutexHandoff i w], none⟩
      | .released => ⟨r.2, .user, [.mutexUnlocked i t, .ret t (.mutexUnlock i) 0], none⟩
  | .queueTrySend q item =>
      let r := hrtQueueTrySendCs sz q item k
      let bytes := itemBytes (k.queues q).itemSize item
      if r.1 = 0 then
        match r.2.1 with
        | some w =>
            ⟨r.2.2, .yield (.ret (.queueTrySend q item) 0), [.put q (some t) bytes, .rxWoken q w],
              none⟩
        | none => ⟨r.2.2, .user, [.put q (some t) bytes, .ret t (.queueTrySend q item) 0], none⟩
      else ⟨r.2.2, .user, [.ret t (.queueTrySend q item) r.1], none⟩
  | .queueSend q item => sendAttempt sz t q item k
  | .queueTryRecv q =>
      let r := hrtQueueTryRecvCs sz q k
      if r.1 = 0 then
        match r.2.2.1 with
        | some w =>
            ⟨r.2.2.2, .yield (.ret (.queueTryRecv q) 0), [.got q (some t) r.2.1, .txWoken q w],
              none⟩
        | none => ⟨r.2.2.2, .user, [.got q (some t) r.2.1, .ret t (.queueTryRecv q) 0], none⟩
      else ⟨r.2.2.2, .user, [.ret t (.queueTryRecv q) r.1], none⟩
  | .queueRecv q => recvAttempt sz t q k

/-- Continue a call after `hrt_port_yield_to_scheduler` has returned. -/
def resume (sz : Sizing) (t : ℕ) (k : Kernel) : After → Outcome
  | .ret c code => ⟨k, .user, [.ret t c code], none⟩
  | .sendAgain q item => sendAttempt sz t q item k
  | .recvAgain q => recvAttempt sz t q k

/-- The second critical section of `hrt_sem_take` and what follows. -/
def semTakeAction (sz : Sizing) (t i : ℕ) (k : Kernel) : Outcome :=
  let r := hrtSemTakeCs sz i t k
  if r.1 then ⟨r.2, .user, [.semTaken i t, .ret t (.semTake i) 0], none⟩
  else ⟨r.2, .pend (.ret (.semTake i) 0), [.semParked i t], none⟩

/-- The second critical section of `hrt_mutex_lock` and what follows. -/
def mutexLockAction (sz : Sizing) (t i : ℕ) (k : Kernel) : Outcome :=
  let r := hrtMutexLockCs sz i t k
  match r.1 with
  | .acquired => ⟨r.2, .user, [.mutexAcquired i t, .ret t (.mutexLock i) 0], none⟩
  | .recursive => ⟨r.2, .user, [.ret t (.mutexLock i) (-1)], none⟩
  | .parked => ⟨r.2, .pend (.ret (.mutexLock i) 0), [.mutexParked i t], none⟩

/-- The event of waking a receiver, if one was woken. -/
def rxWokenEvent (q : ℕ) (w : Option ℕ) : List Event := w.elim [] fun j => [.rxWoken q j]

/-- The event of waking a sender, if one was woken. -/
def txWokenEvent (q : ℕ) (w : Option ℕ) : List Event := w.elim [] fun j => [.txWoken q j]

@[simp] theorem ret_notMem_rxWokenEvent (q t : ℕ) (w : Option ℕ) (c : Call) (code : ℤ) :
    .ret t c code ∉ rxWokenEvent q w := by
  cases w <;> simp [rxWokenEvent]

@[simp] theorem ret_notMem_txWokenEvent (q t : ℕ) (w : Option ℕ) (c : Call) (code : ℤ) :
    .ret t c code ∉ txWokenEvent q w := by
  cases w <;> simp [txWokenEvent]

/-- The second critical section of `hrt_queue_send` and what follows: the re-check path returns without
a yield. -/
def queueSendAction (sz : Sizing) (t q : ℕ) (item : List UInt8) (k : Kernel) : Outcome :=
  let r := hrtQueueSendCs sz q t item k
  match r.1 with
  | .done code bytes w =>
      ⟨r.2, .user,
        .put q (some t) bytes :: (rxWokenEvent q w ++ [.ret t (.queueSend q item) code]), none⟩
  | .parked => ⟨r.2, .pend (.sendAgain q item), [.txParked q t], none⟩

/-- The second critical section of `hrt_queue_recv` and what follows. -/
def queueRecvAction (sz : Sizing) (t q : ℕ) (k : Kernel) : Outcome :=
  let r := hrtQueueRecvCs sz q t k
  match r.1 with
  | .done code bytes w =>
      ⟨r.2, .user,
        .got q (some t) bytes :: (txWokenEvent q w ++ [.ret t (.queueRecv q) code]), none⟩
  | .parked => ⟨r.2, .pend (.recvAgain q), [.rxParked q t], none⟩

/-- **One atomic action of task `t`**; `c` is the call it issues if it is between calls. `none` when it
has no action of its own (no code, or at the port's `hrt_port_yield_to_scheduler`). -/
def nextAction (sz : Sizing) (port : Port) (t : ℕ) (c : Call) (k : Kernel) : Cont → Option Outcome
  | .none => none
  | .user => some { issue sz port t k c with evs := .call t c :: (issue sz port t k c).evs }
  | .yield a => some ⟨hrtYieldBody sz t k, .pend a, [], none⟩
  | .pend a => some ⟨k.hrtPendContextSwitch, .hop a, [], none⟩
  | .hop _ => none
  | .resumed a => some (resume sz t k a)
  | .semTake i => some (semTakeAction sz t i k)
  | .mutexLock i => some (mutexLockAction sz t i k)
  | .queueSend q item => some (queueSendAction sz t q item k)
  | .queueRecv q => some (queueRecvAction sz t q k)

/-! ## Interrupt service routines -/

/-- The kernel operations available to an ISR. -/
inductive Isr
  | semGive (s : ℕ)
  | queueTrySend (q : ℕ) (item : List UInt8)
  | queueTryRecv (q : ℕ)
  deriving DecidableEq, Repr

/-- The reschedule request of the `_from_isr` functions: made when a task was woken. -/
def pendIfWoken (w : Option ℕ) (k : Kernel) : Kernel :=
  if w.isSome then k.hrtPendContextSwitch else k

/-- One ISR operation, run to completion: return code, kernel and events. -/
def isrAction (sz : Sizing) (k : Kernel) : Isr → ℤ × Kernel × List Event
  | .semGive i =>
      let r := giveCommonCs sz i k
      (0, pendIfWoken r.1 r.2, giveEvents i r.1 (k.sems i))
  | .queueTrySend q item =>
      let r := hrtQueueTrySendFromIsrCs sz q item k
      let evs := if r.1 = 0 then
          .put q none (itemBytes (k.queues q).itemSize item) :: rxWokenEvent q r.2.1
        else []
      (r.1, pendIfWoken r.2.1 r.2.2, evs)
  | .queueTryRecv q =>
      let r := hrtQueueTryRecvFromIsrCs sz q k
      let evs := if r.1 = 0 then .got q none r.2.1 :: txWokenEvent q r.2.2.1 else []
      (r.1, pendIfWoken r.2.2.1 r.2.2.2, evs)

/-! ## The system state -/

/-- The kernel together with every task's continuation and the log of events so far. -/
structure Sys where
  k : Kernel
  conts : ℕ → Cont
  log : List Event

namespace Sys

/-- The continuations after slot `id` has been given a fresh context. -/
def spawned (s : Sys) : Option ℕ → ℕ → Cont
  | none => s.conts
  | some id => Function.update s.conts id .user

/-- The slots with a context afterwards. -/
theorem spawned_ne_none {s : Sys} {new : Option ℕ} {id : ℕ} :
    s.spawned new id ≠ .none ↔ s.conts id ≠ .none ∨ new = some id := by
  cases new with
  | none => simp [spawned]
  | some i =>
      by_cases hid : id = i
      · subst hid; simp [spawned]
      · simp [spawned, hid, Ne.symm hid]

/-- The slots without a context afterwards. -/
theorem spawned_eq_none {s : Sys} {new : Option ℕ} {id : ℕ} :
    s.spawned new id = .none ↔ s.conts id = .none ∧ new ≠ some id := by
  rw [← not_iff_not, not_and_or, not_not]
  exact spawned_ne_none

/-- **A slot keeps its continuation, or it starts with code of its own.** -/
theorem spawned_cases (s : Sys) (new : Option ℕ) (id : ℕ) :
    s.spawned new id = s.conts id ∨ (new = some id ∧ s.spawned new id = .user) := by
  cases new with
  | none => exact Or.inl rfl
  | some i =>
      by_cases hid : id = i
      · exact Or.inr ⟨by rw [hid], by rw [spawned, hid, Function.update_self]⟩
      · exact Or.inl (by rw [spawned, Function.update_of_ne hid])

/-- A continuation inside a call was there before a slot was filled. -/
theorem spawned_of_ne_user {s : Sys} {new : Option ℕ} {id : ℕ} (h : s.spawned new id ≠ .user) :
    s.spawned new id = s.conts id :=
  (s.spawned_cases new id).resolve_right fun hnew => h hnew.2

/-- A fresh context is not on its way out of a call. -/
theorem spawned_leaving {s : Sys} {new : Option ℕ} {id : ℕ}
    (h : (s.spawned new id).leaving = true) : (s.conts id).leaving = true := by
  rwa [spawned_of_ne_user fun hu => by rw [hu] at h; exact absurd h (by simp [Cont.leaving])] at h

/-- A fresh context is not inside `hrt_port_yield_to_scheduler`. -/
theorem spawned_hop {s : Sys} {new : Option ℕ} {id : ℕ} {a : After}
    (h : s.spawned new id = .hop a) : s.conts id = .hop a := by
  rwa [spawned_of_ne_user (by simp [h])] at h

/-- Apply the outcome of an action of task `t`. -/
def apply (s : Sys) (t : ℕ) (o : Outcome) : Sys :=
  { k := o.k
    conts := Function.update (s.spawned o.spawn) t o.cont
    log := s.log ++ o.evs }

@[simp] theorem apply_conts_self (s : Sys) (t : ℕ) (o : Outcome) : (s.apply t o).conts t = o.cont := by
  simp [apply]

/-- The continuations of the other tasks after an action of `t`. -/
theorem apply_conts_of_ne (s : Sys) {t u : ℕ} (h : u ≠ t) (o : Outcome) :
    (s.apply t o).conts u = s.spawned o.spawn u := by
  simp [apply, h]

/-- Task `t` takes its next action, if it has one. -/
def task (sz : Sizing) (port : Port) (t : ℕ) (c : Call) (s : Sys) : Option Sys :=
  (nextAction sz port t c s.k (s.conts t)).map (s.apply t)

/-- An ISR operation. -/
def isr (sz : Sizing) (op : Isr) (s : Sys) : Sys :=
  { s with k := (isrAction sz s.k op).2.1, log := s.log ++ (isrAction sz s.k op).2.2 }

/-- A tick. -/
def tickIsr (sz : Sizing) (s : Sys) : Sys := { s with k := hrtTickIsr sz s.k }

end Sys

/-! ## Boot -/

/-- How a semaphore was initialised. -/
inductive SemSpec
  /-- `hrt_sem_init(s, init)`. -/
  | binary (init : ℕ)
  /-- `hrt_sem_init_counting(s, init, max_count)`. -/
  | counting (init : ℕ) (maxCount : Fin 256)

/-- The semaphore such a call leaves. -/
def SemSpec.apply : SemSpec → Sem → Sem
  | .binary init, s => hrtSemInit init s
  | .counting init maxCount, s => hrtSemInitCounting init maxCount s

/-- The arguments of `hrt_queue_init`, with what its assertions and types demand. -/
structure QueueSpec where
  capacity : ℕ
  itemSize : ℕ
  capacity_pos : 1 ≤ capacity
  capacity_le : capacity ≤ 65535
  itemSize_pos : 1 ≤ itemSize

/-- The initialisation of every kernel object. -/
structure ObjectSpecs where
  sem : ℕ → SemSpec
  queue : ℕ → QueueSpec

/-- Empty binary semaphores and one-byte, one-item queues. -/
def ObjectSpecs.basic : ObjectSpecs where
  sem _ := .binary 0
  queue _ := ⟨1, 1, by decide, by decide, by decide⟩

/-- **The system after boot**: `hrt_init` has run and every kernel object is initialised. `mem` is the
memory before, of which only the cells that no initialiser writes survive. -/
def Sys.boot (sz : Sizing) (port : Port) (cfg : Option KernelConfig) (objs : ObjectSpecs)
    (mem : Kernel) : Sys where
  k := { hrtInit sz port cfg { mem with error := .none, pend := false } with
    sems := fun i => (objs.sem i).apply (mem.sems i)
    mutexes := fun i => hrtMutexInit (mem.mutexes i)
    queues := fun i => hrtQueueInit (objs.queue i).capacity (objs.queue i).itemSize (mem.queues i) }
  conts := fun _ => .none
  log := []

/-- The calls `main` makes before `hrt_start`. -/
inductive MainCall
  | createTask (a : TaskArgs)
  | setPolicy (p : Policy)
  | setDefaultTimeslice (n : ℕ)
  deriving DecidableEq, Repr

/-- A call of `main`. -/
def Sys.main (sz : Sizing) (port : Port) (s : Sys) : MainCall → Sys
  | .createTask a =>
      { s with k := (hrtCreateTask sz port a s.k).2
               conts := s.spawned (hrtCreateTask sz port a s.k).1 }
  | .setPolicy p => { s with k := { s.k with policy := p } }
  | .setDefaultTimeslice n => { s with k := { s.k with defaultSlice := n % 65536 } }

end HardRT
