import HardRT.Lib.RingBuffer

/-! # Data model of the HardRT kernel

The types of `inc/hardrt.h`, `inc/hardrt_sem.h`, `inc/hardrt_mutex.h` and `inc/hardrt_queue.h`, and the
global state of `src/core/hardrt_core.c` in one record. Machine integers are natural numbers; every
assignment to a narrower field reduces modulo the field's width where the source relies on it
(`uint8_t` ids and ring registers, `uint16_t` message indices, the `uint32_t` tick).

The build is the release one (`HARDRT_DEBUG = 0`, `HARDRT_STALL_ON_ERROR = 0`): the debug-only guards
and counters are left out, and `hrt_error` latches its code and returns. -/

namespace HardRT

open Lib

/-! ## Build parameters -/

/-- **Sizing of a build.** `maxTasks` is `HARDRT_MAX_TASKS`, which `CMakeLists.txt` sets to
`HARDRT_CFG_MAX_TASKS + 1` (the extra slot is the idle task's) and which `inc/hardrt.h` lets a build
override. -/
structure Sizing where
  /-- `HARDRT_MAX_TASKS`. -/
  maxTasks : ℕ
  /-- `HARDRT_MAX_PRIO`. -/
  maxPrio : ℕ
  /-- There is at least one priority class. -/
  prio_pos : 1 ≤ maxPrio
  /-- `hrt_prio_t` has twelve values. -/
  prio_le : maxPrio ≤ 12
  /-- The table has at least the idle slot. -/
  maxTasks_pos : 0 < maxTasks

/-- The remaining check of `CMakeLists.txt`: `HARDRT_CFG_MAX_TASKS >= HARDRT_CFG_MAX_PRIO`. -/
def Sizing.Accepted (sz : Sizing) : Prop := sz.maxPrio ≤ sz.maxTasks - 1

instance (sz : Sizing) : Decidable sz.Accepted :=
  inferInstanceAs (Decidable (sz.maxPrio ≤ sz.maxTasks - 1))

/-- `HRT_IDLE_ID`: the last slot of the task table. -/
def Sizing.idleId (sz : Sizing) : ℕ := sz.maxTasks - 1

/-- Task ids, ring indices and ring counts are `uint8_t`, so the sizing is representable when the
table has at most 255 slots. -/
def Sizing.Representable (sz : Sizing) : Prop := sz.maxTasks ≤ 255

instance (sz : Sizing) : Decidable sz.Representable :=
  inferInstanceAs (Decidable (sz.maxTasks ≤ 255))

theorem Sizing.idleId_lt (sz : Sizing) : sz.idleId < sz.maxTasks :=
  Nat.sub_lt sz.maxTasks_pos Nat.one_pos

/-- A representable sizing leaves room in an 8-bit register. -/
theorem Sizing.Representable.lt {sz : Sizing} (h : sz.Representable) : sz.maxTasks < 256 :=
  Nat.lt_succ_of_le h

/-- Storing the id of a slot in a `uint8_t` does not change it. -/
theorem Sizing.Representable.mod_eq {sz : Sizing} (h : sz.Representable) {id : ℕ}
    (hid : id < sz.maxTasks) : id % 256 = id :=
  Nat.mod_eq_of_lt (hid.trans h.lt)

/-- The sizing of the default build: eight tasks and the idle slot, four priorities. -/
def Sizing.default : Sizing := ⟨9, 4, by decide, by decide, by decide⟩

/-! ## Enumerations -/

/-- `hrt_state_t`. -/
inductive TaskState
  /-- Runnable (on a ready queue). -/
  | ready
  /-- Sleeping until a wake tick. -/
  | sleep
  /-- Blocked on a primitive. -/
  | blocked
  /-- Slot not in use. -/
  | unused
  deriving DecidableEq, Repr

/-- `hrt_policy_t`. -/
inductive Policy
  /-- Strict fixed priority, cooperative within a class. -/
  | priority
  /-- Single round-robin class. -/
  | rr
  /-- Fixed priority with round-robin within each class. -/
  | priorityRr
  deriving DecidableEq, Repr

/-- The policies under which the quantum of the running task is charged. -/
def Policy.sliced : Policy → Bool
  | .priority => false
  | .rr => true
  | .priorityRr => true

/-- `hrt_err`. -/
inductive Err
  | none | invalidId | invalidNextId | spNull | tcbNull | invalidTask | noTasks | invalidPrio
  | rqOverflow | rqUnderflow | invalidIdFromRq | stackUnderflowInit | stackRange | stackAlign
  | invalidRamRange | dupReady | mutexOwner | mutexRecursive | mutexBadCtx
  deriving DecidableEq, Repr

/-! ## Task control blocks -/

/-- `_hrt_tcb_t`. Pointers are addresses, `0` being `NULL`. -/
structure Tcb where
  sp : ℕ
  stackBase : ℕ
  stackWords : ℕ
  entry : ℕ
  arg : ℕ
  wakeTick : ℕ
  timesliceCfg : ℕ
  sliceLeft : ℕ
  prio : ℕ
  state : TaskState
  deriving DecidableEq, Repr

/-- A control block after `memset(t, 0, sizeof(*t))`; `HRT_READY` is the enumerator `0`. -/
def Tcb.zero : Tcb := ⟨0, 0, 0, 0, 0, 0, 0, 0, 0, .ready⟩

/-- `hrt_task_attr_t`. -/
structure TaskAttr where
  priority : ℕ
  timeslice : ℕ
  deriving DecidableEq, Repr

/-- The arguments of `hrt_create_task`; `attr = none` is a `NULL` attribute pointer. -/
structure TaskArgs where
  fn : ℕ
  arg : ℕ
  stackWords : ℕ
  nWords : ℕ
  attr : Option TaskAttr
  deriving DecidableEq, Repr

/-- `hrt_config_t`, the fields the scheduler reads. -/
structure KernelConfig where
  tickHz : ℕ
  policy : Policy
  defaultSlice : ℕ
  deriving DecidableEq, Repr

/-! ## Kernel objects -/

/-- `hrt_sem_t`. The fields `q`, `head`, `tail`, `count_wait` form the ring `waitq`. -/
structure Sem where
  count : ℕ
  maxCount : ℕ
  waitq : RingBuffer ℕ

/-- `HRT_MUTEX_NO_OWNER`. -/
def noOwner : ℤ := -1

/-- `hrt_mutex_t`. The fields `q`, `head`, `tail`, `count_wait` form the ring `waitq`. -/
structure Mutex where
  locked : Bool
  owner : ℤ
  waitq : RingBuffer ℕ

/-- `hrt_queue_t`. `buf` is the application's backing store, addressed by byte; `rx` and `tx` are the
rings of the parked receivers and senders. -/
structure Queue where
  buf : ℕ → UInt8
  itemSize : ℕ
  capacity : ℕ
  head : ℕ
  tail : ℕ
  count : ℕ
  rx : RingBuffer ℕ
  tx : RingBuffer ℕ

/-- The wait FIFOs of the kernel objects: one per semaphore and mutex, two per message queue. -/
inductive WaitQ
  | sem (s : ℕ)
  | mutex (m : ℕ)
  | rx (q : ℕ)
  | tx (q : ℕ)
  deriving DecidableEq, Repr

/-! ## The kernel state -/

/-- **Kernel state**: the globals of `hardrt_core.c` (`g_tcbs`, `g_rq`, `g_current`, …), the port's
reschedule request (`PENDSVSET` on Cortex-M, `g_switch_pending` on POSIX) and the kernel objects the
application owns, each family indexed by a handle. -/
structure Kernel where
  tcbs : ℕ → Tcb
  rq : ℕ → RingBuffer ℕ
  /-- `g_current`; `none` is `-1`. -/
  current : Option ℕ
  tick : ℕ
  tickHz : ℕ
  policy : Policy
  defaultSlice : ℕ
  error : Err
  /-- A reschedule has been requested and not yet served. -/
  pend : Bool
  sems : ℕ → Sem
  mutexes : ℕ → Mutex
  queues : ℕ → Queue

/-- Static storage before `main` runs: all bytes zero. -/
def Kernel.bss : Kernel where
  tcbs _ := Tcb.zero
  rq _ := ⟨fun _ => 0, 0, 0, 0⟩
  current := none
  tick := 0
  tickHz := 0
  policy := .priority
  defaultSlice := 0
  error := .none
  pend := false
  sems _ := ⟨0, 0, ⟨fun _ => 0, 0, 0, 0⟩⟩
  mutexes _ := ⟨false, 0, ⟨fun _ => 0, 0, 0, 0⟩⟩
  queues _ := ⟨fun _ => 0, 0, 0, 0, 0, 0, ⟨fun _ => 0, 0, 0, 0⟩, ⟨fun _ => 0, 0, 0, 0⟩⟩

namespace Kernel

/-- The state of a task. -/
def stateOf (k : Kernel) (id : ℕ) : TaskState := (k.tcbs id).state

/-- Apply `f` to one control block. -/
def modifyTcb (k : Kernel) (id : ℕ) (f : Tcb → Tcb) : Kernel :=
  { k with tcbs := Function.update k.tcbs id (f (k.tcbs id)) }

/-- `t->state = st`. -/
def setState (k : Kernel) (id : ℕ) (st : TaskState) : Kernel :=
  k.modifyTcb id fun t => { t with state := st }

/-- `hrt_error`: latch the code. -/
def hrtError (k : Kernel) (e : Err) : Kernel := { k with error := e }

/-- `hrt__pend_context_switch`: record the request. -/
def hrtPendContextSwitch (k : Kernel) : Kernel := { k with pend := true }

/-- The ring behind a wait FIFO. -/
def ring (k : Kernel) : WaitQ → RingBuffer ℕ
  | .sem s => (k.sems s).waitq
  | .mutex m => (k.mutexes m).waitq
  | .rx q => (k.queues q).rx
  | .tx q => (k.queues q).tx

/-- The tasks parked on a wait FIFO, longest waiting first. -/
def waiters (sz : Sizing) (k : Kernel) (w : WaitQ) : List ℕ := (k.ring w).toList sz.maxTasks

/-- The ready queue of priority `p`, next to run first. -/
def readyList (sz : Sizing) (k : Kernel) (p : ℕ) : List ℕ := (k.rq p).toList sz.maxTasks

/-- Replace one ready ring. -/
def setRq (k : Kernel) (p : ℕ) (r : RingBuffer ℕ) : Kernel :=
  { k with rq := Function.update k.rq p r }

/-- Replace one semaphore. -/
def setSem (k : Kernel) (i : ℕ) (s : Sem) : Kernel :=
  { k with sems := Function.update k.sems i s }

/-- Replace one mutex. -/
def setMutex (k : Kernel) (i : ℕ) (m : Mutex) : Kernel :=
  { k with mutexes := Function.update k.mutexes i m }

/-- Replace one message queue. -/
def setQueue (k : Kernel) (i : ℕ) (q : Queue) : Kernel :=
  { k with queues := Function.update k.queues i q }

/-! ### Projections of the updates -/

@[simp] theorem stateOf_modifyTcb (k : Kernel) (id j : ℕ) (f : Tcb → Tcb) :
    (k.modifyTcb id f).stateOf j = if j = id then (f (k.tcbs id)).state else k.stateOf j := by
  unfold stateOf modifyTcb
  by_cases h : j = id
  · subst h; simp
  · simp [h]

@[simp] theorem stateOf_setState (k : Kernel) (id j : ℕ) (st : TaskState) :
    (k.setState id st).stateOf j = if j = id then st else k.stateOf j := by
  simp [setState]

/-- Replacing a ready ring replaces that ring and no other. -/
theorem setRq_rq (k : Kernel) (p q : ℕ) (r : RingBuffer ℕ) :
    (k.setRq p r).rq q = if q = p then r else k.rq q :=
  Function.update_apply k.rq p r q

/-- The list views depend on the ready rings only. -/
theorem readyList_congr {sz : Sizing} {k k' : Kernel} (hrq : k'.rq = k.rq) (p : ℕ) :
    k'.readyList sz p = k.readyList sz p := by
  rw [readyList, readyList, hrq]

/-- Replacing a ready ring replaces the list view of that priority and no other. -/
theorem readyList_setRq (sz : Sizing) (k : Kernel) (p q : ℕ) (r : RingBuffer ℕ) :
    (k.setRq p r).readyList sz q = if q = p then r.toList sz.maxTasks else k.readyList sz q := by
  rw [readyList, readyList, setRq_rq]
  split_ifs <;> rfl

@[simp] theorem ring_modifyTcb (k : Kernel) (id : ℕ) (f : Tcb → Tcb) :
    (k.modifyTcb id f).ring = k.ring := by funext w; cases w <;> rfl

@[simp] theorem ring_setState (k : Kernel) (id : ℕ) (st : TaskState) :
    (k.setState id st).ring = k.ring := ring_modifyTcb ..

@[simp] theorem ring_hrtError (k : Kernel) (e : Err) : (k.hrtError e).ring = k.ring := by
  funext w; cases w <;> rfl

@[simp] theorem ring_hrtPendContextSwitch (k : Kernel) :
    k.hrtPendContextSwitch.ring = k.ring := by funext w; cases w <;> rfl

/-- Replacing a semaphore replaces its FIFO and no other. -/
theorem ring_setSem (k : Kernel) (i : ℕ) (s : Sem) :
    (k.setSem i s).ring = Function.update k.ring (.sem i) s.waitq := by
  funext w
  cases w with
  | sem j => by_cases h : j = i <;> simp [ring, setSem, h]
  | mutex j => simp [ring, setSem]
  | rx j => simp [ring, setSem]
  | tx j => simp [ring, setSem]

/-- Replacing a mutex replaces its FIFO and no other. -/
theorem ring_setMutex (k : Kernel) (i : ℕ) (m : Mutex) :
    (k.setMutex i m).ring = Function.update k.ring (.mutex i) m.waitq := by
  funext w
  cases w with
  | mutex j => by_cases h : j = i <;> simp [ring, setMutex, h]
  | sem j => simp [ring, setMutex]
  | rx j => simp [ring, setMutex]
  | tx j => simp [ring, setMutex]

/-- Replacing a message queue replaces its two FIFOs and no other. -/
theorem ring_setQueue (k : Kernel) (i : ℕ) (q : Queue) :
    (k.setQueue i q).ring =
      Function.update (Function.update k.ring (.rx i) q.rx) (.tx i) q.tx := by
  funext w
  cases w with
  | rx j => by_cases h : j = i <;> simp [ring, setQueue, h]
  | tx j => by_cases h : j = i <;> simp [ring, setQueue, h]
  | sem j => simp [ring, setQueue]
  | mutex j => simp [ring, setQueue]

/-- The two kernels hold the same semaphores, mutexes and message queues. -/
structure SameObjects (k k' : Kernel) : Prop where
  sems : k'.sems = k.sems
  mutexes : k'.mutexes = k.mutexes
  queues : k'.queues = k.queues

theorem SameObjects.refl (k : Kernel) : SameObjects k k := ⟨rfl, rfl, rfl⟩

theorem SameObjects.trans {k k₁ k₂ : Kernel} (h : SameObjects k k₁) (h' : SameObjects k₁ k₂) :
    SameObjects k k₂ :=
  ⟨h'.sems.trans h.sems, h'.mutexes.trans h.mutexes, h'.queues.trans h.queues⟩

/-- The wait FIFOs are part of the objects. -/
theorem SameObjects.ring {k k' : Kernel} (h : SameObjects k k') : k'.ring = k.ring := by
  funext w
  cases w <;> simp [Kernel.ring, h.sems, h.mutexes, h.queues]

end Kernel

end HardRT
