import HardRT.Core.ReadyQueue

/-! # Tasks and scheduling points

The task life cycle and the scheduling decisions of `src/core/hardrt_core.c`: initialisation, creation,
sleeping, yielding, deletion, `hrt__make_ready`, and the two places a switch is decided,
`hrt__on_scheduler_entry` (POSIX loop) and `hrt__schedule` (Cortex-M `PendSV`).

`hrt_sleep`, `hrt_yield` and `hrt_task_delete` end in `hrt__pend_context_switch()` followed by
`hrt_port_yield_to_scheduler()`; those two calls are separate steps of the calling task, so the
definitions here (`…Body`) stop before them. -/

namespace HardRT

open Lib

/-! ## Port hooks used by the core -/

/-- What the core takes from a port when it sets up contexts. -/
structure Port where
  /-- `hrt_port_prepare_task_stack` on a stack base and its size in words: an error code, or the
  stack pointer it stores with `_set_sp` (`none` when the port keeps contexts elsewhere). -/
  prepareTaskStack : ℕ → ℕ → Except Err (Option ℕ)
  /-- `hrt__init_idle_task`: the stack pointer stored for the idle slot, if any. -/
  initIdleTask : Option ℕ

/-- The POSIX port keeps contexts in `g_ctxs` and stores no stack pointer in a control block. -/
def Port.posix : Port where
  prepareTaskStack _ _ := .ok none
  initIdleTask := none

/-- The Cortex-M port: `hrt_port_prepare_task_stack` lays sixteen words below the stack end rounded
down to eight bytes, `hrt__init_idle_task` sixteen words below the end of `g_idle_stack`, which is
placed at `idleStack`. Addresses are 32 bits wide. -/
def Port.cortexM (idleStack : ℕ) : Port where
  prepareTaskStack base words :=
    let stackEnd := (base + 4 * words) % 2 ^ 32
    let stk := stackEnd - stackEnd % 8
    if stk ≤ base ∨ stackEnd < stk then .error .stackRange
    else
      let sp := (stk + 2 ^ 32 - 64) % 2 ^ 32
      if sp < base then .error .stackUnderflowInit else .ok (some sp)
  initIdleTask := some (idleStack + 4 * 64 - 64)

/-- `_set_sp`. -/
def setSp (id sp : ℕ) (k : Kernel) : Kernel :=
  (if sp = 0 then k.hrtError .spNull else k).modifyTcb id fun t => { t with sp := sp }

/-! ## Initialisation and creation -/

/-- `hrt_init`; `cfg = none` is a `NULL` configuration. The kernel objects are not the kernel's to
initialise and keep their contents. -/
def hrtInit (sz : Sizing) (port : Port) (cfg : Option KernelConfig) (k : Kernel) : Kernel :=
  let k := { k with
    tcbs := fun _ => { Tcb.zero with state := .unused }
    rq := fun _ => ⟨fun _ => 0, 0, 0, 0⟩
    tick := 0
    current := none }
  let k := match cfg with
    | some c => { k with
        tickHz := if c.tickHz = 0 then 1000 else c.tickHz
        policy := c.policy
        defaultSlice := if c.defaultSlice = 0 then 5 else c.defaultSlice }
    | none => { k with tickHz := 1000, policy := .priorityRr, defaultSlice := 5 }
  match port.initIdleTask with
  | some sp => setSp sz.idleId sp k
  | none => k

/-- The scan of `hrt_create_task` for the first free slot. -/
def firstUnused (sz : Sizing) (k : Kernel) : Option ℕ :=
  (List.range sz.maxTasks).find? fun i => k.stateOf i = .unused

/-- The priority `hrt_create_task` stores: the attribute's, or `HRT_PRIO1` for `NULL`. -/
def TaskArgs.prio (a : TaskArgs) : ℕ := (a.attr.elim 1 TaskAttr.priority) % 256

/-- The slice `hrt_create_task` stores: the attribute's, or the kernel default for `NULL`. -/
def TaskArgs.slice (a : TaskArgs) (k : Kernel) : ℕ :=
  (a.attr.elim k.defaultSlice TaskAttr.timeslice) % 65536

/-- The control block `hrt_create_task` builds, apart from the stack pointer. -/
def TaskArgs.tcb (a : TaskArgs) (k : Kernel) : Tcb :=
  { Tcb.zero with
    entry := a.fn
    arg := a.arg
    prio := a.prio
    timesliceCfg := a.slice k
    stackBase := a.stackWords
    stackWords := a.nWords }

/-- A control block made ready with a fresh quantum. -/
def Tcb.refill (t : Tcb) : Tcb := { t with state := .ready, sliceLeft := t.timesliceCfg }

/-- The first part of filling a slot: `memset`, the fields and the stack. -/
def clearAndFill (port : Port) (a : TaskArgs) (id : ℕ) (k : Kernel) : Kernel :=
  let k := k.modifyTcb id fun _ => a.tcb k
  match port.prepareTaskStack a.stackWords a.nWords with
  | .error e => k.hrtError e
  | .ok (some sp) => setSp id sp k
  | .ok none => k

/-- The task is ready, with a full slice. It is then pushed. -/
def markReady (id : ℕ) (k : Kernel) : Kernel := k.modifyTcb id Tcb.refill

/-- Fill slot `id`: clear and set the control block, build the stack, mark the task ready with a full
slice and enqueue it. -/
def fillSlot (sz : Sizing) (port : Port) (a : TaskArgs) (id : ℕ) (k : Kernel) : Kernel :=
  let k := markReady id (clearAndFill port a id k)
  rqPush sz (k.tcbs id).prio id k

/-- `hrt_create_task`; `none` is the return value `-1`. -/
def hrtCreateTask (sz : Sizing) (port : Port) (a : TaskArgs) (k : Kernel) : Option ℕ × Kernel :=
  if a.fn = 0 ∨ a.stackWords = 0 ∨ a.nWords < 64 then (none, k.hrtError .invalidTask)
  else match firstUnused sz k with
    | none => (none, k.hrtError .invalidId)
    | some id => (some id, fillSlot sz port a id k)

/-! ## Leaving the CPU -/

/-- `hrt__ms_to_ticks`: `ceil (ms * tick_hz / 1000)`, at least one tick, clamped to `UINT32_MAX`. -/
def hrtMsToTicks (ms tickHz : ℕ) : ℕ :=
  if ms = 0 ∨ tickHz = 0 then 1
  else
    let t := (ms * tickHz + 999) / 1000
    let t := if t = 0 then 1 else t
    if 2 ^ 32 - 1 < t then 2 ^ 32 - 1 else t

/-- The first store of `hrt_sleep`: `t->wake_tick = g_tick + ticks`. -/
def storeWakeTick (me ms : ℕ) (k : Kernel) : Kernel :=
  k.modifyTcb me fun t => { t with wakeTick := (k.tick + hrtMsToTicks ms k.tickHz) % 2 ^ 32 }

/-- The second store of `hrt_sleep`: `t->state = HRT_SLEEP`. -/
def storeSleep (me : ℕ) (k : Kernel) : Kernel := k.setState me .sleep

/-- `hrt_sleep` up to the reschedule request, its two stores taken together. No critical section holds
them together in the source: `System.Pieces` has them apart. -/
def hrtSleepBody (me ms : ℕ) (k : Kernel) : Kernel := storeSleep me (storeWakeTick me ms k)

/-- `hrt_yield` up to the reschedule request: a ready caller gets a fresh quantum and is appended to
its ready queue. No critical section holds this together in the source: `System.Pieces` has the refill
and the check and the updates of `rq_push` apart, behind the state test. -/
def hrtYieldBody (sz : Sizing) (me : ℕ) (k : Kernel) : Kernel :=
  if k.stateOf me = .ready then
    let k := k.modifyTcb me fun t => { t with sliceLeft := t.timesliceCfg }
    rqPush sz (k.tcbs me).prio me k
  else k

/-- `hrt_task_delete` up to the reschedule request, for a caller other than the idle slot. -/
def hrtTaskDeleteBody (me : ℕ) (k : Kernel) : Kernel := k.setState me .unused

/-! ## Becoming ready -/

/-- `hrt__make_ready`. -/
def hrtMakeReady (sz : Sizing) (id : ℕ) (k : Kernel) : Kernel :=
  let k := markReady id k
  rqPush sz (k.tcbs id).prio id k

/-! ## Scheduling points -/

/-- `hrt__on_scheduler_entry`: the task that just left the CPU is rotated if its quantum is used up.
With no current task the source would read outside the table; the scheduler loop never calls it so. -/
def hrtOnSchedulerEntry (sz : Sizing) (k : Kernel) : Kernel :=
  match k.current with
  | none => k
  | some cur =>
      if k.stateOf cur = .ready ∧ k.policy.sliced ∧ 0 < (k.tcbs cur).timesliceCfg ∧
          (k.tcbs cur).sliceLeft = 0 then
        let k := k.modifyTcb cur fun t => { t with sliceLeft := t.timesliceCfg }
        rqPush sz (k.tcbs cur).prio cur k
      else k

/-- The first half of `hrt__schedule`: save the outgoing stack pointer and requeue a ready outgoing
task, skipped on the first switch (`old_sp = 0`). With no current task the source would index outside
the table; that does not happen with a non-zero `old_sp`. -/
def saveOutgoing (sz : Sizing) (oldSp : ℕ) (k : Kernel) : Kernel :=
  if oldSp = 0 then k
  else match k.current with
    | none => k
    | some cur =>
        let k := setSp cur oldSp k
        if k.stateOf cur = .ready then rqPush sz (k.tcbs cur).prio cur k else k

/-- `hrt__schedule`: returns the stack pointer to resume and the new kernel state. -/
def hrtSchedule (sz : Sizing) (oldSp : ℕ) (k : Kernel) : ℕ × Kernel :=
  let r := hrtPickNextReady sz (saveOutgoing sz oldSp k)
  ((r.2.tcbs r.1).sp, { r.2 with current := some r.1 })

/-! ## Frames -/

section Frames

variable (sz : Sizing) (id sp ms : ℕ) (k : Kernel)

/-- The two stores of `hrt_sleep` as one change of the control block. -/
theorem hrtSleepBody_eq : hrtSleepBody id ms k = k.modifyTcb id fun t =>
    { t with wakeTick := (k.tick + hrtMsToTicks ms k.tickHz) % 2 ^ 32, state := .sleep } := by
  simp [hrtSleepBody, storeSleep, storeWakeTick, Kernel.setState, Kernel.modifyTcb]

/-- Going to sleep touches no other control block. -/
theorem hrtSleepBody_tcbs_of_ne {j : ℕ} (hj : j ≠ id) :
    (hrtSleepBody id ms k).tcbs j = k.tcbs j := by
  rw [hrtSleepBody_eq]
  exact Function.update_of_ne hj _ _

@[simp] theorem hrtMakeReady_tcbs :
    (hrtMakeReady sz id k).tcbs = Function.update k.tcbs id
      { k.tcbs id with state := .ready, sliceLeft := (k.tcbs id).timesliceCfg } := by
  simp [hrtMakeReady, markReady, Tcb.refill, Kernel.modifyTcb]

@[simp] theorem hrtMakeReady_current : (hrtMakeReady sz id k).current = k.current := by
  simp [hrtMakeReady, markReady, Kernel.modifyTcb]

@[simp] theorem hrtMakeReady_tick : (hrtMakeReady sz id k).tick = k.tick := by
  simp [hrtMakeReady, markReady, Kernel.modifyTcb]

@[simp] theorem hrtMakeReady_tickHz : (hrtMakeReady sz id k).tickHz = k.tickHz := by
  simp [hrtMakeReady, markReady, Kernel.modifyTcb]

@[simp] theorem hrtMakeReady_policy : (hrtMakeReady sz id k).policy = k.policy := by
  simp [hrtMakeReady, markReady, Kernel.modifyTcb]

@[simp] theorem hrtMakeReady_pend : (hrtMakeReady sz id k).pend = k.pend := by
  simp [hrtMakeReady, markReady, Kernel.modifyTcb]

@[simp] theorem hrtMakeReady_sems : (hrtMakeReady sz id k).sems = k.sems := by
  simp [hrtMakeReady, markReady, Kernel.modifyTcb]

@[simp] theorem hrtMakeReady_mutexes : (hrtMakeReady sz id k).mutexes = k.mutexes := by
  simp [hrtMakeReady, markReady, Kernel.modifyTcb]

@[simp] theorem hrtMakeReady_queues : (hrtMakeReady sz id k).queues = k.queues := by
  simp [hrtMakeReady, markReady, Kernel.modifyTcb]

@[simp] theorem hrtMakeReady_ring : (hrtMakeReady sz id k).ring = k.ring := by
  simp [hrtMakeReady, markReady]

/-- `hrt__make_ready` makes its argument ready and touches no other task's state. -/
@[simp] theorem stateOf_hrtMakeReady (j : ℕ) :
    (hrtMakeReady sz id k).stateOf j = if j = id then .ready else k.stateOf j := by
  unfold Kernel.stateOf
  rw [hrtMakeReady_tcbs]
  by_cases h : j = id
  · subst h; simp
  · simp [h]

@[simp] theorem setSp_rq : (setSp id sp k).rq = k.rq := by
  unfold setSp; split <;> rfl

@[simp] theorem setSp_current : (setSp id sp k).current = k.current := by
  unfold setSp; split <;> rfl

@[simp] theorem setSp_pend : (setSp id sp k).pend = k.pend := by
  unfold setSp; split <;> rfl

@[simp] theorem setSp_policy : (setSp id sp k).policy = k.policy := by
  unfold setSp; split <;> rfl

@[simp] theorem setSp_tick : (setSp id sp k).tick = k.tick := by
  unfold setSp; split <;> rfl

@[simp] theorem setSp_tickHz : (setSp id sp k).tickHz = k.tickHz := by
  unfold setSp; split <;> rfl

@[simp] theorem setSp_sems : (setSp id sp k).sems = k.sems := by
  unfold setSp; split <;> rfl

@[simp] theorem setSp_mutexes : (setSp id sp k).mutexes = k.mutexes := by
  unfold setSp; split <;> rfl

@[simp] theorem setSp_queues : (setSp id sp k).queues = k.queues := by
  unfold setSp; split <;> rfl

@[simp] theorem setSp_tcbs :
    (setSp id sp k).tcbs = Function.update k.tcbs id { k.tcbs id with sp := sp } := by
  unfold setSp; split <;> rfl

@[simp] theorem setSp_ring : (setSp id sp k).ring = k.ring := by
  unfold setSp; split <;> simp

/-- Storing a stack pointer changes no task's state. -/
@[simp] theorem stateOf_setSp (j : ℕ) : (setSp id sp k).stateOf j = k.stateOf j := by
  unfold Kernel.stateOf
  rw [setSp_tcbs]
  by_cases h : j = id
  · subst h; simp
  · simp [h]

/-- After `hrt_init` every slot is free. -/
theorem stateOf_hrtInit (port : Port) (cfg : Option KernelConfig) (j : ℕ) :
    (hrtInit sz port cfg k).stateOf j = .unused := by
  unfold hrtInit
  simp only
  split
  · rw [stateOf_setSp]
    cases cfg <;> rfl
  · cases cfg <;> rfl

/-- After `hrt_init` no slot has a quantum. -/
theorem hrtInit_slice (port : Port) (cfg : Option KernelConfig) (j : ℕ) :
    ((hrtInit sz port cfg k).tcbs j).sliceLeft = 0 ∧
    ((hrtInit sz port cfg k).tcbs j).timesliceCfg = 0 := by
  have hset : ∀ (id sp : ℕ) (k : Kernel), ((setSp id sp k).tcbs j).sliceLeft = (k.tcbs j).sliceLeft ∧
      ((setSp id sp k).tcbs j).timesliceCfg = (k.tcbs j).timesliceCfg := by
    intro id sp k
    rw [setSp_tcbs]
    by_cases hj : j = id
    · subst hj; simp
    · simp [hj]
  unfold hrtInit
  simp only
  split
  · rw [(hset _ _ _).1, (hset _ _ _).2]
    cases cfg <;> exact ⟨rfl, rfl⟩
  · cases cfg <;> exact ⟨rfl, rfl⟩

/-- After `hrt_init` every ready queue is empty and no task is current. -/
theorem hrtInit_frame (port : Port) (cfg : Option KernelConfig) :
    (hrtInit sz port cfg k).rq = (fun _ => ⟨fun _ => 0, 0, 0, 0⟩) ∧
    (hrtInit sz port cfg k).current = none ∧ (hrtInit sz port cfg k).pend = k.pend := by
  unfold hrtInit
  simp only
  split
  · rw [setSp_rq, setSp_current, setSp_pend]
    cases cfg <;> exact ⟨rfl, rfl, rfl⟩
  · cases cfg <;> exact ⟨rfl, rfl, rfl⟩

/-- Yielding changes no task's state. -/
@[simp] theorem stateOf_hrtYieldBody (j : ℕ) : (hrtYieldBody sz id k).stateOf j = k.stateOf j := by
  unfold hrtYieldBody
  split
  · simp only [Kernel.stateOf, rqPush_tcbs, Kernel.modifyTcb]
    by_cases h : j = id
    · subst h; simp
    · simp [h]
  · rfl

@[simp] theorem hrtYieldBody_ring : (hrtYieldBody sz id k).ring = k.ring := by
  unfold hrtYieldBody
  split <;> simp

/-- `hrt__make_ready` pushes the task to the queue of its priority. -/
theorem hrtMakeReady_rq : (hrtMakeReady sz id k).rq = (rqPush sz (k.tcbs id).prio id k).rq := by
  simp only [hrtMakeReady, markReady, Kernel.modifyTcb, Function.update_self]
  exact rqPush_rq_congr (by rfl) _ _

/-- The body of `hrt_yield` pushes a ready caller to the queue of its priority. -/
theorem hrtYieldBody_rq (hst : k.stateOf id = .ready) :
    (hrtYieldBody sz id k).rq = (rqPush sz (k.tcbs id).prio id k).rq := by
  rw [hrtYieldBody, if_pos hst]
  simp only [Kernel.modifyTcb, Function.update_self]
  exact rqPush_rq_congr (by rfl) _ _

/-- Yielding touches no kernel object. -/
theorem hrtYieldBody_objects : k.SameObjects (hrtYieldBody sz id k) := by
  unfold hrtYieldBody
  split
  · constructor <;> simp [Kernel.modifyTcb]
  · exact Kernel.SameObjects.refl k

end Frames

/-! ## What creation and scheduling change -/

section Specs

variable {sz : Sizing} {port : Port} {a : TaskArgs} {id : ℕ} {k : Kernel}

/-- The control block of a freshly created task; only the stack pointer depends on the port. -/
def TaskArgs.readyTcb (a : TaskArgs) (k : Kernel) (sp : ℕ) : Tcb :=
  { a.tcb k with sp := sp, state := .ready, sliceLeft := a.slice k }

/-- **Clearing and filling a slot** writes that slot's control block; its stack pointer is the one the
port has stored. -/
theorem clearAndFill_spec (port : Port) (a : TaskArgs) (id : ℕ) (k : Kernel) :
    ∃ sp e, clearAndFill port a id k = { k with
        tcbs := Function.update k.tcbs id { a.tcb k with sp := sp }
        error := e } ∧
      ∀ sp', port.prepareTaskStack a.stackWords a.nWords = .ok (some sp') → sp = sp' := by
  unfold clearAndFill
  rcases port.prepareTaskStack a.stackWords a.nWords with e | sp
  · exact ⟨0, e, by simp [Kernel.modifyTcb, Kernel.hrtError, TaskArgs.tcb, Tcb.zero], by simp⟩
  · cases sp with
    | none => exact ⟨0, k.error, by simp [Kernel.modifyTcb, TaskArgs.tcb, Tcb.zero], by simp⟩
    | some sp =>
        by_cases h : sp = 0
        · exact ⟨sp, .spNull, by simp [Kernel.modifyTcb, setSp, h, Kernel.hrtError], by simp⟩
        · exact ⟨sp, k.error, by simp [Kernel.modifyTcb, setSp, h], by simp⟩

/-- Clearing and filling a slot touches no ready queue. -/
@[simp] theorem clearAndFill_rq (port : Port) (a : TaskArgs) (id : ℕ) (k : Kernel) :
    (clearAndFill port a id k).rq = k.rq := by
  obtain ⟨sp, e, heq, -⟩ := clearAndFill_spec port a id k
  rw [heq]

/-- **`hrt_create_task` on a free slot** writes that slot's control block and pushes the slot. -/
theorem fillSlot_spec (sz : Sizing) (port : Port) (a : TaskArgs) (id : ℕ) (k : Kernel) :
    ∃ sp e, fillSlot sz port a id k =
      rqPush sz a.prio id { k with
        tcbs := Function.update k.tcbs id (a.readyTcb k sp)
        error := e } := by
  obtain ⟨sp, e, heq, -⟩ := clearAndFill_spec port a id k
  refine ⟨sp, e, ?_⟩
  rw [fillSlot, heq]
  simp [markReady, Tcb.refill, Kernel.modifyTcb, TaskArgs.readyTcb, TaskArgs.tcb]

/-- The slot found by the scan is in range and free. -/
theorem firstUnused_spec (h : firstUnused sz k = some id) :
    id < sz.maxTasks ∧ k.stateOf id = .unused := by
  refine ⟨List.mem_range.mp (List.mem_of_find?_eq_some h), ?_⟩
  simpa using List.find?_some h

/-- **`hrt_create_task`** either fails and only latches an error, or fills the first free slot. -/
theorem hrtCreateTask_cases (sz : Sizing) (port : Port) (a : TaskArgs) (k : Kernel) :
    (∃ e, hrtCreateTask sz port a k = (none, k.hrtError e)) ∨
    ∃ id sp e, id < sz.maxTasks ∧ k.stateOf id = .unused ∧
      hrtCreateTask sz port a k = (some id, rqPush sz a.prio id { k with
        tcbs := Function.update k.tcbs id (a.readyTcb k sp)
        error := e }) := by
  unfold hrtCreateTask
  split
  · exact Or.inl ⟨_, rfl⟩
  · split
    · exact Or.inl ⟨_, rfl⟩
    · rename_i id hid
      obtain ⟨sp, e, heq⟩ := fillSlot_spec sz port a id k
      obtain ⟨hlt, hun⟩ := firstUnused_spec hid
      exact Or.inr ⟨id, sp, e, hlt, hun, by rw [heq]⟩

/-- What `hrt_create_task` returns is decided by its first check and the scan. -/
theorem hrtCreateTask_fst (sz : Sizing) (port : Port) (a : TaskArgs) (k : Kernel) :
    (hrtCreateTask sz port a k).1 =
      if a.fn = 0 ∨ a.stackWords = 0 ∨ a.nWords < 64 then none else firstUnused sz k := by
  unfold hrtCreateTask
  split_ifs
  · rfl
  · split
    · rename_i hid
      exact hid.symm
    · rename_i id hid
      exact hid.symm

/-- Creation touches no kernel object. -/
theorem hrtCreateTask_objects (sz : Sizing) (port : Port) (a : TaskArgs) (k : Kernel) :
    k.SameObjects (hrtCreateTask sz port a k).2 := by
  rcases hrtCreateTask_cases sz port a k with ⟨e, h⟩ | ⟨id, sp, e, -, -, h⟩
  · rw [h]
    exact ⟨rfl, rfl, rfl⟩
  · rw [h]
    constructor <;> simp

/-- The arguments pass the first check of `hrt_create_task`. -/
def TaskArgs.Valid (a : TaskArgs) : Prop := a.fn ≠ 0 ∧ a.stackWords ≠ 0 ∧ 64 ≤ a.nWords

instance (a : TaskArgs) : Decidable a.Valid := inferInstanceAs (Decidable (_ ∧ _))

/-- **The slot a creation comes to**, if it is not refused. -/
def createdSlot (sz : Sizing) (k : Kernel) (a : TaskArgs) : Option ℕ :=
  if a.Valid then firstUnused sz k else none

/-- It is the slot that the scan finds. -/
theorem firstUnused_of_createdSlot {sz : Sizing} {k : Kernel} {a : TaskArgs} {id : ℕ}
    (h : createdSlot sz k a = some id) : firstUnused sz k = some id := by
  unfold createdSlot at h
  split_ifs at h
  exact h

/-- It is what `hrt_create_task` returns. -/
theorem hrtCreateTask_slot (sz : Sizing) (port : Port) (a : TaskArgs) (k : Kernel) :
    (hrtCreateTask sz port a k).1 = createdSlot sz k a := by
  rw [hrtCreateTask_fst, createdSlot]
  by_cases ha : a.Valid
  · rw [if_pos ha, if_neg]
    rintro (h | h | h)
    · exact ha.1 h
    · exact ha.2.1 h
    · exact absurd ha.2.2 (by omega)
  · rw [if_neg ha, if_pos]
    by_contra hargs
    rw [not_or, not_or] at hargs
    exact ha ⟨hargs.1, hargs.2.1, by omega⟩

/-- The creation does not come to the idle slot. -/
def SparesIdle (sz : Sizing) (k : Kernel) (a : TaskArgs) : Prop :=
  createdSlot sz k a ≠ some sz.idleId

instance (sz : Sizing) (k : Kernel) (a : TaskArgs) : Decidable (SparesIdle sz k a) :=
  inferInstanceAs (Decidable (_ ≠ _))

/-- A creation that spares the idle slot returns another one. -/
theorem SparesIdle.create_ne {sz : Sizing} {k : Kernel} {a : TaskArgs} (h : SparesIdle sz k a)
    (port : Port) : (hrtCreateTask sz port a k).1 ≠ some sz.idleId := by
  rw [hrtCreateTask_slot]
  exact h

/-- The slot a creation fills is a free slot of the table. -/
theorem hrtCreateTask_some {sz : Sizing} {port : Port} {a : TaskArgs} {k : Kernel} {id : ℕ}
    (h : (hrtCreateTask sz port a k).1 = some id) : id < sz.maxTasks ∧ k.stateOf id = .unused := by
  rcases hrtCreateTask_cases sz port a k with ⟨e, he⟩ | ⟨id', sp, e, hlt, hun, he⟩
  · rw [he] at h
    exact absurd h (by simp)
  · rw [he] at h
    obtain rfl := Option.some.inj h
    exact ⟨hlt, hun⟩

/-- The slot a creation fills is the one the scan finds. -/
theorem hrtCreateTask_firstUnused {sz : Sizing} {port : Port} {a : TaskArgs} {k : Kernel} {id : ℕ}
    (h : (hrtCreateTask sz port a k).1 = some id) : firstUnused sz k = some id := by
  rw [hrtCreateTask_fst] at h
  split_ifs at h
  exact h

/-- **A creation that returns a slot** has filled it, and its stack has at least 64 words. -/
theorem hrtCreateTask_eq_fillSlot {sz : Sizing} {port : Port} {a : TaskArgs} {k : Kernel} {id : ℕ}
    (h : (hrtCreateTask sz port a k).1 = some id) :
    64 ≤ a.nWords ∧ (hrtCreateTask sz port a k).2 = fillSlot sz port a id k := by
  unfold hrtCreateTask at h ⊢
  split at h
  · exact absurd h (by simp)
  · rename_i hargs
    rw [if_neg hargs]
    split at h
    · exact absurd h (by simp)
    · rename_i id' hid'
      obtain rfl := Option.some.inj h
      exact ⟨by omega, rfl⟩

/-- The stack pointer of a filled slot is the one the port stored. -/
theorem fillSlot_sp {sz : Sizing} {port : Port} {a : TaskArgs} {id sp : ℕ} {k : Kernel}
    (h : port.prepareTaskStack a.stackWords a.nWords = .ok (some sp)) :
    ((fillSlot sz port a id k).tcbs id).sp = sp := by
  simp [fillSlot, clearAndFill, markReady, Tcb.refill, h, Kernel.modifyTcb]

/-- Creation makes the slot it fills ready and changes no other state. -/
theorem hrtCreateTask_stateOf (sz : Sizing) (port : Port) (a : TaskArgs) (k : Kernel) (j : ℕ) :
    (hrtCreateTask sz port a k).2.stateOf j =
      if (hrtCreateTask sz port a k).1 = some j then .ready else k.stateOf j := by
  rcases hrtCreateTask_cases sz port a k with ⟨e, h⟩ | ⟨id, sp, e, -, hun, h⟩
  · rw [h]
    rfl
  · rw [h, Kernel.stateOf, rqPush_tcbs]
    by_cases hj : j = id
    · subst hj
      simp [TaskArgs.readyTcb]
    · simp [hj, Ne.symm hj, Kernel.stateOf]

/-- Creation neither blocks nor unblocks a task. -/
theorem hrtCreateTask_blocked_iff (sz : Sizing) (port : Port) (a : TaskArgs) (k : Kernel) (j : ℕ) :
    (hrtCreateTask sz port a k).2.stateOf j = .blocked ↔ k.stateOf j = .blocked := by
  rw [hrtCreateTask_stateOf]
  split_ifs with h
  · rw [(hrtCreateTask_some h).2]
    simp
  · rfl

/-- A slot that creation leaves free was free. -/
theorem hrtCreateTask_unused {sz : Sizing} {port : Port} {a : TaskArgs} {k : Kernel} {j : ℕ}
    (h : (hrtCreateTask sz port a k).2.stateOf j = .unused) : k.stateOf j = .unused := by
  rw [hrtCreateTask_stateOf] at h
  split_ifs at h
  exact h

/-- Creation leaves the current task, the policy and the pending request alone. -/
theorem hrtCreateTask_frame (sz : Sizing) (port : Port) (a : TaskArgs) (k : Kernel) :
    (hrtCreateTask sz port a k).2.current = k.current ∧
    (hrtCreateTask sz port a k).2.policy = k.policy ∧
    (hrtCreateTask sz port a k).2.pend = k.pend := by
  rcases hrtCreateTask_cases sz port a k with ⟨e, h⟩ | ⟨id, sp, e, -, -, h⟩
  · rw [h]
    exact ⟨rfl, rfl, rfl⟩
  · rw [h]
    refine ⟨?_, ?_, ?_⟩ <;> simp

/-- `rq_push` touches ready queues and the error latch only. -/
theorem rqPush_frame (sz : Sizing) (p id : ℕ) (k : Kernel) :
    ∃ rq e, rqPush sz p id k = { k with rq := rq, error := e } := by
  unfold rqPush
  split_ifs
  · exact ⟨k.rq, _, rfl⟩
  · exact ⟨k.rq, _, rfl⟩
  · exact ⟨_, k.error, rfl⟩

/-- **The outgoing half of `hrt__schedule`** stores a stack pointer and may push. -/
theorem saveOutgoing_frame (sz : Sizing) (oldSp : ℕ) (k : Kernel) :
    ∃ (sp : ℕ → ℕ) (rq : ℕ → RingBuffer ℕ) (e : Err), saveOutgoing sz oldSp k = { k with
      tcbs := fun j => { k.tcbs j with sp := sp j }
      rq := rq
      error := e } := by
  have hsame : k = { k with
      tcbs := fun j => { k.tcbs j with sp := (k.tcbs j).sp }, rq := k.rq, error := k.error } := rfl
  unfold saveOutgoing
  split
  · exact ⟨_, _, _, hsame⟩
  · rename_i h0
    split
    · exact ⟨_, _, _, hsame⟩
    · rename_i cur _
      have hset : setSp cur oldSp k = { k with
          tcbs := fun j => { k.tcbs j with sp := if j = cur then oldSp else (k.tcbs j).sp } } := by
        rw [setSp, if_neg h0, Kernel.modifyTcb]
        congr 1
        funext j
        by_cases hj : j = cur
        · subst hj; simp
        · simp [hj]
      simp only
      split
      · obtain ⟨rq, e, hpush⟩ := rqPush_frame sz ((setSp cur oldSp k).tcbs cur).prio cur
          (setSp cur oldSp k)
        exact ⟨_, rq, e, by rw [hpush, hset]⟩
      · exact ⟨_, _, _, hset⟩

/-- A ready outgoing task is pushed to the queue of its priority. -/
theorem saveOutgoing_of_ready {sz : Sizing} {oldSp t : ℕ} {k : Kernel} (h0 : oldSp ≠ 0)
    (hcur : k.current = some t) (hst : k.stateOf t = .ready) :
    saveOutgoing sz oldSp k = rqPush sz (k.tcbs t).prio t (setSp t oldSp k) := by
  have hprio : ((setSp t oldSp k).tcbs t).prio = (k.tcbs t).prio := by simp
  unfold saveOutgoing
  rw [if_neg h0, hcur]
  simp only
  rw [stateOf_setSp, if_pos hst, hprio]

/-- Unless the outgoing task is ready, nobody is pushed. -/
theorem saveOutgoing_rq {sz : Sizing} {oldSp : ℕ} {k : Kernel}
    (h : ∀ t, k.current = some t → k.stateOf t ≠ .ready) : (saveOutgoing sz oldSp k).rq = k.rq := by
  unfold saveOutgoing
  split
  · rfl
  · split
    · rfl
    · rename_i t ht
      simp only
      rw [stateOf_setSp, if_neg (h t ht), setSp_rq]

/-- The stack pointers after the outgoing half: the one passed in is stored for the outgoing task. -/
theorem saveOutgoing_sp (sz : Sizing) (oldSp : ℕ) (k : Kernel) (j : ℕ) :
    ((saveOutgoing sz oldSp k).tcbs j).sp =
      if oldSp ≠ 0 ∧ k.current = some j then oldSp else (k.tcbs j).sp := by
  unfold saveOutgoing
  split_ifs with h0 h h
  · exact absurd h0 h.1
  · rfl
  · rw [h.2]
    simp only
    split <;> simp
  · split
    · rfl
    · rename_i cur hcur
      have hj : j ≠ cur := fun hj => h ⟨h0, hj ▸ hcur⟩
      simp only
      split <;> simp [hj]

/-- **`hrt__schedule`** changes stack pointers, ready queues, `g_current` and the error latch. -/
theorem hrtSchedule_frame (sz : Sizing) (oldSp : ℕ) (k : Kernel) :
    ∃ (sp : ℕ → ℕ) (rq : ℕ → RingBuffer ℕ) (cur : ℕ) (e : Err), (hrtSchedule sz oldSp k).2 = { k with
      tcbs := fun j => { k.tcbs j with sp := sp j }
      rq := rq
      current := some cur
      error := e } := by
  obtain ⟨sp, rq, e, hsave⟩ := saveOutgoing_frame sz oldSp k
  obtain ⟨rq', hpick⟩ := hrtPickNextReady_frame sz (saveOutgoing sz oldSp k)
  refine ⟨sp, rq', (hrtPickNextReady sz (saveOutgoing sz oldSp k)).1, e, ?_⟩
  rw [hrtSchedule]
  simp only
  rw [hpick, hsave]

/-- The outgoing half changes neither states nor priorities. -/
theorem saveOutgoing_same (sz : Sizing) (oldSp : ℕ) (k : Kernel) (id : ℕ) :
    (saveOutgoing sz oldSp k).stateOf id = k.stateOf id ∧
    ((saveOutgoing sz oldSp k).tcbs id).prio = (k.tcbs id).prio := by
  obtain ⟨sp, rq, e, heq⟩ := saveOutgoing_frame sz oldSp k
  rw [heq]
  exact ⟨rfl, rfl⟩

/-- A switch changes no task's state, priority, quantum or wake tick. -/
theorem hrtSchedule_same (sz : Sizing) (oldSp : ℕ) (k : Kernel) (id : ℕ) :
    (hrtSchedule sz oldSp k).2.stateOf id = k.stateOf id ∧
    ((hrtSchedule sz oldSp k).2.tcbs id).prio = (k.tcbs id).prio ∧
    ((hrtSchedule sz oldSp k).2.tcbs id).sliceLeft = (k.tcbs id).sliceLeft ∧
    ((hrtSchedule sz oldSp k).2.tcbs id).wakeTick = (k.tcbs id).wakeTick := by
  obtain ⟨sp, rq, cur, e, heq⟩ := hrtSchedule_frame sz oldSp k
  rw [heq]
  exact ⟨rfl, rfl, rfl, rfl⟩

/-- **The stack pointers after a switch**, and the one it returns: that of the task made current. -/
theorem hrtSchedule_sp (sz : Sizing) (oldSp : ℕ) (k : Kernel) :
    (∀ j, ((hrtSchedule sz oldSp k).2.tcbs j).sp =
      if oldSp ≠ 0 ∧ k.current = some j then oldSp else (k.tcbs j).sp) ∧
    ∃ i, (hrtSchedule sz oldSp k).2.current = some i ∧
      (hrtSchedule sz oldSp k).1 = ((hrtSchedule sz oldSp k).2.tcbs i).sp := by
  refine ⟨fun j => ?_, _, rfl, rfl⟩
  obtain ⟨rq, hpick⟩ := hrtPickNextReady_frame sz (saveOutgoing sz oldSp k)
  rw [← saveOutgoing_sp, hrtSchedule]
  simp only
  rw [hpick]

/-- **`hrt__on_scheduler_entry`** changes one quantum, ready queues and the error latch. -/
theorem hrtOnSchedulerEntry_frame (sz : Sizing) (k : Kernel) :
    ∃ (n : ℕ → ℕ) (rq : ℕ → RingBuffer ℕ) (e : Err), hrtOnSchedulerEntry sz k = { k with
      tcbs := fun j => { k.tcbs j with sliceLeft := n j }
      rq := rq
      error := e } := by
  have hsame : k = { k with
      tcbs := fun j => { k.tcbs j with sliceLeft := (k.tcbs j).sliceLeft }, rq := k.rq,
      error := k.error } := rfl
  unfold hrtOnSchedulerEntry
  split
  · exact ⟨_, _, _, hsame⟩
  · rename_i cur _
    split
    · simp only
      obtain ⟨rq, e, h⟩ := rqPush_frame sz
        ((k.modifyTcb cur fun t => { t with sliceLeft := t.timesliceCfg }).tcbs cur).prio cur
        (k.modifyTcb cur fun t => { t with sliceLeft := t.timesliceCfg })
      refine ⟨fun j => if j = cur then (k.tcbs j).timesliceCfg else (k.tcbs j).sliceLeft, rq, e, ?_⟩
      rw [h, Kernel.modifyTcb]
      congr 1
      funext j
      by_cases hj : j = cur
      · subst hj; simp
      · simp [hj]
    · exact ⟨_, _, _, hsame⟩

/-- `hrt__on_scheduler_entry` leaves a quantum alone or refills it. -/
theorem hrtOnSchedulerEntry_tcbs (sz : Sizing) (k : Kernel) (j : ℕ) :
    (hrtOnSchedulerEntry sz k).tcbs j = k.tcbs j ∨
    (hrtOnSchedulerEntry sz k).tcbs j = { k.tcbs j with sliceLeft := (k.tcbs j).timesliceCfg } := by
  unfold hrtOnSchedulerEntry
  split
  · exact Or.inl rfl
  · rename_i cur _
    split
    · simp only [rqPush_tcbs, Kernel.modifyTcb]
      by_cases hj : j = cur
      · subst hj
        exact Or.inr (Function.update_self j _ _)
      · exact Or.inl (Function.update_of_ne hj _ _)
    · exact Or.inl rfl

/-- `hrt__on_scheduler_entry` does not touch `g_current`. -/
theorem hrtOnSchedulerEntry_current (sz : Sizing) (k : Kernel) :
    (hrtOnSchedulerEntry sz k).current = k.current := by
  obtain ⟨n, rq, e, h⟩ := hrtOnSchedulerEntry_frame sz k
  rw [h]

/-- `hrt__on_scheduler_entry` does nothing for a task that is not ready. -/
theorem hrtOnSchedulerEntry_of_not_ready (sz : Sizing) {k : Kernel} {cur : ℕ} (hcur : k.current = some cur)
    (hst : k.stateOf cur ≠ .ready) : hrtOnSchedulerEntry sz k = k := by
  unfold hrtOnSchedulerEntry
  rw [hcur]
  exact if_neg fun h => hst h.1

/-- `hrt__on_scheduler_entry` does not touch the reschedule request. -/
theorem hrtOnSchedulerEntry_pend (sz : Sizing) (k : Kernel) :
    (hrtOnSchedulerEntry sz k).pend = k.pend := by
  obtain ⟨n, rq, e, h⟩ := hrtOnSchedulerEntry_frame sz k
  rw [h]

end Specs

/-! ## Growth of the ready queues -/

namespace ReadyGrows

variable {sz : Sizing} {k : Kernel}

/-- `hrt__make_ready`. -/
theorem makeReady (hwf : ReadyWF sz k) (hr : sz.Representable) {id : ℕ} (hid : id < sz.maxTasks) :
    ReadyGrows sz k (hrtMakeReady sz id k) := by
  have hset : ReadyGrows sz k
      (k.modifyTcb id fun t => { t with state := .ready, sliceLeft := t.timesliceCfg }) :=
    of_rq hwf rfl
  exact hset.then_push hr hid (by simp [Kernel.stateOf, Kernel.modifyTcb])

/-- The body of `hrt_yield`. -/
theorem yieldBody (hwf : ReadyWF sz k) (hr : sz.Representable) {t : ℕ} (ht : t < sz.maxTasks) :
    ReadyGrows sz k (hrtYieldBody sz t k) := by
  unfold hrtYieldBody
  split
  · rename_i hst
    have hset : ReadyGrows sz k (k.modifyTcb t fun t => { t with sliceLeft := t.timesliceCfg }) :=
      of_rq hwf rfl
    exact hset.then_push hr ht (by simpa [Kernel.stateOf, Kernel.modifyTcb] using hst)
  · exact of_rq hwf rfl

/-- `hrt_create_task`. -/
theorem create (hwf : ReadyWF sz k) (hr : sz.Representable) (port : Port) (a : TaskArgs) :
    ReadyGrows sz k (hrtCreateTask sz port a k).2 := by
  rcases hrtCreateTask_cases sz port a k with ⟨e, he⟩ | ⟨id, sp, e, hlt, -, he⟩
  · rw [he]
    exact of_rq hwf rfl
  · rw [he]
    have hset : ReadyGrows sz k
        { k with tcbs := Function.update k.tcbs id (a.readyTcb k sp), error := e } := of_rq hwf rfl
    have hpush := hset.then_push hr hlt (by simp [Kernel.stateOf, TaskArgs.readyTcb])
    simp only [Function.update_self] at hpush
    exact hpush

/-- `hrt__on_scheduler_entry`. -/
theorem entry (hwf : ReadyWF sz k) (hr : sz.Representable)
    (hcur : ∀ t, k.current = some t → t < sz.maxTasks) :
    ReadyGrows sz k (hrtOnSchedulerEntry sz k) := by
  unfold hrtOnSchedulerEntry
  split
  · exact of_rq hwf rfl
  · rename_i cur hc
    split
    · rename_i hcond
      have hset : ReadyGrows sz k
          (k.modifyTcb cur fun t => { t with sliceLeft := t.timesliceCfg }) := of_rq hwf rfl
      refine hset.then_push hr (hcur cur hc) ?_
      simpa [Kernel.stateOf, Kernel.modifyTcb] using hcond.1
    · exact of_rq hwf rfl

/-- The outgoing half of `hrt__schedule`. -/
theorem saveOutgoing (hwf : ReadyWF sz k) (hr : sz.Representable) (oldSp : ℕ)
    (hcur : ∀ t, k.current = some t → k.stateOf t = .ready → t < sz.maxTasks) :
    ReadyGrows sz k (saveOutgoing sz oldSp k) := by
  unfold HardRT.saveOutgoing
  split
  · exact of_rq hwf rfl
  · split
    · exact of_rq hwf rfl
    · rename_i cur hc
      have hset : ReadyGrows sz k (setSp cur oldSp k) := of_rq hwf (setSp_rq cur oldSp k)
      dsimp only
      split
      · rename_i hst
        have hlt := hcur cur hc (by rwa [stateOf_setSp] at hst)
        exact hset.then_push hr hlt hst
      · exact hset

end ReadyGrows

/-- **A switch.** The queues grow by the outgoing task at most. The new current task is the idle slot,
all queues being empty, or an entry of the first queue that was not empty: one from before, or a ready
task in the queue of its priority. -/
theorem schedule_entry {sz : Sizing} {k : Kernel} (hr : sz.Representable) (hwf : ReadyWF sz k)
    (oldSp : ℕ) (hcur : ∀ t, k.current = some t → k.stateOf t = .ready → t < sz.maxTasks) :
    ReadyGrows sz k (hrtSchedule sz oldSp k).2 ∧
    (((∀ p < sz.maxPrio, (hrtSchedule sz oldSp k).2.readyList sz p = []) ∧
        (hrtSchedule sz oldSp k).2.current = some sz.idleId) ∨
      ∃ p id, p < sz.maxPrio ∧ (hrtSchedule sz oldSp k).2.current = some id ∧
        (∀ q < p, (hrtSchedule sz oldSp k).2.readyList sz q = []) ∧
        (id ∈ k.readyList sz p ∨ (k.stateOf id = .ready ∧ (k.tcbs id).prio = p))) := by
  have hsave := ReadyGrows.saveOutgoing hwf hr oldSp hcur
  have hkeep := saveOutgoing_same sz oldSp k
  have hsame : ∀ id, (hrtSchedule sz oldSp k).2.stateOf id = (saveOutgoing sz oldSp k).stateOf id ∧
      ((hrtSchedule sz oldSp k).2.tcbs id).prio = ((saveOutgoing sz oldSp k).tcbs id).prio := fun id =>
    ⟨(hrtSchedule_same sz oldSp k id).1.trans (hkeep id).1.symm,
      (hrtSchedule_same sz oldSp k id).2.1.trans (hkeep id).2.symm⟩
  have htrans : ReadyGrows sz (saveOutgoing sz oldSp k) (hrtSchedule sz oldSp k).2 →
      ReadyGrows sz k (hrtSchedule sz oldSp k).2 := fun h =>
    hsave.trans h fun id hst => ⟨(hsame id).1.trans hst, (hsame id).2⟩
  rcases pick_entry hr hsave.wf with ⟨hempty, heq⟩ | ⟨p, hp, hpre, hid, hwf', hsub⟩
  · refine ⟨htrans (.of_rq hsave.wf ?_), Or.inl ⟨fun p hp => ?_, ?_⟩⟩
    · simp only [hrtSchedule, heq]
    · simp only [hrtSchedule, heq]
      exact hempty p hp
    · simp only [hrtSchedule, heq]
  · refine ⟨htrans (.of_subset hwf' hsub), Or.inr ⟨p, _, hp, rfl, fun q hq => ?_, ?_⟩⟩
    · refine List.eq_nil_iff_forall_not_mem.mpr fun id hid' => ?_
      have hmem := hsub q (hq.trans hp) id hid'
      rw [hpre q hq] at hmem
      exact absurd hmem List.not_mem_nil
    · refine (hsave.mem p hp _ hid).imp_right fun ⟨hst, hprio⟩ => ?_
      exact ⟨(hkeep _).1.symm.trans hst, (hkeep _).2.symm.trans hprio⟩

end HardRT
