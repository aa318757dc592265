import HardRT.Lib.Machine
import HardRT.System.Effect

/-! # Arbitrary interleavings

The machine of the kernel-object results: any task may take its next action at any time, interrupts and
ticks arrive at any time, and the scheduler may do any of its own moves at any time.

The one restriction is the contract of blocking: a task that is blocked does not enter an API function
(`Sys.MayAct`); it waits for `hrt__make_ready`. The ports keep to it as long as no stale entry of a ready
queue resumes a blocked task. Their runs of that kind are runs of this machine
(`CortexM.refines_interleave`, `Posix.refines_interleave`), so that what holds in all its runs holds in
them; of the port runs in which a blocked task is resumed it says nothing.

* `Interleave.step` — the machine.
* `Interleave.step_cases` — what a step can be, seen from the kernel objects.
* `WaitsParked` — the second half of the contract, assumed where it matters: a call that has parked goes
  on only after its task was made ready.
* `LivesOn` — its counterpart for deletion: a deleted task runs no further than to the switch. -/

namespace HardRT

open Lib

/-- The moves of the schedulers of the two ports, each one core function or one flag access. -/
inductive SchedOp
  /-- `hrt__pend_context_switch`. -/
  | pend
  /-- The request is taken: `PendSV` is entered, or `g_switch_pending = 0`. -/
  | unpend
  /-- `hrt__schedule`. -/
  | schedule (oldSp : ℕ)
  /-- `hrt__pick_next_ready`. -/
  | pick
  /-- `hrt__set_current`. -/
  | setCurrent (t : ℕ)
  /-- `hrt__on_scheduler_entry`. -/
  | entry
  deriving DecidableEq, Repr

/-- A move of a scheduler. -/
def SchedOp.run (sz : Sizing) (k : Kernel) : SchedOp → Kernel
  | .pend => k.hrtPendContextSwitch
  | .unpend => { k with pend := false }
  | .schedule oldSp => (hrtSchedule sz oldSp k).2
  | .pick => (hrtPickNextReady sz k).2
  | .setCurrent t => { k with current := some t }
  | .entry => hrtOnSchedulerEntry sz k

/-- A blocked task does not enter an API function. -/
def Sys.MayAct (s : Sys) (t : ℕ) : Prop :=
  (s.conts t).issues = true → s.k.stateOf t ≠ .blocked

instance (s : Sys) (t : ℕ) : Decidable (s.MayAct t) :=
  inferInstanceAs (Decidable (_ → _))

/-- Make `t` the current task. -/
def Sys.setCurrent (s : Sys) (t : ℕ) : Sys := { s with k := { s.k with current := some t } }

/-- Making the current task current changes nothing. -/
theorem Sys.setCurrent_of_current {s : Sys} {t : ℕ} (h : s.k.current = some t) :
    s.setCurrent t = s := by
  rw [Sys.setCurrent, ← h]

/-- `hrt_port_yield_to_scheduler` has returned to task `t`, which goes on with `a`. -/
def Sys.land (s : Sys) (t : ℕ) (a : After) : Sys :=
  { s with conts := Function.update s.conts t (.resumed a) }

@[simp] theorem Sys.land_conts_self (s : Sys) (t : ℕ) (a : After) :
    (s.land t a).conts t = .resumed a := by
  simp [Sys.land]

theorem Sys.land_conts_of_ne (s : Sys) {t u : ℕ} (h : u ≠ t) (a : After) :
    (s.land t a).conts u = s.conts u := by
  simp [Sys.land, h]

namespace Interleave

/-- What can happen next. -/
inductive Action
  /-- `main` makes a call. -/
  | main (c : MainCall)
  /-- Task `t` takes its next action, issuing `c` if it is between calls. -/
  | task (t : ℕ) (c : Call)
  /-- An ISR runs. -/
  | isr (op : Isr)
  /-- A tick. -/
  | tick
  /-- A scheduler move. -/
  | sched (op : SchedOp)
  deriving DecidableEq, Repr

/-- **The interleaving machine.** -/
def step (sz : Sizing) (port : Port) (s : Sys) : Action → Option Sys
  | .main c => some (s.main sz port c)
  | .task t c =>
      match s.conts t with
      | .hop a => some ((s.setCurrent t).land t a)
      | _ => if s.MayAct t then (s.setCurrent t).task sz port t c else none
  | .isr op => some (s.isr sz op)
  | .tick => some (s.tickIsr sz)
  | .sched op => some { s with k := op.run sz s.k }

/-! ## Moves that touch no kernel object -/

/-- **What a scheduler move can change**: stack pointers, quanta, ready queues, `g_current`, the
reschedule request and the error latch. -/
theorem SchedOp.run_frame (sz : Sizing) (k : Kernel) (op : SchedOp) :
    ∃ (sp n : ℕ → ℕ) (rq : ℕ → RingBuffer ℕ) (cur : Option ℕ) (pend : Bool) (e : Err),
      op.run sz k = { k with
        tcbs := fun j => { k.tcbs j with sp := sp j, sliceLeft := n j }
        rq := rq
        current := cur
        pend := pend
        error := e } := by
  cases op with
  | schedule oldSp =>
      obtain ⟨sp, rq, cur, e, h⟩ := hrtSchedule_frame sz oldSp k
      exact ⟨sp, fun j => (k.tcbs j).sliceLeft, rq, some cur, k.pend, e, h⟩
  | pick =>
      obtain ⟨rq, h⟩ := hrtPickNextReady_frame sz k
      exact ⟨fun j => (k.tcbs j).sp, fun j => (k.tcbs j).sliceLeft, rq, k.current, k.pend, k.error, h⟩
  | entry =>
      obtain ⟨n, rq, e, h⟩ := hrtOnSchedulerEntry_frame sz k
      exact ⟨fun j => (k.tcbs j).sp, n, rq, k.current, k.pend, e, h⟩
  | pend => exact ⟨_, _, _, _, _, _, rfl⟩
  | unpend => exact ⟨_, _, _, _, _, _, rfl⟩
  | setCurrent t => exact ⟨_, _, _, _, _, _, rfl⟩

/-- No scheduler move touches a kernel object. -/
theorem SchedOp.run_objects (sz : Sizing) (k : Kernel) (op : SchedOp) :
    k.SameObjects (op.run sz k) := by
  obtain ⟨sp, n, rq, cur, pend, e, h⟩ := SchedOp.run_frame sz k op
  rw [h]
  exact ⟨rfl, rfl, rfl⟩

/-- No scheduler move changes a task's state. -/
theorem SchedOp.run_stateOf (sz : Sizing) (k : Kernel) (op : SchedOp) (j : ℕ) :
    (op.run sz k).stateOf j = k.stateOf j := by
  obtain ⟨sp, n, rq, cur, pend, e, h⟩ := SchedOp.run_frame sz k op
  rw [h]
  rfl

theorem tickIsr_objects (sz : Sizing) (k : Kernel) : k.SameObjects (hrtTickIsr sz k) := by
  have hcore : k.SameObjects (tickCore sz k) := by
    obtain ⟨-, -, -, -, -, h1, h2, h3⟩ := wakeSleepers_frame sz (hrtIncTick k)
    obtain ⟨-, -, -, -, -, h4, h5, h6, -⟩ :=
      chargeSlice_frame sz (wakeSleepers sz (hrtIncTick k)).1
    exact ⟨h4.trans h1, h5.trans h2, h6.trans h3⟩
  rcases hrtTickIsr_cases sz k with h | h
  · rw [h]
    exact ⟨hcore.sems, hcore.mutexes, hcore.queues⟩
  · rwa [h]

theorem main_objects (sz : Sizing) (port : Port) (s : Sys) (c : MainCall) :
    s.k.SameObjects (s.main sz port c).k := by
  cases c with
  | createTask a => exact hrtCreateTask_objects sz port a s.k
  | setPolicy p => exact ⟨rfl, rfl, rfl⟩
  | setDefaultTimeslice n => exact ⟨rfl, rfl, rfl⟩

/-- A call of `main` at most gives one slot a fresh context. -/
theorem main_conts (sz : Sizing) (port : Port) (s : Sys) (c : MainCall) :
    ∃ id, (s.main sz port c).conts = s.spawned id := by
  cases c with
  | createTask a => exact ⟨_, rfl⟩
  | setPolicy p => exact ⟨none, rfl⟩
  | setDefaultTimeslice n => exact ⟨none, rfl⟩

/-! ## The steps, seen from the kernel objects -/

/-- **What a step of a task can be**: its next action, or its return from
`hrt_port_yield_to_scheduler`. -/
theorem step_task {sz : Sizing} {port : Port} {s s' : Sys} {t : ℕ} {c : Call}
    (h : step sz port s (.task t c) = some s') :
    (∃ o, s.MayAct t ∧ nextAction sz port t c (s.setCurrent t).k (s.conts t) = some o ∧
      s' = (s.setCurrent t).apply t o) ∨
    (∃ x, s.conts t = .hop x ∧ s' = (s.setCurrent t).land t x) := by
  simp only [step] at h
  split at h
  · rename_i x hx
    exact Or.inr ⟨x, hx, (Option.some.inj h).symm⟩
  · split at h
    · rename_i hact
      obtain ⟨o, ho, hs'⟩ := Option.map_eq_some_iff.mp h
      exact Or.inl ⟨o, hact, ho, hs'.symm⟩
    · exact absurd h (by simp)

/-- **What a step can be**: an action of a task, its return from `hrt_port_yield_to_scheduler`, an ISR
operation, or a move that touches neither a kernel object nor the log. -/
theorem step_cases {sz : Sizing} {port : Port} {s s' : Sys} {a : Action}
    (h : step sz port s a = some s') :
    (∃ t c o, a = .task t c ∧ s.MayAct t ∧
      nextAction sz port t c (s.setCurrent t).k (s.conts t) = some o ∧
      s' = (s.setCurrent t).apply t o) ∨
    (∃ t c x, a = .task t c ∧ s.conts t = .hop x ∧ s' = (s.setCurrent t).land t x) ∨
    (∃ op, a = .isr op ∧ s' = s.isr sz op) ∨
    (s.k.SameObjects s'.k ∧ s'.log = s.log ∧ ∃ id, s'.conts = s.spawned id) := by
  cases a with
  | main c =>
      obtain rfl := Option.some.inj h
      refine Or.inr (Or.inr (Or.inr ⟨main_objects sz port s c, ?_, main_conts sz port s c⟩))
      cases c <;> rfl
  | task t c =>
      rcases step_task h with ⟨o, hact, ho, hs'⟩ | ⟨x, hx, hs'⟩
      · exact Or.inl ⟨t, c, o, rfl, hact, ho, hs'⟩
      · exact Or.inr (Or.inl ⟨t, c, x, rfl, hx, hs'⟩)
  | isr op =>
      obtain rfl := Option.some.inj h
      exact Or.inr (Or.inr (Or.inl ⟨op, rfl, rfl⟩))
  | tick =>
      obtain rfl := Option.some.inj h
      exact Or.inr (Or.inr (Or.inr ⟨tickIsr_objects sz s.k, rfl, none, rfl⟩))
  | sched op =>
      obtain rfl := Option.some.inj h
      exact Or.inr (Or.inr (Or.inr ⟨SchedOp.run_objects sz s.k op, rfl, none, rfl⟩))

end Interleave

/-! ## The contract of parking -/

/-- **A parked task waits**: a call that has parked goes on only when its task is not blocked any more.
On the ports this is the scheduler's doing, which resumes no blocked task. -/
def WaitsParked (s : Sys) : Interleave.Action → Prop
  | .task t _ => match s.conts t with
      | .resumed _ => s.k.stateOf t ≠ .blocked
      | _ => True
  | _ => True

instance (s : Sys) (a : Interleave.Action) : Decidable (WaitsParked s a) := by
  unfold WaitsParked
  split
  · split <;> infer_instance
  · infer_instance

theorem WaitsParked.not_blocked {s : Sys} {t : ℕ} {c : Call} (h : WaitsParked s (.task t c)) (a : After)
    (ha : s.conts t = .resumed a) : s.k.stateOf t ≠ .blocked := by
  simpa only [WaitsParked, ha] using h

theorem WaitsParked.of_not_blocked {s : Sys} {t : ℕ} {c : Call}
    (h : ∀ a, s.conts t = .resumed a → s.k.stateOf t ≠ .blocked) : WaitsParked s (.task t c) := by
  simp only [WaitsParked]
  split
  · exact h _ ‹_›
  · trivial

/-- Whatever is not a step of a task is free to happen. -/
theorem WaitsParked.of_not_task {s : Sys} {b : Interleave.Action} (hb : ∀ t c, b ≠ .task t c) :
    WaitsParked s b := by
  cases b with
  | task t c => exact absurd rfl (hb t c)
  | _ => trivial

/-- **A deleted task is gone**: a task whose slot is free takes no step, apart from the two port calls
with which `hrt_task_delete` gives up the CPU. On the ports this is the scheduler's doing, as long as no
stale entry of a ready queue brings the task back. -/
def LivesOn (s : Sys) : Interleave.Action → Prop
  | .task t _ => (s.conts t).leaving = true ∨ s.k.stateOf t ≠ .unused
  | _ => True

instance (s : Sys) : DecidablePred (LivesOn s)
  | .task _ _ => inferInstanceAs (Decidable (_ ∨ _))
  | .main _ | .isr _ | .tick | .sched _ => instDecidableTrue

/-- Whatever is not a step of a task is free to happen. -/
theorem LivesOn.of_not_task {s : Sys} {b : Interleave.Action} (hb : ∀ t c, b ≠ .task t c) :
    LivesOn s b := by
  cases b with
  | task t c => exact absurd rfl (hb t c)
  | _ => trivial

end HardRT
