import HardRT.Posix.System

/-! # Whom a tick charges

`hrt__tick_isr` charges the quantum of `g_current`. On this port `g_current` keeps naming the last task
that ran while the loop looks for the next one or waits, and the wake loop of the same tick may just have
made that task ready.

* `SlicesBounded` — no task has more of its quantum left than it was given; kept by every step.
* `ticks_charge_running` — a tick charges the running task only, and gives a task it wakes its full
  quantum, exactly if `g_current` is running or not ready and does not wake at this tick.
* `tick_charges_sleeper` — a task that sleeps, or has just yielded, is charged otherwise. -/

namespace HardRT

open Lib

/-! ## Quanta stay bounded -/

/-- **No task has more left of its quantum than it was given.** -/
def SlicesBounded (k : Kernel) : Prop := ∀ id, (k.tcbs id).sliceLeft ≤ (k.tcbs id).timesliceCfg

namespace SlicesBounded

variable {sz : Sizing} {k k' : Kernel}

/-- Control blocks that stay or are refilled. -/
theorem of_refill (h : SlicesBounded k)
    (hk : ∀ j, k'.tcbs j = k.tcbs j ∨ k'.tcbs j = (k.tcbs j).refill) : SlicesBounded k' := by
  intro id
  rcases hk id with hid | hid
  · rw [hid]
    exact h id
  · rw [hid]
    exact le_rfl

/-- Creation gives the new task a full quantum. -/
theorem create (h : SlicesBounded k) (port : Port) (a : TaskArgs) :
    SlicesBounded (hrtCreateTask sz port a k).2 := by
  intro id
  rcases hrtCreateTask_cases sz port a k with ⟨e, he⟩ | ⟨j, sp, e, -, -, he⟩
  · rw [he]
    exact h id
  · rw [he, rqPush_tcbs]
    by_cases hj : id = j
    · subst hj
      simp [TaskArgs.readyTcb, TaskArgs.tcb]
    · simpa [hj] using h id

/-- **An action of a task** refills, creates, or leaves the quanta alone. -/
theorem task (h : SlicesBounded k) {port : Port} {t : ℕ} {call : Call} {c : Cont} {o : Outcome}
    (ho : nextAction sz port t call k c = some o) : SlicesBounded o.k := by
  intro id
  cases (taskEffect ho).tcb id with
  | same hs => rw [hs]; exact h id
  | leave st wake _ _ _ hs => rw [hs]; exact h id
  | refill hs => rw [hs]; exact le_rfl
  | create hun hnew hs => rw [hs]; exact le_rfl

/-- **A tick** refills the sleepers it wakes and takes at most one tick from a quantum. -/
theorem tick (h : SlicesBounded k) : SlicesBounded (hrtTickIsr sz k) := by
  intro id
  -- `b` is the control block between the wake loop and the charge
  obtain ⟨b, hb, hend⟩ := hrtTickIsr_tcbs sz k id
  have hbound : b.sliceLeft ≤ b.timesliceCfg := by
    rcases hb with rfl | ⟨-, rfl⟩
    · exact h id
    · exact le_rfl
  rcases hend with heq | ⟨-, -, -, -, heq, -⟩
  · rw [heq]
    exact hbound
  · rw [heq]
    exact (Nat.sub_le _ _).trans hbound

/-- The scheduler entry refills a quantum that is used up. -/
theorem entry (h : SlicesBounded k) : SlicesBounded (hrtOnSchedulerEntry sz k) := by
  intro id
  rcases hrtOnSchedulerEntry_tcbs sz k id with heq | heq
  · rw [heq]
    exact h id
  · rw [heq]

end SlicesBounded

namespace Posix

section Bounded

variable {sz : Sizing} {s s' : State}

/-- **Every step keeps the quanta bounded.** -/
theorem slicesBounded_step (h : SlicesBounded s.sys.k) {a : Action} (hstep : step sz s a = some s') :
    SlicesBounded s'.sys.k := by
  cases a with
  | main c =>
      obtain ⟨-, rfl⟩ := step_main hstep
      cases c with
      | createTask a => exact h.create .posix a
      | setPolicy p => exact h
      | setDefaultTimeslice n => exact h
  | start =>
      obtain ⟨-, rfl⟩ := step_start hstep
      exact h
  | loop =>
      obtain ⟨rq, hpick⟩ := hrtPickNextReady_frame sz s.sys.k
      -- whatever the loop does, it writes no control block
      rcases step_loop hstep with ⟨-, -, rfl⟩ | ⟨-, rfl⟩ | ⟨-, -, rfl⟩ | ⟨-, -, rfl⟩
      · exact h
      · exact h
      · intro id
        simp only [hpick]
        exact h id
      · intro id
        simp only [hpick]
        exact h id
  | task c =>
      obtain ⟨t, -, -, ⟨o, ho, rfl⟩ | ⟨x, -, ⟨-, rfl⟩ | ⟨-, rfl⟩⟩⟩ := step_task hstep
      · exact h.task ho
      · exact h
      · exact h.entry
  | finish =>
      obtain ⟨t, -, -, -, rfl⟩ := step_finish hstep
      exact h
  | isr op =>
      obtain rfl := Option.some.inj hstep
      exact h.of_refill (isr_tcbs sz s.sys.k op)
  | tick alarm =>
      obtain rfl := Option.some.inj hstep
      intro id
      show ((tickHandler sz alarm s.sys.k).tcbs id).sliceLeft ≤ _
      rw [tickHandler_tcbs]
      exact h.tick id

/-- **Quanta are bounded in every run.** -/
theorem slicesBounded_of_run {cfg : Option KernelConfig} {objs : ObjectSpecs} {mem : Kernel}
    {as : List Action} (hrun : exec (step sz) (boot sz cfg objs mem) as = some s) :
    SlicesBounded s.sys.k := by
  refine exec_invariant' (I := fun s : State => SlicesBounded s.sys.k)
    (fun _ _ _ h hstep => slicesBounded_step h hstep) (fun id => ?_) hrun
  obtain ⟨hleft, hcfg⟩ := hrtInit_slice sz { mem with error := .none, pend := false } .posix cfg id
  exact (hleft.trans hcfg.symm).le

end Bounded

/-! ## The task that is charged -/

/-- Task `t` executes: the loop has swapped to it. -/
def Executes (s : State) (t : ℕ) : Prop := s.mode = .running ∧ s.sys.k.current = some t

/-- **The task a tick would charge is a running one.** If `g_current` is a slot of the table and subject
to a quantum, it does not wake at the coming tick, and it is ready with some of the quantum left only
while it executes. -/
def ChargesRunning (sz : Sizing) (s : State) : Prop :=
  ∀ c < sz.maxTasks, s.sys.k.current = some c → s.sys.k.policy.sliced = true →
    0 < (s.sys.k.tcbs c).timesliceCfg →
    ¬ wakesAt s.sys.k ((s.sys.k.tick + 1) % 2 ^ 32) c ∧
    (s.sys.k.stateOf c = .ready → 0 < (s.sys.k.tcbs c).sliceLeft → s.mode = .running)

section Charging

variable {sz : Sizing} {s : State}

/-- **A charge hits a running task**: a quantum of which a tick takes something is that of the task that
executes, and the tick has not woken it. -/
theorem ChargesRunning.charged (h : ChargesRunning sz s) (hb : SlicesBounded s.sys.k) {id : ℕ} {b : Tcb}
    (hlt : id < sz.maxTasks) (hwake : b = s.sys.k.tcbs id ∨
      (wakesAt s.sys.k ((s.sys.k.tick + 1) % 2 ^ 32) id ∧ b = (s.sys.k.tcbs id).refill))
    (hcur : s.sys.k.current = some id) (hst : b.state = .ready) (hsl : s.sys.k.policy.sliced = true)
    (hpos : 0 < b.sliceLeft) : b = s.sys.k.tcbs id ∧ Executes s id := by
  rcases hwake with rfl | ⟨hw, rfl⟩
  · exact ⟨rfl, (h id hlt hcur hsl (hpos.trans_le (hb id))).2 hst hpos, hcur⟩
  · exact absurd hw (h id hlt hcur hsl hpos).1

/-- **A task that a tick makes ready has its full quantum.** -/
theorem ChargesRunning.woken (h : ChargesRunning sz s) (hb : SlicesBounded s.sys.k) {id : ℕ}
    (hbefore : s.sys.k.stateOf id ≠ .ready) (hafter : (hrtTickIsr sz s.sys.k).stateOf id = .ready) :
    ((hrtTickIsr sz s.sys.k).tcbs id).sliceLeft = ((hrtTickIsr sz s.sys.k).tcbs id).timesliceCfg := by
  obtain ⟨b, hwake, hend | ⟨hcur, hst, hsl, hpos, -, -, hlt⟩⟩ := hrtTickIsr_tcbs sz s.sys.k id
  · rw [Kernel.stateOf, hend] at hafter
    rw [hend]
    rcases hwake with rfl | ⟨-, rfl⟩
    · exact absurd hafter hbefore
    · rfl
  · -- a task that is charged was ready before the tick
    obtain ⟨rfl, -⟩ := h.charged hb hlt hwake hcur hst hsl hpos
    exact absurd hst hbefore

/-- **Only the task that executes is charged**, and one tick at that. -/
theorem ChargesRunning.decremented (h : ChargesRunning sz s) (hb : SlicesBounded s.sys.k) {id : ℕ}
    (hlt : ((hrtTickIsr sz s.sys.k).tcbs id).sliceLeft < (s.sys.k.tcbs id).sliceLeft) :
    Executes s id ∧
    ((hrtTickIsr sz s.sys.k).tcbs id).sliceLeft + 1 = (s.sys.k.tcbs id).sliceLeft := by
  obtain ⟨b, hwake, hend | ⟨hcur, hst, hsl, hpos, hend, -, hlt⟩⟩ :=
    hrtTickIsr_tcbs sz s.sys.k id
  · -- a refill does not take anything away
    rw [hend] at hlt
    rcases hwake with rfl | ⟨-, rfl⟩
    · exact absurd hlt (Nat.lt_irrefl _)
    · exact absurd hlt (Nat.not_lt.mpr (hb id))
  · obtain ⟨rfl, hrun⟩ := h.charged hb hlt hwake hcur hst hsl hpos
    refine ⟨hrun, ?_⟩
    rw [hend]
    exact Nat.sub_add_cancel hpos

/-- **The condition is needed**: where it fails, the tick charges a task that it wakes or one that does not
execute. -/
theorem ChargesRunning.of_tick
    (hwoken : ∀ id, s.sys.k.stateOf id ≠ .ready → (hrtTickIsr sz s.sys.k).stateOf id = .ready →
      ((hrtTickIsr sz s.sys.k).tcbs id).sliceLeft = ((hrtTickIsr sz s.sys.k).tcbs id).timesliceCfg)
    (hdec : ∀ id, ((hrtTickIsr sz s.sys.k).tcbs id).sliceLeft < (s.sys.k.tcbs id).sliceLeft →
      Executes s id) :
    ChargesRunning sz s := by
  intro c hlt hcur hpol hcfg
  refine ⟨fun hw => ?_, fun hst hleft => ?_⟩
  · have htcb := hrtTickIsr_charge_woken hcur hlt hw hpol hcfg
    have hfull := hwoken c (by rw [hw.1]; simp) (by rw [Kernel.stateOf, htcb]; rfl)
    rw [htcb] at hfull
    exact absurd hfull (Nat.sub_lt hcfg Nat.one_pos).ne
  · have htcb := (hrtTickIsr_charge hcur hlt hst hpol hcfg hleft).1
    exact (hdec c (by rw [htcb]; exact Nat.sub_lt hleft Nat.one_pos)).1

end Charging

/-! ## The result -/

section Results

variable {sz : Sizing} {cfg : Option KernelConfig} {objs : ObjectSpecs} {mem : Kernel}
  {as : List Action} {s : State}

/-- **Ticks charge only running time.** In every reachable state, no task has more left of its quantum
than it was given, and none has after a tick. Exactly if moreover the task the tick would charge is a
running one, each task the tick makes ready has its full quantum when the handler returns, and the only
quantum that has become smaller, by one tick, is that of the task that was executing. -/
theorem ticks_charge_running (hrun : exec (step sz) (boot sz cfg objs mem) as = some s) :
    SlicesBounded s.sys.k ∧ SlicesBounded (hrtTickIsr sz s.sys.k) ∧
    (ChargesRunning sz s ↔ ∀ id,
      (s.sys.k.stateOf id ≠ .ready → (hrtTickIsr sz s.sys.k).stateOf id = .ready →
        ((hrtTickIsr sz s.sys.k).tcbs id).sliceLeft =
          ((hrtTickIsr sz s.sys.k).tcbs id).timesliceCfg) ∧
      (((hrtTickIsr sz s.sys.k).tcbs id).sliceLeft < (s.sys.k.tcbs id).sliceLeft →
        Executes s id ∧
        ((hrtTickIsr sz s.sys.k).tcbs id).sliceLeft + 1 = (s.sys.k.tcbs id).sliceLeft)) := by
  have hb := slicesBounded_of_run hrun
  refine ⟨hb, hb.tick, fun h id => ⟨h.woken hb, h.decremented hb⟩, fun h => ?_⟩
  exact .of_tick (fun id => (h id).1) fun id hlt => ((h id).2 hlt).1

/-- One task with a quantum of five, on the CPU. -/
def oneRuns : List Action :=
  [.main (.createTask ⟨1, 0, 0x1000, 64, some ⟨1, 5⟩⟩), .start, .loop, .loop]

/-- A tick takes one from the quantum of the running task. -/
theorem ticks_charge_running_one :
    ∃ s, exec (step .default) process oneRuns = some s ∧ Executes s 0 ∧
      ((hrtTickIsr .default s.sys.k).tcbs 0).sliceLeft + 1 = (s.sys.k.tcbs 0).sliceLeft := by
  have heval : ((exec (step .default) process oneRuns).map fun s =>
      (s.mode, s.sys.k.current, s.sys.k.stateOf 0,
        decide (((hrtTickIsr .default s.sys.k).tcbs 0).sliceLeft < (s.sys.k.tcbs 0).sliceLeft))) =
      some (.running, some 0, .ready, true) := by
    decide +kernel
  obtain ⟨s, hs, hv⟩ := Option.map_eq_some_iff.mp heval
  obtain ⟨hm, hcur, hst, hlt⟩ : s.mode = .running ∧ s.sys.k.current = some 0 ∧
      s.sys.k.stateOf 0 = .ready ∧
      ((hrtTickIsr .default s.sys.k).tcbs 0).sliceLeft < (s.sys.k.tcbs 0).sliceLeft := by
    simpa only [Prod.mk.injEq, decide_eq_true_eq] using hv
  have hclean : ChargesRunning .default s := by
    intro c _ hc _ _
    obtain rfl : 0 = c := Option.some.inj (hcur.symm.trans hc)
    exact ⟨fun hw => absurd (hst.symm.trans hw.1) (by simp), fun _ _ => hm⟩
  exact ⟨s, hs, ((ticks_charge_running hs).2.2.mp hclean 0).2 hlt⟩

/-- The task goes to sleep, and the loop waits. -/
def sleepRun : List Action := oneRuns ++ [.task (.sleep 1), .task (.sleep 1), .task (.sleep 1)]

/-- The task yields, and the loop has not picked it yet. -/
def yieldRun : List Action := oneRuns ++ [.task .yield, .task .yield, .task .yield]

/-- **A task is charged that does not run.** With the loop waiting, a tick wakes the sleeping task, which
`g_current` still names, and charges it: it is ready with four ticks of its five. A task that has just
yielded is charged before it is picked again. -/
theorem tick_charges_sleeper :
    (∃ s, exec (step .default) process sleepRun = some s ∧ s.mode = .head ∧
      s.sys.k.stateOf 0 = .sleep ∧ (hrtTickIsr .default s.sys.k).stateOf 0 = .ready ∧
      ((hrtTickIsr .default s.sys.k).tcbs 0).timesliceCfg = 5 ∧
      ((hrtTickIsr .default s.sys.k).tcbs 0).sliceLeft = 4) ∧
    ∃ s, exec (step .default) process yieldRun = some s ∧ s.mode = .head ∧
      (s.sys.k.tcbs 0).sliceLeft = 5 ∧ ((hrtTickIsr .default s.sys.k).tcbs 0).sliceLeft = 4 := by
  have hsleep : ((exec (step .default) process sleepRun).map fun s =>
      decide (s.mode = .head ∧ s.sys.k.stateOf 0 = .sleep ∧
        (hrtTickIsr .default s.sys.k).stateOf 0 = .ready ∧
        ((hrtTickIsr .default s.sys.k).tcbs 0).timesliceCfg = 5 ∧
        ((hrtTickIsr .default s.sys.k).tcbs 0).sliceLeft = 4)) = some true := by
    decide +kernel
  have hyield : ((exec (step .default) process yieldRun).map fun s =>
      decide (s.mode = .head ∧ (s.sys.k.tcbs 0).sliceLeft = 5 ∧
        ((hrtTickIsr .default s.sys.k).tcbs 0).sliceLeft = 4)) = some true := by
    decide +kernel
  obtain ⟨s, hs, hv⟩ := Option.map_eq_some_iff.mp hsleep
  obtain ⟨s', hs', hv'⟩ := Option.map_eq_some_iff.mp hyield
  exact ⟨⟨s, hs, of_decide_eq_true hv⟩, ⟨s', hs', of_decide_eq_true hv'⟩⟩

end Results

end Posix

end HardRT
