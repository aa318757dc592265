import HardRT.Core.Clock
import HardRT.Core.Sleep
import HardRT.System.Partition

/-! # Time along a run

The results about the tick counter and about sleeping are stated for the kernel functions alone. Here
they are results about whole runs, in which anything may happen between two ticks.

* `SameClock` — neither the counter nor the tick rate changed; only a tick does not have it
  (`Interleave.step_clock`).
* `tickNow_of_run`, `nowMs_of_run` — the counter is the number of ticks of the run, and `hrt_now_ms`
  reads what it would if nothing but ticks had happened.
* `whileAsleep_of_run` — the rest of the system is one of the environments of a sleeper.
* `sleep_of_run` — a call of `hrt_sleep` in any run: the caller sleeps until the tick that uses up its
  distance, and is ready from then on. -/

namespace HardRT

open Lib

/-! ## Only ticks move the clock -/

/-- Neither the tick counter nor the tick rate changed. -/
structure SameClock (k k' : Kernel) : Prop where
  tick : k'.tick = k.tick
  tickHz : k'.tickHz = k.tickHz

section Clock

variable {sz : Sizing} {port : Port} {k k' : Kernel}

/-- What leaves the scheduler's data alone leaves the clock alone. -/
theorem SameSched.clock (h : SameSched k k') : SameClock k k' := ⟨h.tick, h.tickHz⟩

/-- A waking leaves the clock alone. -/
theorem Wakes.clock {w : WaitQ} {id : ℕ} (hw : Wakes sz w id k k') : SameClock k k' := by
  obtain ⟨k₁, hs, -, -, rfl⟩ := hw
  exact ⟨by rw [hrtMakeReady_tick, hs.tick], by rw [hrtMakeReady_tickHz, hs.tickHz]⟩

/-- Creation leaves the clock alone. -/
theorem hrtCreateTask_clock (sz : Sizing) (port : Port) (a : TaskArgs) (k : Kernel) :
    SameClock k (hrtCreateTask sz port a k).2 := by
  rcases hrtCreateTask_cases sz port a k with ⟨e, h⟩ | ⟨id, sp, e, -, -, h⟩
  · rw [h]
    exact ⟨rfl, rfl⟩
  · rw [h]
    constructor <;> simp

/-- **No action of a task moves the clock.** -/
theorem TaskEffect.clock {t : ℕ} {call : Call} {c : Cont} {o : Outcome}
    (heff : TaskEffect sz port t k call c o) : SameClock k o.k := by
  cases heff with
  | quiet hq hc hc' => exact hq.same.clock
  | yield hc =>
      simp only [hrtYieldBody]
      split_ifs
      · exact ⟨rqPush_tick .., rqPush_tickHz ..⟩
      · exact ⟨rfl, rfl⟩
  | park hc hp =>
      obtain ⟨k₁, hs, -, rfl⟩ := hp
      exact ⟨hs.tick, hs.tickHz⟩
  | wake hc hf hw => exact hw.clock
  | wakeOnRecheck hc hw => exact hw.clock
  | create hcall => exact hrtCreateTask_clock ..
  | request => exact ⟨rfl, rfl⟩
  | sleep => exact ⟨rfl, rfl⟩
  | delete ht hcall => exact ⟨rfl, rfl⟩
  | policy hcall => exact ⟨rfl, rfl⟩

/-- No ISR operation moves the clock. -/
theorem isr_clock (sz : Sizing) (k : Kernel) (op : Isr) : SameClock k (isrAction sz k op).2.1 := by
  rcases isrEffect sz k op with hq | ⟨id, k', hw, heq⟩
  · exact hq.same.clock
  · rw [heq]
    exact ⟨hw.clock.tick, hw.clock.tickHz⟩

/-- No call of `main` moves the clock. -/
theorem main_clock (s : Sys) (c : MainCall) : SameClock s.k (s.main sz port c).k := by
  cases c with
  | createTask a => exact hrtCreateTask_clock sz port a s.k
  | setPolicy p => exact ⟨rfl, rfl⟩
  | setDefaultTimeslice n => exact ⟨rfl, rfl⟩

/-- A scheduler move touches neither the clock nor a wake tick. -/
theorem SchedOp.run_clock (sz : Sizing) (k : Kernel) (op : SchedOp) :
    SameClock k (op.run sz k) ∧ ∀ j, ((op.run sz k).tcbs j).wakeTick = (k.tcbs j).wakeTick := by
  obtain ⟨sp, n, rq, cur, pend, e, h⟩ := Interleave.SchedOp.run_frame sz k op
  rw [h]
  exact ⟨⟨rfl, rfl⟩, fun _ => rfl⟩

/-- **A step that is not a tick leaves the clock alone.** -/
theorem Interleave.step_clock {s s' : Sys} {a : Action} (ha : a ≠ .tick)
    (hstep : step sz port s a = some s') : SameClock s.k s'.k := by
  cases a with
  | tick => exact absurd rfl ha
  | main c => exact Option.some.inj hstep ▸ main_clock s c
  | isr op => exact Option.some.inj hstep ▸ isr_clock sz s.k op
  | sched op => exact Option.some.inj hstep ▸ (SchedOp.run_clock sz s.k op).1
  | task t c =>
      rcases step_task hstep with ⟨o, -, ho, rfl⟩ | ⟨x, -, rfl⟩
      · have h := (taskEffect ho).clock
        exact ⟨h.tick, h.tickHz⟩
      · exact ⟨rfl, rfl⟩

end Clock

/-! ## The clock of a run -/

section Elapsed

variable {sz : Sizing} {port : Port} {s s' : Sys}

/-- **The counter counts the ticks of a run**, modulo its width, and the tick rate stays what it was. -/
theorem clock_of_run {as : List Interleave.Action} (htick : s.k.tick < 2 ^ 32)
    (hrun : exec (Interleave.step sz port) s as = some s') :
    s'.k.tick = (s.k.tick + as.count .tick) % 2 ^ 32 ∧ s'.k.tickHz = s.k.tickHz := by
  induction as generalizing s with
  | nil =>
      obtain rfl : s = s' := Option.some.inj hrun
      exact ⟨(Nat.mod_eq_of_lt htick).symm, rfl⟩
  | cons a as ih =>
      obtain ⟨m, hm, hrest⟩ := exec_cons.mp hrun
      by_cases ha : a = .tick
      · subst ha
        obtain rfl := Option.some.inj hm
        have hnow : (s.tickIsr sz).k.tick = (s.k.tick + 1) % 2 ^ 32 := hrtTickIsr_tick sz s.k
        obtain ⟨ht, hhz⟩ := ih (by omega) hrest
        refine ⟨?_, hhz.trans (hrtTickIsr_tickHz sz s.k)⟩
        rw [ht, hnow, List.count_cons_self]
        omega
      · -- everything but a tick leaves the clock where it was
        have hsame := Interleave.step_clock ha hm
        obtain ⟨ht, hhz⟩ := ih (hsame.tick ▸ htick) hrest
        rw [List.count_cons_of_ne ha, ← hsame.tick, ← hsame.tickHz]
        exact ⟨ht, hhz⟩

/-- `hrt_tick_now` in a run from boot. -/
theorem tickNow_of_run {cfg : Option KernelConfig} {objs : ObjectSpecs} {mem : Kernel}
    {as : List Interleave.Action}
    (hrun : exec (Interleave.step sz port) (Sys.boot sz port cfg objs mem) as = some s) :
    hrtTickNow s.k = as.count .tick % 2 ^ 32 := by
  have hboot : (Sys.boot sz port cfg objs mem).k.tick = 0 := hrtInit_tick ..
  have h := (clock_of_run (by omega) hrun).1
  rwa [hboot, Nat.zero_add] at h

/-- **`hrt_now_ms` in a run from boot** reads what it would after the ticks of the run alone. -/
theorem nowMs_of_run {c : KernelConfig} {objs : ObjectSpecs} {mem : Kernel}
    {as : List Interleave.Action}
    (hrun : exec (Interleave.step sz port) (Sys.boot sz port (some c) objs mem) as = some s) :
    hrtNowMs s.k = hrtNowMs (hrtIncTick^[as.count .tick] (hrtInit sz port (some c) mem)) := by
  have hboot : (Sys.boot sz port (some c) objs mem).k.tick = 0 := hrtInit_tick ..
  have hrate : s.k.tickHz = (hrtInit sz port (some c) mem).tickHz := by
    rw [(clock_of_run (by omega) hrun).2, hrtInit_tickHz]
    exact hrtInit_tickHz ..
  have hnow := tickNow_of_run hrun
  have hinit := hrtTickNow_iterate (k := hrtInit sz port (some c) mem) (by simp) (as.count .tick)
  rw [hrtInit_tick, Nat.zero_add] at hinit
  rw [hrtTickNow] at hnow hinit
  rw [hrtNowMs, hrtNowMs, hnow, hinit, hrate, hrtIncTick_iterate_tickHz]

end Elapsed

/-! ## A sleeper in a run -/

/-- **Task `me` rests**: it takes no step, apart from the two port calls with which `hrt_sleep` gives up
the CPU. -/
def Rests (me : ℕ) (s : Sys) : Interleave.Action → Prop
  | .task t _ => t = me → (s.conts me).leaving = true
  | _ => True

section Sleeper

variable {sz : Sizing} {port : Port} {me : ℕ} {s s' : Sys}

/-- **A step of the rest of the system**, other than a tick, leaves state and wake tick of a resting task
alone that is neither blocked nor gone. -/
theorem Interleave.step_resting (hr : sz.Representable) (hinv : PartInv sz s) {a : Action}
    (ha : a ≠ .tick) (hrest : Rests me s a) (hb : s.k.stateOf me ≠ .blocked)
    (hu : s.k.stateOf me ≠ .unused) (hstep : step sz port s a = some s') :
    s'.k.stateOf me = s.k.stateOf me ∧ (s'.k.tcbs me).wakeTick = (s.k.tcbs me).wakeTick := by
  have htcb : ∀ {k : Kernel}, k.tcbs me = s.k.tcbs me →
      k.stateOf me = s.k.stateOf me ∧ (k.tcbs me).wakeTick = (s.k.tcbs me).wakeTick :=
    fun h => by rw [Kernel.stateOf, h]; exact ⟨rfl, rfl⟩
  cases a with
  | tick => exact absurd rfl ha
  | isr op =>
      obtain rfl := Option.some.inj hstep
      exact htcb (hinv.part.isr_tcb hr op hb)
  | sched op =>
      obtain rfl := Option.some.inj hstep
      exact ⟨SchedOp.run_stateOf sz s.k op me, (SchedOp.run_clock sz s.k op).2 me⟩
  | main c =>
      obtain rfl := Option.some.inj hstep
      cases c with
      | createTask x =>
          rcases hrtCreateTask_tcbs sz port x s.k me with hs | ⟨-, hsome, -⟩
          · exact htcb hs
          · exact absurd (hrtCreateTask_some hsome).2 hu
      | setPolicy p => exact ⟨rfl, rfl⟩
      | setDefaultTimeslice n => exact ⟨rfl, rfl⟩
  | task t c =>
      rcases step_task hstep with ⟨o, -, ho, rfl⟩ | ⟨x, -, rfl⟩
      · by_cases ht : t = me
        · -- the request for a reschedule, on the way out of `hrt_sleep`
          subst ht
          have hleave := hrest rfl
          cases hc : s.conts t with
          | pend x =>
              rw [hc] at ho
              obtain rfl := Option.some.inj ho
              exact ⟨rfl, rfl⟩
          | hop x =>
              rw [hc] at ho
              exact absurd ho (by simp [nextAction])
          | _ =>
              rw [hc] at hleave
              exact absurd hleave (by simp [Cont.leaving])
        · have heff := taskEffect ho
          refine htcb ((hinv.setCurrent t).part.task_tcb hr heff (Ne.symm ht) hb fun hsp => ?_)
          obtain ⟨x, -, -, hnew⟩ := heff.spawn_eq hsp
          exact hu (hrtCreateTask_some hnew).2
      · exact ⟨rfl, rfl⟩

/-- **The rest of the system is an environment of the sleeper**: from a state in which `me` sleeps, every
run in which it rests is a sequence of ticks and of changes that do not concern it. -/
theorem whileAsleep_of_run (hr : sz.Representable) (hinv : PartInv sz s) {k₀ : Kernel} {n : ℕ}
    {as : List Interleave.Action} (hst : s.k.stateOf me = .sleep ∨ s.k.stateOf me = .ready)
    (h : WhileAsleep sz me k₀ n s.k) (hrest : Along (Interleave.step sz port) (Rests me) s as)
    (hrun : exec (Interleave.step sz port) s as = some s') :
    WhileAsleep sz me k₀ (n + as.count .tick) s'.k := by
  -- a sleeper can only become ready, so it is never blocked or gone on the way
  induction as generalizing s n with
  | nil =>
      obtain rfl : s = s' := Option.some.inj hrun
      exact h
  | cons a as ih =>
      obtain ⟨m, hm, hrest'⟩ := exec_cons.mp hrun
      have hinv' := hinv.step hr hm
      by_cases ha : a = .tick
      · subst ha
        obtain rfl := Option.some.inj hm
        have hst' : (hrtTickIsr sz s.k).stateOf me = .sleep ∨
            (hrtTickIsr sz s.k).stateOf me = .ready := by
          rcases hrtTickIsr_stateOf sz s.k me with hsame | ⟨-, hready⟩
          · rwa [hsame]
          · exact Or.inr hready
        rw [List.count_cons_self, Nat.add_comm _ 1, ← Nat.add_assoc]
        exact ih hinv' hst' h.tick (hrest.2 _ hm) hrest'
      · have hb : s.k.stateOf me ≠ .blocked := by rcases hst with h | h <;> rw [h] <;> simp
        have hu : s.k.stateOf me ≠ .unused := by rcases hst with h | h <;> rw [h] <;> simp
        obtain ⟨hstate, hwake⟩ := Interleave.step_resting hr hinv ha hrest.1 hb hu hm
        rw [List.count_cons_of_ne ha]
        exact ih hinv' (by rwa [hstate])
          (h.other (Interleave.step_clock ha hm).tick hstate hwake) (hrest.2 _ hm) hrest'

/-- **`hrt_sleep` in a run.** In any reachable state `s` a task calls `hrt_sleep(ms)`, for a time of at
most `2 ^ 31` ticks, and the system goes on for the run `bs` while the caller rests. The caller is ready
exactly if `bs` has the number of ticks that `hrt_sleep` computed, and these cover the time. -/
theorem sleep_of_run (hr : sz.Representable) {cfg : Option KernelConfig} {objs : ObjectSpecs}
    {mem : Kernel} {as bs : List Interleave.Action} {ms : ℕ} {s₁ : Sys}
    (hreach : exec (Interleave.step sz port) (Sys.boot sz port cfg objs mem) as = some s)
    (hc : s.conts me = .user) (hlong : ms * s.k.tickHz ≤ 2 ^ 31 * 1000)
    (hcall : Interleave.step sz port s (.task me (.sleep ms)) = some s₁)
    (hrest : Along (Interleave.step sz port) (Rests me) s₁ bs)
    (hrun : exec (Interleave.step sz port) s₁ bs = some s') :
    s'.k.stateOf me = (if hrtMsToTicks ms s.k.tickHz ≤ bs.count .tick then .ready else .sleep) ∧
    ms * s.k.tickHz ≤ hrtMsToTicks ms s.k.tickHz * 1000 := by
  have hinv : PartInv sz s := exec_invariant' (fun _ _ _ h hs => h.step hr hs)
    (PartInv.boot sz port cfg objs mem) hreach
  have htick : s.k.tick < 2 ^ 32 := by
    have h := tickNow_of_run hreach
    rw [hrtTickNow] at h
    omega
  have hk₁ : s₁.k = hrtSleepBody me ms (s.setCurrent me).k := by
    rcases Interleave.step_task hcall with ⟨o, -, ho, rfl⟩ | ⟨x, hx, -⟩
    · rw [hc] at ho
      obtain rfl := Option.some.inj ho
      rfl
    · rw [hc] at hx
      exact absurd hx (by simp)
  have hst : s₁.k.stateOf me = .sleep := by
    rw [hk₁]
    simp [hrtSleepBody_eq, Kernel.stateOf, Kernel.modifyTcb]
  -- from the call on, the run is one of the environments in which the countdown was proved
  have hasleep := whileAsleep_of_run hr (hinv.step hr hcall) (Or.inl hst) .start hrest hrun
  rw [Nat.zero_add, hk₁] at hasleep
  have hme : me < sz.maxTasks := hinv.lt me (by rw [hc]; simp)
  have hstate := WhileAsleep.state (k := (s.setCurrent me).k) hme htick (hrtMsToTicks_le_half hlong)
    hasleep
  exact ⟨hstate, le_hrtMsToTicks hlong⟩

end Sleeper

end HardRT
