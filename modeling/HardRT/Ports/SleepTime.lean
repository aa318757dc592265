import HardRT.CortexM.ReadySet
import HardRT.Posix.ReadySet
import HardRT.System.Time

/-! # Sleeping on the ports

`hrt_sleep` gives up the CPU and returns when the scheduler comes back to the caller. `System.Time` says
when the caller is ready again; whether it is resumed before is up to the port. Along clean steps it is
not: the scheduler resumes ready tasks only.

* `SameAlarm me k k'` — neither the clock nor the state or the wake tick of `me` changed.
* `asleep_step` — in a step of either port, a tick counts and nothing else concerns a task that rests.
* `asleep_of_exec` — a run of either port counts its ticks.
* `sleep_keeps_time` — on either port the caller of `hrt_sleep` becomes ready with the tick that completes
  its time, and the call returns no earlier. -/

namespace HardRT

open Lib

/-! ## What does not concern a sleeper -/

/-- **Neither the clock nor the state or the wake tick of `me` changed.** -/
structure SameAlarm (me : ℕ) (k k' : Kernel) : Prop where
  tick : k'.tick = k.tick
  state : k'.stateOf me = k.stateOf me
  wake : (k'.tcbs me).wakeTick = (k.tcbs me).wakeTick

namespace SameAlarm

variable {sz : Sizing} {port : Port} {me t : ℕ} {k k₁ k' : Kernel} {s s' : Sys}

theorem refl (me : ℕ) (k : Kernel) : SameAlarm me k k := ⟨rfl, rfl, rfl⟩

theorem trans (h : SameAlarm me k k₁) (h' : SameAlarm me k₁ k') : SameAlarm me k k' :=
  ⟨h'.tick.trans h.tick, h'.state.trans h.state, h'.wake.trans h.wake⟩

/-- A scheduler move. -/
theorem sched (sz : Sizing) (me : ℕ) (k : Kernel) (op : SchedOp) : SameAlarm me k (op.run sz k) := by
  obtain ⟨hclock, hwake⟩ := SchedOp.run_clock sz k op
  exact ⟨hclock.tick, Interleave.SchedOp.run_stateOf sz k op me, hwake me⟩

/-- A step of the interleaving machine, other than a tick, if `me` rests. -/
theorem step (hr : sz.Representable) (hinv : PartInv sz s) {a : Interleave.Action} (ha : a ≠ .tick)
    (hrest : Rests me s a) (hb : s.k.stateOf me ≠ .blocked) (hu : s.k.stateOf me ≠ .unused)
    (hstep : Interleave.step sz port s a = some s') : SameAlarm me s.k s'.k := by
  obtain ⟨hst, hwake⟩ := Interleave.step_resting hr hinv ha hrest hb hu hstep
  exact ⟨(Interleave.step_clock ha hstep).tick, hst, hwake⟩

/-- **An action of the task that runs**, if this is `me` only on its way out. -/
theorem action (hr : sz.Representable) (hinv : PartInv sz s) {c : Call} {o : Outcome}
    (hrest : t = me → (s.conts me).leaving = true) (hb : s.k.stateOf me ≠ .blocked)
    (hu : s.k.stateOf me ≠ .unused) (ho : nextAction sz port t c s.k (s.conts t) = some o) :
    SameAlarm me s.k o.k := by
  by_cases ht : t = me
  · -- the request for a reschedule
    subst ht
    have hleave := hrest rfl
    cases hc : s.conts t with
    | pend x =>
        rw [hc] at ho
        obtain rfl := Option.some.inj ho
        exact ⟨rfl, rfl, rfl⟩
    | hop x =>
        rw [hc] at ho
        exact absurd ho (by simp [nextAction])
    | _ =>
        rw [hc] at hleave
        exact absurd hleave (by simp [Cont.leaving])
  · have heff := taskEffect ho
    have htcb : o.k.tcbs me = s.k.tcbs me := by
      refine hinv.part.task_tcb hr heff (Ne.symm ht) hb fun hsp => ?_
      obtain ⟨x, -, -, hnew⟩ := heff.spawn_eq hsp
      exact hu (hrtCreateTask_some hnew).2
    refine ⟨heff.clock.tick, ?_, by rw [htcb]⟩
    rw [Kernel.stateOf, htcb]
    rfl

end SameAlarm

/-- **A task waits for the end of its sleep**: `n` ticks after it fell asleep in `k₀` it sleeps or is
ready. -/
structure Asleep (sz : Sizing) (me : ℕ) (k₀ : Kernel) (n : ℕ) (k : Kernel) : Prop where
  state : k.stateOf me = .sleep ∨ k.stateOf me = .ready
  wait : WhileAsleep sz me k₀ n k

namespace Asleep

variable {sz : Sizing} {me n : ℕ} {k₀ k k' : Kernel}

theorem not_blocked (h : Asleep sz me k₀ n k) : k.stateOf me ≠ .blocked := by
  rcases h.state with hst | hst <;> rw [hst] <;> simp

theorem not_unused (h : Asleep sz me k₀ n k) : k.stateOf me ≠ .unused := by
  rcases h.state with hst | hst <;> rw [hst] <;> simp

/-- Something that does not concern it. -/
theorem other (h : Asleep sz me k₀ n k) (hu : SameAlarm me k k') : Asleep sz me k₀ n k' :=
  ⟨by rw [hu.state]; exact h.state, .other h.wait hu.tick hu.state hu.wake⟩

/-- A tick. -/
theorem tick (h : Asleep sz me k₀ n k) : Asleep sz me k₀ (n + 1) (hrtTickIsr sz k) := by
  refine ⟨?_, .tick h.wait⟩
  rcases hrtTickIsr_stateOf sz k me with hsame | ⟨-, hready⟩
  · rw [hsame]
    exact h.state
  · exact Or.inr hready

/-- It has just fallen asleep. -/
theorem start (sz : Sizing) (me ms : ℕ) (k : Kernel) :
    Asleep sz me (hrtSleepBody me ms k) 0 (hrtSleepBody me ms k) :=
  ⟨Or.inl (by simp [hrtSleepBody_eq, Kernel.stateOf, Kernel.modifyTcb]), .start⟩

/-- **The end of the sleep**, if it is at most `2 ^ 31` ticks away. -/
theorem ready_iff {ms : ℕ} (h : Asleep sz me (hrtSleepBody me ms k) n k') (hme : me < sz.maxTasks)
    (htick : k.tick < 2 ^ 32) (hlong : ms * k.tickHz ≤ 2 ^ 31 * 1000) :
    k'.stateOf me = if hrtMsToTicks ms k.tickHz ≤ n then .ready else .sleep :=
  WhileAsleep.state hme htick (hrtMsToTicks_le_half hlong) h.wait

end Asleep

/-! ## Steps and runs of a port -/

/-- Task `me` rests: it takes no step, apart from the two port calls with which `hrt_sleep` gives up the
CPU. -/
def PortAct.RestsOn (me : ℕ) (s : Sys) : PortAct → Prop
  | .task _ => s.k.current = some me → (s.conts me).leaving = true
  | _ => True

instance (me : ℕ) (s : Sys) : DecidablePred (PortAct.RestsOn me s)
  | .task _ => inferInstanceAs (Decidable (_ → _))
  | .main _ | .isr _ | .tick | .sched => instDecidableTrue

section Waiting

variable {sz : Sizing} {port : Port} {me n : ℕ} {k₀ : Kernel} {s s' : Sys} {u : PortAct}

/-- **A step while `me` waits**: a tick counts, and nothing else concerns it. -/
theorem asleep_step (hr : sz.Representable) (hinv : PartInv sz s) (h : Asleep sz me k₀ n s.k)
    (hrest : u.RestsOn me s) (hstep : PortStep sz port s u s') :
    Asleep sz me k₀ (n + [u].count .tick) s'.k := by
  obtain ⟨s₁, ops, hlead, rfl⟩ := hstep
  -- moves of the interleaving machine that are not those of a task
  have hmove : ∀ {b : Interleave.Action} {x : Sys}, b ≠ .tick → (∀ t c, b ≠ .task t c) →
      Interleave.step sz port s b = some x → Asleep sz me k₀ n x.k := by
    intro b x hb ht hx
    refine h.other (.step hr hinv hb ?_ h.not_blocked h.not_unused hx)
    cases b with
    | task t c => exact absurd rfl (ht t c)
    | _ => trivial
  have hact : Asleep sz me k₀ (n + [u].count .tick) s₁.k := by
    cases hlead with
    | main c => exact hmove (b := .main c) (by simp) (by simp) rfl
    | run hcur ho =>
        exact h.other (.action hr hinv (fun ht => hrest (ht ▸ hcur)) h.not_blocked h.not_unused ho)
    | land hcur ha => exact h
    | isr op => exact hmove (b := .isr op) (by simp) (by simp) rfl
    | tick => exact h.tick
    | idle => exact h
    | left a ht => exact h
  exact Sys.scheduled_induction (I := Asleep sz me k₀ (n + [u].count .tick))
    (fun k op hk => hk.other (.sched sz me k op)) hact

/-- **A run while `me` waits** counts its ticks. The machine is that of a port: `sys` and `act` say what
its steps do, and `I` is an invariant of its clean steps that keeps the blocked partition. -/
theorem asleep_of_exec {σ α : Type*} (step : σ → α → Option σ) (sys : σ → Sys) (act : α → PortAct)
    (hport : ∀ {x a x'}, step x a = some x' → PortStep sz port (sys x) (act a) (sys x'))
    {I : σ → Prop} {G : σ → α → Prop} (hI : ∀ {x a x'}, I x → G x a → step x a = some x' → I x')
    (hpart : ∀ {x}, I x → PartInv sz (sys x)) (hr : sz.Representable) {x x' : σ} (hx : I x)
    (h : Asleep sz me k₀ n (sys x).k) {bs : List α} (hclean : Along step G x bs)
    (hrest : Along step (fun x a => (act a).RestsOn me (sys x)) x bs) (hrun : exec step x bs = some x') :
    I x' ∧ Asleep sz me k₀ (n + (bs.map act).count .tick) (sys x').k := by
  induction bs generalizing x n with
  | nil =>
      obtain rfl : x = x' := Option.some.inj hrun
      exact ⟨hx, h⟩
  | cons a bs ih =>
      obtain ⟨y, hy, hrun⟩ := exec_cons.mp hrun
      have hnext := ih (hI hx hclean.1 hy) (asleep_step hr (hpart hx) h hrest.1 (hport hy))
        (hclean.2 y hy) (hrest.2 y hy) hrun
      rwa [Nat.add_assoc, ← List.count_append] at hnext

end Waiting

/-! ## Cortex-M -/

namespace CortexM

variable {sz : Sizing} {idleStack me n : ℕ} {k₀ : Kernel} {s s' : Sys}

/-- Task `me` rests. -/
def RestsOn (me : ℕ) (s : Sys) (a : Action) : Prop := a.act.RestsOn me s

instance (me : ℕ) (s : Sys) : DecidablePred (RestsOn me s) :=
  fun a => inferInstanceAs (Decidable (a.act.RestsOn me s))

/-- The ticks of a run. -/
theorem count_act (bs : List Action) : (bs.map Action.act).count .tick = bs.count .tick := by
  rw [List.count, List.countP_map, List.count]
  refine List.countP_congr fun a _ => ?_
  cases a <;> simp [Action.act]

/-- **A run while `me` waits** counts its ticks. -/
theorem asleep_of_run (hr : sz.Representable) (hready : ReadyInv sz s) (hinv : PartInv sz s)
    (h : Asleep sz me k₀ n s.k) {bs : List Action}
    (hclean : Along (step sz idleStack) (ReadyClean sz) s bs)
    (hrest : Along (step sz idleStack) (RestsOn me) s bs)
    (hrun : exec (step sz idleStack) s bs = some s') :
    ReadyInv sz s' ∧ Asleep sz me k₀ (n + bs.count .tick) s'.k := by
  have hrun := asleep_of_exec (step sz idleStack) id Action.act
    (I := fun s => ReadyInv sz s ∧ PartInv sz s) step_portStep
    (fun hs ha hstep => ⟨hs.1.step hr hs.2 ha hstep, step_partInv hr hs.1.runsUnblocked hs.2 hstep⟩)
    And.right hr ⟨hready, hinv⟩ h hclean hrest hrun
  rw [count_act] at hrun
  exact ⟨hrun.1.1, hrun.2⟩

/-- The counter of a clean run stays within its width. -/
theorem tick_lt_of_run {cfg : Option KernelConfig} {objs : ObjectSpecs} {mem : Kernel}
    (hr : sz.Representable) {as : List Action}
    (hrun : exec (step sz idleStack) (boot sz idleStack cfg objs mem) as = some s)
    (hclean : Along (step sz idleStack) (ReadyClean sz) (boot sz idleStack cfg objs mem) as) :
    s.k.tick < 2 ^ 32 := by
  obtain ⟨bs, hbs, -⟩ := refines_interleave_of_clean hr (P := fun _ _ => True) (fun _ _ _ => trivial)
    hrun hclean (Along.of_forall (fun _ _ _ _ _ _ _ => trivial) _)
  have hnow : s.k.tick = bs.count .tick % 2 ^ 32 := tickNow_of_run hbs
  omega

end CortexM

/-! ## POSIX -/

namespace Posix

variable {sz : Sizing} {me n : ℕ} {k₀ : Kernel} {s s' : State}

/-- Task `me` rests. -/
def RestsOn (me : ℕ) (s : State) (a : Action) : Prop := a.act.RestsOn me s.sys

/-- The action is a tick. -/
def Action.isTick : Action → Bool
  | .tick _ => true
  | _ => false

/-- The ticks of a run. -/
theorem count_act (bs : List Action) : (bs.map Action.act).count .tick = bs.countP Action.isTick := by
  rw [List.count, List.countP_map]
  refine List.countP_congr fun a _ => ?_
  cases a <;> simp [Action.act, Action.isTick]

/-- **A run while `me` waits** counts its ticks. -/
theorem asleep_of_run (hr : sz.Representable) (hready : ReadyInv sz s) (hinv : PartInv sz s.sys)
    (h : Asleep sz me k₀ n s.sys.k) {bs : List Action} (hclean : Along (step sz) (ReadyClean sz) s bs)
    (hrest : Along (step sz) (RestsOn me) s bs) (hrun : exec (step sz) s bs = some s') :
    ReadyInv sz s' ∧ Asleep sz me k₀ (n + bs.countP Action.isTick) s'.sys.k := by
  have hrun := asleep_of_exec (step sz) State.sys Action.act
    (I := fun s => ReadyInv sz s ∧ PartInv sz s.sys) step_portStep
    (fun hs ha hstep => ⟨hs.1.step hr hs.2 ha hstep, step_partInv hr hs.1.runsLive hs.2 hstep⟩)
    And.right hr ⟨hready, hinv⟩ h hclean hrest hrun
  rw [count_act] at hrun
  exact ⟨hrun.1.1, hrun.2⟩

/-- The counter of a clean run stays within its width. -/
theorem tick_lt_of_run {cfg : Option KernelConfig} {objs : ObjectSpecs} {mem : Kernel}
    (hr : sz.Representable) {as : List Action}
    (hrun : exec (step sz) (boot sz cfg objs mem) as = some s)
    (hclean : Along (step sz) (ReadyClean sz) (boot sz cfg objs mem) as) : s.sys.k.tick < 2 ^ 32 := by
  obtain ⟨bs, hbs, -⟩ := refines_interleave_of_clean hr (P := fun _ _ => True) (fun _ _ _ => trivial)
    hrun hclean (Along.of_forall (fun _ _ _ _ _ _ _ => trivial) _)
  have hnow : s.sys.k.tick = bs.count .tick % 2 ^ 32 := tickNow_of_run hbs
  omega

end Posix

/-! ## The result -/

section Results

variable {sz : Sizing} {cfg : Option KernelConfig} {objs : ObjectSpecs} {mem : Kernel} {me ms : ℕ}

/-- The call of `hrt_sleep` on Cortex-M, from the caller's code. -/
theorem CortexM.step_sleep {idleStack : ℕ} {s s₁ : Sys} (hcur : s.k.current = some me)
    (hc : s.conts me = .user) (hcall : CortexM.step sz idleStack s (.task (.sleep ms)) = some s₁) :
    s₁.k = hrtSleepBody me ms s.k := by
  obtain ⟨t, hcur', -, hact⟩ := CortexM.step_task hcall
  obtain rfl : me = t := Option.some.inj (hcur.symm.trans hcur')
  rw [hc] at hact
  obtain ⟨o, ho, rfl⟩ | ⟨x, hx, -⟩ := hact
  · obtain rfl := Option.some.inj ho
    rfl
  · exact absurd hx (by simp)

/-- The call of `hrt_sleep` on POSIX, from the caller's code. -/
theorem Posix.step_sleep {s s₁ : Posix.State} (hcur : s.sys.k.current = some me)
    (hc : s.sys.conts me = .user) (hcall : Posix.step sz s (.task (.sleep ms)) = some s₁) :
    s₁.sys.k = hrtSleepBody me ms s.sys.k := by
  obtain ⟨t, -, hcur', hact⟩ := Posix.step_task hcall
  obtain rfl : me = t := Option.some.inj (hcur.symm.trans hcur')
  rw [hc] at hact
  obtain ⟨o, ho, rfl⟩ | ⟨x, hx, -⟩ := hact
  · obtain rfl := Option.some.inj ho
    rfl
  · exact absurd hx (by simp)

/-- **A sleep of `ms` keeps its time**: the caller, now in state `st`, is ready exactly if there were as
many ticks as `hrt_sleep` computed; these cover the time; and if the caller goes on, there were as many. -/
structure KeepsTime (ms hz ticks : ℕ) (st : TaskState) (goesOn : Prop) : Prop where
  state : st = if hrtMsToTicks ms hz ≤ ticks then .ready else .sleep
  covers : ms * hz ≤ hrtMsToTicks ms hz * 1000
  notEarly : goesOn → hrtMsToTicks ms hz ≤ ticks

/-- A task that goes on only when it is ready keeps its time. -/
theorem Asleep.keepsTime {n : ℕ} {k k' : Kernel} {goesOn : Prop}
    (h : Asleep sz me (hrtSleepBody me ms k) n k') (hme : me < sz.maxTasks) (htick : k.tick < 2 ^ 32)
    (hlong : ms * k.tickHz ≤ 2 ^ 31 * 1000) (hgoes : goesOn → k'.stateOf me = .ready) :
    KeepsTime ms k.tickHz n (k'.stateOf me) goesOn := by
  have hstate := h.ready_iff hme htick hlong
  refine ⟨hstate, le_hrtMsToTicks hlong, fun hg => ?_⟩
  by_contra hlt
  rw [if_neg hlt, hgoes hg] at hstate
  exact absurd hstate (by simp)

/-- Task `me` takes an action that is not one of the two with which it leaves, in the next step of the
Cortex-M machine. -/
def CortexM.GoesOn (sz : Sizing) (idleStack me : ℕ) (s : Sys) : Prop :=
  s.k.current = some me ∧ (s.conts me).leaving = false ∧
    ∃ c s', CortexM.step sz idleStack s (.task c) = some s'

/-- The same on POSIX. -/
def Posix.GoesOn (sz : Sizing) (me : ℕ) (s : Posix.State) : Prop :=
  s.sys.k.current = some me ∧ (s.sys.conts me).leaving = false ∧
    ∃ c s', Posix.step sz s (.task c) = some s'

/-- A task that goes on is ready. -/
theorem CortexM.ReadyInv.ready_of_goesOn {idleStack : ℕ} {s : Sys} (h : CortexM.ReadyInv sz s)
    (hg : CortexM.GoesOn sz idleStack me s) : s.k.stateOf me = .ready := by
  obtain ⟨hcur, hleave, c, s', hstep⟩ := hg
  obtain ⟨t, hcur', hpend, hact⟩ := CortexM.step_task hstep
  obtain rfl : me = t := Option.some.inj (hcur.symm.trans hcur')
  have hcode : s.conts me ≠ .none := by
    intro hn
    rw [hn] at hact
    obtain ⟨o, ho, -⟩ | ⟨x, hx, -⟩ := hact
    · exact absurd ho (by simp [nextAction])
    · exact absurd hx (by simp)
  rcases h.cur me hcur hcode with hst | hp | ⟨x, hx⟩
  · exact hst
  · rw [hpend] at hp
    exact absurd hp (by simp)
  · rw [hx] at hleave
    exact absurd hleave (by simp [Cont.leaving])

/-- A task that goes on is ready. -/
theorem Posix.ReadyInv.ready_of_goesOn {s : Posix.State} (h : Posix.ReadyInv sz s)
    (hg : Posix.GoesOn sz me s) : s.sys.k.stateOf me = .ready := by
  obtain ⟨hcur, hleave, c, s', hstep⟩ := hg
  obtain ⟨t, hm, -, -⟩ := Posix.step_task hstep
  exact h.ready me ⟨hm, hcur, hleave⟩

/-- **`hrt_sleep` keeps its time on the ports.** In a clean run of either port the current task calls
`hrt_sleep(ms)`, for a time of at most `2 ^ 31` ticks, and the system goes on for the run `bs` while the
caller rests: other tasks, interrupts and ticks in any order. The caller is ready exactly if `bs` has the
number of ticks that `hrt_sleep` computed, which cover the time; and if the call returns after `bs`, it
has them. -/
theorem sleep_keeps_time (hr : sz.Representable) (cfg : Option KernelConfig) (objs : ObjectSpecs)
    (mem : Kernel) (me ms : ℕ) :
    (∀ (idleStack : ℕ) (as bs : List CortexM.Action) (s s₁ s₂ : Sys),
      exec (CortexM.step sz idleStack) (CortexM.boot sz idleStack cfg objs mem) as = some s →
      s.k.current = some me → s.conts me = .user → ms * s.k.tickHz ≤ 2 ^ 31 * 1000 →
      CortexM.step sz idleStack s (.task (.sleep ms)) = some s₁ →
      exec (CortexM.step sz idleStack) s₁ bs = some s₂ →
      Along (CortexM.step sz idleStack) (CortexM.ReadyClean sz)
        (CortexM.boot sz idleStack cfg objs mem) (as ++ .task (.sleep ms) :: bs) →
      Along (CortexM.step sz idleStack) (CortexM.RestsOn me) s₁ bs →
      KeepsTime ms s.k.tickHz (bs.count .tick) (s₂.k.stateOf me)
        (CortexM.GoesOn sz idleStack me s₂)) ∧
    (∀ (as bs : List Posix.Action) (s s₁ s₂ : Posix.State),
      exec (Posix.step sz) (Posix.boot sz cfg objs mem) as = some s →
      s.sys.k.current = some me → s.sys.conts me = .user → ms * s.sys.k.tickHz ≤ 2 ^ 31 * 1000 →
      Posix.step sz s (.task (.sleep ms)) = some s₁ → exec (Posix.step sz) s₁ bs = some s₂ →
      Along (Posix.step sz) (Posix.ReadyClean sz) (Posix.boot sz cfg objs mem)
        (as ++ .task (.sleep ms) :: bs) →
      Along (Posix.step sz) (Posix.RestsOn me) s₁ bs →
      KeepsTime ms s.sys.k.tickHz (bs.countP Posix.Action.isTick) (s₂.sys.k.stateOf me)
        (Posix.GoesOn sz me s₂)) := by
  refine ⟨fun idleStack as bs s s₁ s₂ hrun hcur hc hlong hcall hwait hclean hrest => ?_,
    fun as bs s s₁ s₂ hrun hcur hc hlong hcall hwait hclean hrest => ?_⟩
  · obtain ⟨hclean₀, hclean₁, hclean₂⟩ := (along_append hrun).mp hclean
    obtain ⟨hready, hinv⟩ := CortexM.readyInv_of_run hr hrun hclean₀
    have hk₁ := CortexM.step_sleep hcur hc hcall
    obtain ⟨hready₂, hasleep⟩ := CortexM.asleep_of_run hr (hready.step hr hinv hclean₁ hcall)
      (CortexM.step_partInv hr hready.runsUnblocked hinv hcall) (hk₁ ▸ Asleep.start sz me ms s.k)
      (hclean₂ s₁ hcall) hrest hwait
    rw [Nat.zero_add, hk₁] at hasleep
    exact hasleep.keepsTime (hinv.lt me (by rw [hc]; simp)) (CortexM.tick_lt_of_run hr hrun hclean₀)
      hlong hready₂.ready_of_goesOn
  · obtain ⟨hclean₀, hclean₁, hclean₂⟩ := (along_append hrun).mp hclean
    obtain ⟨hready, hinv⟩ := Posix.readyInv_of_run hr hrun hclean₀
    have hk₁ := Posix.step_sleep hcur hc hcall
    obtain ⟨hready₂, hasleep⟩ := Posix.asleep_of_run hr (hready.step hr hinv hclean₁ hcall)
      (Posix.step_partInv hr hready.runsLive hinv hcall) (hk₁ ▸ Asleep.start sz me ms s.sys.k)
      (hclean₂ s₁ hcall) hrest hwait
    rw [Nat.zero_add, hk₁] at hasleep
    exact hasleep.keepsTime (hinv.lt me (by rw [hc]; simp)) (Posix.tick_lt_of_run hr hrun hclean₀)
      hlong hready₂.ready_of_goesOn

/-- Two tasks are created on a board and the first one runs. -/
def firstRuns : List CortexM.Action :=
  [.main (.createTask ⟨1, 0, 0x20001000, 64, none⟩), .main (.createTask ⟨1, 0, 0x20002000, 64, none⟩),
    .start, .pendsv 0]

/-- The first one gives up the CPU; two ticks arrive while the second one runs, and the switch that the
second tick has requested comes after the second one has gone to sleep itself. -/
def twoTicks : List CortexM.Action :=
  [.task .yield, .pendsv 0x20001080, .tick, .task (.sleep 5), .tick, .pendsv 0x20002080]

/-- The first task sleeps for two milliseconds at a tick rate of 1 kHz. -/
theorem sleep_keeps_time_two : ∃ s s₁ s₂,
    exec (CortexM.step .default 0x20000000) CortexM.board firstRuns = some s ∧
    CortexM.step .default 0x20000000 s (.task (.sleep 2)) = some s₁ ∧
    exec (CortexM.step .default 0x20000000) s₁ twoTicks = some s₂ ∧
    s₂.k.current = some 0 ∧ hrtMsToTicks 2 s.k.tickHz = 2 ∧
    KeepsTime 2 s.k.tickHz 2 (s₂.k.stateOf 0) (CortexM.GoesOn .default 0x20000000 0 s₂) := by
  have heval : ((exec (CortexM.step .default 0x20000000) CortexM.board firstRuns).map fun s =>
      (decide (s.k.current = some 0 ∧ s.conts 0 = .user ∧ s.k.tickHz = 1000),
        (CortexM.step .default 0x20000000 s (.task (.sleep 2))).map fun s₁ =>
          (decide (Along (CortexM.step .default 0x20000000) (CortexM.RestsOn 0) s₁ twoTicks),
            (exec (CortexM.step .default 0x20000000) s₁ twoTicks).map fun s₂ => s₂.k.current))) =
      some (true, some (true, some (some 0))) := by
    decide +kernel
  obtain ⟨s, hs, hv⟩ := Option.map_eq_some_iff.mp heval
  obtain ⟨hfacts, hv⟩ := Prod.mk.inj hv
  obtain ⟨hcur, hc, hhz⟩ := of_decide_eq_true hfacts
  obtain ⟨s₁, hs₁, hv⟩ := Option.map_eq_some_iff.mp hv
  obtain ⟨hrest, hv⟩ := Prod.mk.inj hv
  obtain ⟨s₂, hs₂, hcur₂⟩ := Option.map_eq_some_iff.mp hv
  have hr : Sizing.default.Representable := by decide
  refine ⟨s, s₁, s₂, hs, hs₁, hs₂, hcur₂, by rw [hhz]; rfl, ?_⟩
  exact (sleep_keeps_time hr none .basic .bss 0 2).1 0x20000000 firstRuns twoTicks s s₁ s₂ hs hcur hc
    (by rw [hhz]; decide) hs₁ hs₂ (by decide +kernel) (of_decide_eq_true hrest)

end Results

end HardRT
