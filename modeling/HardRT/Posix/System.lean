import HardRT.System.PortSteps

/-! # The POSIX port

`src/port/posix/port_posix.c`: a scheduler loop on its own context picks a task, swaps to it, and gets
the CPU back when the task calls `hrt_port_yield_to_scheduler`. Ticks are `SIGALRM`; they are masked
from the pick to the swap and from a task's swap back to the end of `hrt__on_scheduler_entry`, and may
arrive anywhere else.

* `Posix.step` — the machine: `Mode` says where the loop is.
* `Posix.step_task` — what a step of the running task can be.
* `Posix.step_leads` — every step is an act and moves of the scheduler.
* `Posix.IdsInv` — the ids in circulation, along every run.
* `Posix.IdleFree` — nobody lives in the idle slot, along every run whose creations spare it.
* `Posix.step_interleave` — as long as only live tasks run, its steps are runs of the interleaving
  machine in which parked tasks wait. -/

namespace HardRT

open Lib

namespace Posix

/-- Where the scheduler loop is. -/
inductive Mode
  /-- `main` has not called `hrt_start` yet. -/
  | boot
  /-- At the loop head, `hrt_port_idle_wait` included. -/
  | head
  /-- `g_switch_pending` has been cleared and `SIGALRM` not yet blocked. -/
  | cleared
  /-- The current task has the CPU. -/
  | running
  deriving DecidableEq, Repr

/-- The system and where the loop is. -/
structure State where
  sys : Sys
  mode : Mode

/-- What can happen next. -/
inductive Action
  /-- `main` makes a call, before the scheduler is started. -/
  | main (c : MainCall)
  /-- `hrt_start`. -/
  | start
  /-- The loop goes on: it looks at `g_switch_pending`, or it picks a task. -/
  | loop
  /-- The running task takes its next action, issuing `c` if it is between calls. -/
  | task (c : Call)
  /-- The function of the running task has ended and `hrt__task_trampoline` returns. -/
  | finish
  /-- An ISR runs. -/
  | isr (op : Isr)
  /-- A tick: `SIGALRM`, whose handler also sets `g_switch_pending`, or `hrt_tick_from_isr`. -/
  | tick (alarm : Bool)
  deriving DecidableEq, Repr

/-- What an action does besides scheduling. -/
def Action.act : Action → PortAct
  | .main c => .main c
  | .task c => .task c
  | .isr op => .isr op
  | .tick _ => .tick
  | .start | .loop | .finish => .sched

/-- The tick handler of this port: `_tick_sighandler`, or `hrt_tick_from_isr` alone. -/
def tickHandler (sz : Sizing) (alarm : Bool) (k : Kernel) : Kernel :=
  if alarm then (hrtTickIsr sz k).hrtPendContextSwitch else hrtTickIsr sz k

/-- One turn of the loop from where it is: the look at `g_switch_pending`, or the masked part up to
`swapcontext`. -/
def loopStep (sz : Sizing) (s : State) : Option State :=
  match s.mode with
  | .head =>
      if s.sys.k.pend then some ⟨{ s.sys with k := { s.sys.k with pend := false } }, .cleared⟩
      else some s
  | .cleared =>
      let r := hrtPickNextReady sz s.sys.k
      if r.1 = sz.idleId then some ⟨{ s.sys with k := r.2 }, .head⟩
      else some ⟨{ s.sys with k := { r.2 with current := some r.1 } }, .running⟩
  | _ => none

/-- **The POSIX machine.** Every task has a valid context in `g_ctxs` once it is created, so
`hrt_port_yield_to_scheduler` swaps to the loop unless the caller is in the idle slot; the loop then
runs `hrt__on_scheduler_entry` before it unmasks the tick. A trampoline that returns goes on at
`uc_link = &g_sched_ctx`, which is the same place of the loop; what `g_ctxs` holds of the task is still
the context that its `hrt_task_delete` saved. -/
def step (sz : Sizing) (s : State) : Action → Option State
  | .main c => if s.mode = .boot then some { s with sys := s.sys.main sz .posix c } else none
  | .start =>
      if s.mode = .boot then some ⟨{ s.sys with k := s.sys.k.hrtPendContextSwitch }, .head⟩ else none
  | .loop => loopStep sz s
  | .task c =>
      if s.mode = .running then
        match s.sys.k.current with
        | none => none
        | some t =>
            match s.sys.conts t with
            | .hop a =>
                if t = sz.idleId then some { s with sys := s.sys.land t a }
                else some ⟨{ s.sys.land t a with k := hrtOnSchedulerEntry sz s.sys.k }, .head⟩
            | _ => (s.sys.task sz .posix t c).map fun s' => ⟨s', .running⟩
      else none
  | .finish =>
      if s.mode = .running then
        match s.sys.k.current with
        | none => none
        | some t =>
            if Exited t (s.sys.k.stateOf t) (s.sys.conts t) s.sys.log then
              some ⟨{ s.sys.land t (.ret .taskDelete 0) with k := hrtOnSchedulerEntry sz s.sys.k }, .head⟩
            else none
      else none
  | .isr op => some { s with sys := s.sys.isr sz op }
  | .tick alarm => some { s with sys := { s.sys with k := tickHandler sz alarm s.sys.k } }

/-- The system after boot on this port. -/
abbrev boot (sz : Sizing) (cfg : Option KernelConfig) (objs : ObjectSpecs) (mem : Kernel) : State :=
  ⟨Sys.boot sz .posix cfg objs mem, .boot⟩

/-- A process with the default sizes, a default configuration and cleared memory. -/
abbrev process : State := boot .default none .basic .bss

section Steps

variable {sz : Sizing} {s s' : State}

theorem step_main {c : MainCall} (h : step sz s (.main c) = some s') :
    s.mode = .boot ∧ s' = { s with sys := s.sys.main sz .posix c } := by
  simp only [step] at h
  split at h
  · exact ⟨‹_›, (Option.some.inj h).symm⟩
  · exact absurd h (by simp)

theorem step_start (h : step sz s .start = some s') :
    s.mode = .boot ∧ s' = ⟨{ s.sys with k := s.sys.k.hrtPendContextSwitch }, .head⟩ := by
  simp only [step] at h
  split at h
  · exact ⟨‹_›, (Option.some.inj h).symm⟩
  · exact absurd h (by simp)

/-- **What a turn of the loop can be**: it keeps waiting, takes a request, finds nobody ready, or swaps
to a task. -/
theorem step_loop (h : step sz s .loop = some s') :
    (s.mode = .head ∧ s.sys.k.pend = false ∧ s' = s) ∨
    (s.mode = .head ∧ s' = ⟨{ s.sys with k := { s.sys.k with pend := false } }, .cleared⟩) ∨
    (s.mode = .cleared ∧ (hrtPickNextReady sz s.sys.k).1 = sz.idleId ∧
      s' = ⟨{ s.sys with k := (hrtPickNextReady sz s.sys.k).2 }, .head⟩) ∨
    (s.mode = .cleared ∧ (hrtPickNextReady sz s.sys.k).1 ≠ sz.idleId ∧
      s' = ⟨{ s.sys with k := { (hrtPickNextReady sz s.sys.k).2 with
        current := some (hrtPickNextReady sz s.sys.k).1 } }, .running⟩) := by
  simp only [step, loopStep] at h
  split at h
  · rename_i hm
    split at h
    · exact Or.inr (Or.inl ⟨hm, (Option.some.inj h).symm⟩)
    · rename_i hp
      exact Or.inl ⟨hm, Bool.eq_false_of_not_eq_true hp, (Option.some.inj h).symm⟩
  · rename_i hm
    split at h
    · exact Or.inr (Or.inr (Or.inl ⟨hm, ‹_›, (Option.some.inj h).symm⟩))
    · exact Or.inr (Or.inr (Or.inr ⟨hm, ‹_›, (Option.some.inj h).symm⟩))
  · exact absurd h (by simp)

/-- **What a step of the running task can be**: its own next action, the return to the loop, or, in the
idle slot, a `hrt_port_yield_to_scheduler` that does nothing. -/
theorem step_task {c : Call} (h : step sz s (.task c) = some s') :
    ∃ t, s.mode = .running ∧ s.sys.k.current = some t ∧
      ((∃ o, nextAction sz .posix t c s.sys.k (s.sys.conts t) = some o ∧
          s' = ⟨s.sys.apply t o, .running⟩) ∨
       ∃ a, s.sys.conts t = .hop a ∧
        ((t = sz.idleId ∧ s' = { s with sys := s.sys.land t a }) ∨
         (t ≠ sz.idleId ∧
          s' = ⟨{ s.sys.land t a with k := hrtOnSchedulerEntry sz s.sys.k }, .head⟩))) := by
  simp only [step] at h
  split at h
  · rename_i hm
    split at h
    · exact absurd h (by simp)
    · rename_i t ht
      refine ⟨t, hm, ht, ?_⟩
      split at h
      · rename_i a ha
        right
        split at h
        · exact ⟨a, ha, Or.inl ⟨‹_›, (Option.some.inj h).symm⟩⟩
        · exact ⟨a, ha, Or.inr ⟨‹_›, (Option.some.inj h).symm⟩⟩
      · obtain ⟨x, hx, hs'⟩ := Option.map_eq_some_iff.mp h
        obtain ⟨o, ho, hx'⟩ := Option.map_eq_some_iff.mp hx
        exact Or.inl ⟨o, ho, by rw [← hs', ← hx']⟩
  · exact absurd h (by simp)

/-- **What the return of a trampoline does**: the task is no longer ready, so that the loop only goes
on. -/
theorem step_finish (h : step sz s .finish = some s') :
    ∃ t, s.mode = .running ∧ s.sys.k.current = some t ∧
      Exited t (s.sys.k.stateOf t) (s.sys.conts t) s.sys.log ∧
      s' = ⟨s.sys.land t (.ret .taskDelete 0), .head⟩ := by
  simp only [step] at h
  split at h
  · rename_i hm
    split at h
    · exact absurd h (by simp)
    · rename_i t ht
      split at h
      · rename_i hx
        refine ⟨t, hm, ht, hx, ?_⟩
        rw [hrtOnSchedulerEntry_of_not_ready sz ht (by rw [hx.2.1]; simp)] at h
        exact (Option.some.inj h).symm
      · exact absurd h (by simp)
  · exact absurd h (by simp)

/-- **Every step is an act and moves of the scheduler**: requests, the moves of the loop, or the entry
to it from a task that swaps back. -/
theorem step_leads {a : Action} (h : step sz s a = some s') :
    ∃ s₁ ops, a.act.Leads sz .posix s.sys s₁ ∧ s'.sys = s₁.scheduled sz ops ∧
      ((∀ op ∈ ops, op.queues = false) ∨
       ∃ t x, s.sys.k.current = some t ∧ s.sys.conts t = .hop x ∧ s₁ = s.sys.land t x ∧
        ops = [.entry]) := by
  cases a with
  | main c =>
      obtain ⟨-, rfl⟩ := step_main h
      exact ⟨_, [], .main c, rfl, Or.inl (by simp)⟩
  | start =>
      obtain ⟨-, rfl⟩ := step_start h
      exact ⟨_, [.pend], .idle, rfl, Or.inl (by simp [SchedOp.queues])⟩
  | loop =>
      rcases step_loop h with ⟨-, -, rfl⟩ | ⟨-, rfl⟩ | ⟨-, -, rfl⟩ | ⟨-, -, rfl⟩
      · exact ⟨_, [], .idle, rfl, Or.inl (by simp)⟩
      · exact ⟨_, [.unpend], .idle, rfl, Or.inl (by simp [SchedOp.queues])⟩
      · exact ⟨_, [.pick], .idle, rfl, Or.inl (by simp [SchedOp.queues])⟩
      · exact ⟨_, [.pick, .setCurrent (hrtPickNextReady sz s.sys.k).1], .idle, rfl,
          Or.inl (by simp [SchedOp.queues])⟩
  | task c =>
      obtain ⟨t, -, hcur, ⟨o, ho, rfl⟩ | ⟨x, hx, ⟨-, rfl⟩ | ⟨-, rfl⟩⟩⟩ := step_task h
      · exact ⟨_, [], .run hcur ho, rfl, Or.inl (by simp)⟩
      · exact ⟨_, [], .land hcur hx, rfl, Or.inl (by simp)⟩
      · exact ⟨_, [.entry], .land hcur hx, rfl, Or.inr ⟨t, x, hcur, hx, rfl, rfl⟩⟩
  | finish =>
      obtain ⟨t, -, -, hx, rfl⟩ := step_finish h
      exact ⟨_, [], .left _ (by simp [hx.1]), rfl, Or.inl (by simp)⟩
  | isr op =>
      obtain rfl := Option.some.inj h
      exact ⟨_, [], .isr op, rfl, Or.inl (by simp)⟩
  | tick alarm =>
      obtain rfl := Option.some.inj h
      cases alarm with
      | false => exact ⟨_, [], .tick, rfl, Or.inl (by simp)⟩
      | true => exact ⟨_, [.pend], .tick, rfl, Or.inl (by simp [SchedOp.queues])⟩

theorem step_portStep {a : Action} (h : step sz s a = some s') :
    PortStep sz .posix s.sys a.act s'.sys := by
  obtain ⟨s₁, ops, hlead, hs', -⟩ := step_leads h
  exact ⟨s₁, ops, hlead, hs'⟩

end Steps

/-! ## The tick handler -/

section Tick

variable (sz : Sizing) (alarm : Bool) (k : Kernel)

/-- The handler adds at most a request to what `hrt__tick_isr` does. -/
theorem tickHandler_cases :
    tickHandler sz alarm k = (hrtTickIsr sz k).hrtPendContextSwitch ∨
    tickHandler sz alarm k = hrtTickIsr sz k := by
  unfold tickHandler
  split
  · exact Or.inl rfl
  · exact Or.inr rfl

theorem tickHandler_stateOf (j : ℕ) :
    (tickHandler sz alarm k).stateOf j = (hrtTickIsr sz k).stateOf j := by
  rcases tickHandler_cases sz alarm k with h | h <;> rw [h]
  rfl

theorem tickHandler_tcbs : (tickHandler sz alarm k).tcbs = (hrtTickIsr sz k).tcbs := by
  rcases tickHandler_cases sz alarm k with h | h <;> rw [h]
  rfl

theorem tickHandler_rq : (tickHandler sz alarm k).rq = (hrtTickIsr sz k).rq := by
  rcases tickHandler_cases sz alarm k with h | h <;> rw [h]
  rfl

theorem tickHandler_current : (tickHandler sz alarm k).current = k.current := by
  rcases tickHandler_cases sz alarm k with h | h
  · rw [h]
    exact (hrtTickIsr_frame sz k).1
  · rw [h]
    exact (hrtTickIsr_frame sz k).1

/-- The handler withdraws no request. -/
theorem tickHandler_pend (hp : (hrtTickIsr sz k).pend = true) :
    (tickHandler sz alarm k).pend = true := by
  rcases tickHandler_cases sz alarm k with h | h
  · rw [h]
    rfl
  · rw [h]
    exact hp

end Tick

/-! ## Refinement of the interleaving machine -/

/-- **Only live tasks run**: the task on the CPU, if it is about to run code of its own or the rest of
a call after the swap, is neither blocked nor deleted. -/
def RunsLive (s : State) : Prop :=
  ∀ t, s.mode = .running → s.sys.k.current = some t →
    (s.sys.conts t = .user ∨ ∃ a, s.sys.conts t = .resumed a) →
    s.sys.k.stateOf t ≠ .blocked ∧ s.sys.k.stateOf t ≠ .unused

section Refinement

variable {sz : Sizing} {s s' : State}

/-- **Every step is a run of the interleaving machine**, along any condition that only restricts what
tasks do and that the running task meets. -/
theorem step_interleave_along {P : Sys → Interleave.Action → Prop}
    (hfree : ∀ s b, (∀ t c, b ≠ .task t c) → P s b)
    {a : Action} (hcurP : ∀ t c, a = .task c → s.mode = .running → s.sys.k.current = some t →
      s.sys.conts t ≠ .none → P s.sys (.task t c))
    (hrun : RunsLive s) (h : step sz s a = some s') :
    ∃ bs, exec (Interleave.step sz .posix) s.sys bs = some s'.sys ∧
      Along (Interleave.step sz .posix) P s.sys bs := by
  have hone : ∀ x b, (∀ t c, b ≠ .task t c) → Along (Interleave.step sz .posix) P x [b] :=
    fun x b hb => ⟨hfree _ _ hb, fun _ _ => trivial⟩
  cases a with
  | main c =>
      obtain ⟨-, rfl⟩ := step_main h
      exact ⟨[.main c], rfl, hone _ _ (by simp)⟩
  | start =>
      obtain ⟨-, rfl⟩ := step_start h
      exact ⟨[.sched .pend], rfl, hone _ _ (by simp)⟩
  | isr op =>
      obtain rfl := Option.some.inj h
      exact ⟨[.isr op], rfl, hone _ _ (by simp)⟩
  | tick alarm =>
      obtain rfl := Option.some.inj h
      cases alarm with
      | false => exact ⟨[.tick], rfl, hone _ _ (by simp)⟩
      | true =>
          exact ⟨[.tick, .sched .pend], rfl, hfree _ _ (by simp), fun _ _ => hone _ _ (by simp)⟩
  | loop =>
      rcases step_loop h with ⟨-, -, rfl⟩ | ⟨-, rfl⟩ | ⟨-, -, rfl⟩ | ⟨-, -, rfl⟩
      · exact ⟨[], rfl, trivial⟩
      · exact ⟨[.sched .unpend], rfl, hone _ _ (by simp)⟩
      · exact ⟨[.sched .pick], rfl, hone _ _ (by simp)⟩
      · exact ⟨[.sched .pick, .sched (.setCurrent (hrtPickNextReady sz s.sys.k).1)], rfl,
          hfree _ _ (by simp), fun _ _ => hone _ _ (by simp)⟩
  | task c =>
      obtain ⟨t, hm, hcur, ⟨o, ho, rfl⟩ | ⟨x, hx, hland⟩⟩ := step_task h
      · have hcode : s.sys.conts t ≠ .none := by
          intro hn
          rw [hn] at ho
          exact absurd ho (by simp [nextAction])
        have hact : s.sys.MayAct t := by
          intro hiss
          refine (hrun t hm hcur ?_).1
          cases hc : s.sys.conts t with
          | user => exact Or.inl rfl
          | resumed x => exact Or.inr ⟨x, rfl⟩
          | _ => rw [hc] at hiss; exact absurd hiss (by simp [Cont.issues])
        refine ⟨[.task t c], exec_cons.mpr ⟨_, ?_, rfl⟩, hcurP t c rfl hm hcur hcode, fun _ _ => trivial⟩
        simp only [Interleave.step]
        split
        · rename_i x hx
          rw [hx] at ho
          exact absurd ho (by simp [nextAction])
        · rw [if_pos hact, Sys.setCurrent_of_current hcur]
          exact Option.map_eq_some_iff.mpr ⟨o, ho, rfl⟩
      · have hstep : Interleave.step sz .posix s.sys (.task t c) = some (s.sys.land t x) := by
          simp only [Interleave.step, hx, Sys.setCurrent_of_current hcur]
        have hP : P s.sys (.task t c) := hcurP t c rfl hm hcur (by simp [hx])
        rcases hland with ⟨-, rfl⟩ | ⟨-, rfl⟩
        · exact ⟨[.task t c], exec_cons.mpr ⟨_, hstep, rfl⟩, hP, fun _ _ => trivial⟩
        · exact ⟨[.task t c, .sched .entry], exec_cons.mpr ⟨_, hstep, rfl⟩, hP,
            fun _ _ => hone _ _ (by simp)⟩
  | finish =>
      obtain ⟨t, hm, hcur, hx, -⟩ := step_finish h
      exact absurd hx.2.1 (hrun t hm hcur (Or.inl hx.1)).2

/-- **Every step is a run of the interleaving machine** in which parked tasks wait. -/
theorem step_interleave (hrun : RunsLive s) {a : Action} (h : step sz s a = some s') :
    ∃ bs, exec (Interleave.step sz .posix) s.sys bs = some s'.sys ∧
      Along (Interleave.step sz .posix) WaitsParked s.sys bs := by
  refine step_interleave_along (fun s b hb => ?_) (fun t c _ hm hcur _ => ?_) hrun h
  · exact WaitsParked.of_not_task hb
  · exact WaitsParked.of_not_blocked fun a ha => (hrun t hm hcur (Or.inr ⟨a, ha⟩)).1

/-- **The blocked partition is kept** by every step that runs a live task. -/
theorem step_partInv (hr : sz.Representable) (hrun : RunsLive s) (hinv : PartInv sz s.sys)
    {a : Action} (h : step sz s a = some s') : PartInv sz s'.sys := by
  obtain ⟨bs, hbs, -⟩ := step_interleave hrun h
  exact exec_invariant' (fun s a s' hs hstep => hs.step hr hstep) hinv hbs

end Refinement

/-! ## Ids -/

/-- **The ids in circulation** are those of slots with a context, and so is the current task: the loop
never makes the idle slot current on its own account. -/
structure IdsInv (sz : Sizing) (s : State) : Prop where
  known : KnownIds sz s.sys.k fun id => s.sys.conts id ≠ .none
  cur : ∀ t, s.sys.k.current = some t → s.sys.conts t ≠ .none

section Ids

variable {sz : Sizing} {s s' : State}

/-- Only the loop changes who is current. -/
theorem step_current {a : Action} (h : step sz s a = some s') (hloop : a ≠ .loop) :
    s'.sys.k.current = s.sys.k.current := by
  cases a with
  | main c =>
      obtain ⟨-, rfl⟩ := step_main h
      exact Sys.main_current sz .posix s.sys c
  | start =>
      obtain ⟨-, rfl⟩ := step_start h
      rfl
  | loop => exact absurd rfl hloop
  | task c =>
      obtain ⟨t, -, -, ⟨o, ho, rfl⟩ | ⟨x, -, ⟨-, rfl⟩ | ⟨-, rfl⟩⟩⟩ := step_task h
      · exact (taskEffect ho).current
      · rfl
      · exact hrtOnSchedulerEntry_current sz s.sys.k
  | finish =>
      obtain ⟨t, -, -, -, rfl⟩ := step_finish h
      rfl
  | isr op =>
      obtain rfl := Option.some.inj h
      exact isr_current sz s.sys.k op
  | tick alarm =>
      obtain rfl := Option.some.inj h
      exact tickHandler_current sz alarm s.sys.k

/-- **Every step keeps the ids in range.** -/
theorem IdsInv.step (h : IdsInv sz s) (hr : sz.Representable) {a : Action}
    (hstep : Posix.step sz s a = some s') : IdsInv sz s' := by
  have hport := step_portStep hstep
  refine ⟨hport.knownIds hr h.known, fun t ht => ?_⟩
  by_cases hloop : a = .loop
  · subst hloop
    rcases step_loop hstep with ⟨-, -, rfl⟩ | ⟨-, rfl⟩ | ⟨-, -, rfl⟩ | ⟨-, hne, rfl⟩
    · exact h.cur t ht
    · exact h.cur t ht
    · exact h.cur t ((hrtPickNextReady_current sz s.sys.k).symm.trans ht)
    · obtain rfl : (hrtPickNextReady sz s.sys.k).1 = t := Option.some.inj ht
      exact (h.known.pick hr).2.resolve_right hne
  · -- nobody is swapped to: the current task keeps its context
    rw [step_current hstep hloop] at ht
    exact hport.conts_ne_none (h.cur t ht)

theorem IdsInv.boot (sz : Sizing) (cfg : Option KernelConfig) (objs : ObjectSpecs) (mem : Kernel) :
    IdsInv sz (boot sz cfg objs mem) where
  known := KnownIds.boot sz _ cfg objs mem fun _ hid => absurd rfl hid
  cur t ht := by
    have hnone := (hrtInit_frame sz { mem with error := .none, pend := false } .posix cfg).2.1
    exact absurd (hnone.symm.trans ht) (by simp)

end Ids

/-! ## The idle slot -/

/-- Every creation has arguments, and is made in a kernel, that satisfy `P`. -/
def CreatesWhen (P : Kernel → TaskArgs → Prop) (s : State) (a : Action) : Prop :=
  a.act.CreatesWhen P s.sys

instance (P : Kernel → TaskArgs → Prop) [∀ k a, Decidable (P k a)] (s : State) :
    DecidablePred (CreatesWhen P s) :=
  fun a => inferInstanceAs (Decidable (a.act.CreatesWhen P s.sys))

/-- **Nobody lives in the idle slot**, and the ids in circulation are those of user tasks. -/
structure IdleFree (sz : Sizing) (s : State) : Prop where
  ids : IdsInv sz s
  free : s.sys.conts sz.idleId = .none

section IdleFree

variable {sz : Sizing} {s s' : State}

/-- **Every step keeps the idle slot free** if creations spare it. -/
theorem IdleFree.step (h : IdleFree sz s) (hr : sz.Representable) {a : Action}
    (hc : CreatesWhen (SparesIdle sz) s a) (hstep : Posix.step sz s a = some s') :
    IdleFree sz s' :=
  ⟨h.ids.step hr hstep, (step_portStep hstep).idle_free hc h.free⟩

/-- In every run whose creations spare the idle slot nobody lives there. -/
theorem idleFree_of_run {cfg : Option KernelConfig} {objs : ObjectSpecs} {mem : Kernel}
    (hr : sz.Representable) {as : List Action}
    (hrun : exec (Posix.step sz) (boot sz cfg objs mem) as = some s)
    (hc : Along (Posix.step sz) (CreatesWhen (SparesIdle sz)) (boot sz cfg objs mem) as) :
    IdleFree sz s :=
  exec_invariant (fun _ _ _ h ha hstep => h.step hr ha hstep)
    ⟨IdsInv.boot sz cfg objs mem, rfl⟩ hc hrun

end IdleFree

end Posix

end HardRT
