import HardRT.System.PortSteps

/-! # The Cortex-M port

`src/port/cortex_m`: there is no scheduler loop. A reschedule request sets the pending bit of `PendSV`,
an exception of the lowest priority, whose handler passes the outgoing stack pointer to `hrt__schedule`
and loads the one it returns. The handler runs as soon as the bit is set and neither a critical section
nor an interrupt is active, so a task takes an action only while the bit is clear.

`hrt_port_yield_to_scheduler` only sets the bit again. A call that gives up the CPU therefore requests
two switches: the first one takes effect at once, and the second when the task runs again.

* `CortexM.step` — the machine.
* `CortexM.step_task` — what a step of the current task can be.
* `CortexM.step_leads` — every step is an act and moves of the scheduler.
* `CortexM.IdsInv` — the ids in circulation, along every run.
* `CortexM.IdleFree` — nobody lives in the idle slot, along every run whose creations spare it.
* `CortexM.refines_interleave` — as long as no blocked task is resumed, its runs are runs of the
  interleaving machine in which parked tasks wait, and so inherit what holds there. -/

namespace HardRT

open Lib

namespace CortexM

/-- What can happen next. -/
inductive Action
  /-- `main` makes a call, before the scheduler is started. -/
  | main (c : MainCall)
  /-- `hrt_port_enter_scheduler`: the first switch is requested and `main` never returns. -/
  | start
  /-- The current task takes its next action, issuing `c` if it is between calls. -/
  | task (c : Call)
  /-- An ISR runs. -/
  | isr (op : Isr)
  /-- `SysTick_Handler`. -/
  | tick
  /-- `PendSV_Handler`; `oldSp` is what it passes to `hrt__schedule`: the process stack pointer after
  the push of `r4`-`r11`, or 0 on the first switch. -/
  | pendsv (oldSp : ℕ)
  deriving DecidableEq, Repr

/-- What an action does besides scheduling. -/
def Action.act : Action → PortAct
  | .main c => .main c
  | .task c => .task c
  | .isr op => .isr op
  | .tick => .tick
  | .start | .pendsv _ => .sched

/-- **The Cortex-M machine**; the idle stack is at `idleStack`. The exit of `PendSV_Handler` for a null
stack pointer (`cbz r0, resume`) would leave the context as it is; contexts are those of the task table
here, so the step stands for the other exit. -/
def step (sz : Sizing) (idleStack : ℕ) (s : Sys) : Action → Option Sys
  | .main c =>
      if s.k.current = none ∧ s.k.pend = false then some (s.main sz (.cortexM idleStack) c) else none
  | .start => if s.k.current = none then some { s with k := s.k.hrtPendContextSwitch } else none
  | .task c =>
      match s.k.current with
      | none => none
      | some t =>
          if s.k.pend then none
          else match s.conts t with
            -- `hrt_port_yield_to_scheduler` requests a switch and returns
            | .hop a => some { s.land t a with k := s.k.hrtPendContextSwitch }
            | _ => s.task sz (.cortexM idleStack) t c
  | .isr op => some (s.isr sz op)
  | .tick => some (s.tickIsr sz)
  | .pendsv oldSp =>
      -- the pending bit is cleared when the exception is taken
      if s.k.pend = true ∧ (oldSp = 0 ↔ s.k.current = none) then
        some { s with k := (hrtSchedule sz oldSp { s.k with pend := false }).2 }
      else none

/-- The system after boot on this port. -/
abbrev boot (sz : Sizing) (idleStack : ℕ) (cfg : Option KernelConfig) (objs : ObjectSpecs)
    (mem : Kernel) : Sys :=
  Sys.boot sz (.cortexM idleStack) cfg objs mem

/-- A board with the default sizes, a default configuration and cleared memory. -/
abbrev board : Sys := boot .default 0x20000000 none .basic .bss

section Steps

variable {sz : Sizing} {idleStack : ℕ} {s s' : Sys}

/-- **What a step of the current task can be**: its own next action, or the second request made by
`hrt_port_yield_to_scheduler`. -/
theorem step_task {c : Call} (h : step sz idleStack s (.task c) = some s') :
    ∃ t, s.k.current = some t ∧ s.k.pend = false ∧
      ((∃ o, nextAction sz (.cortexM idleStack) t c s.k (s.conts t) = some o ∧ s' = s.apply t o) ∨
       ∃ a, s.conts t = .hop a ∧ s' = { s.land t a with k := s.k.hrtPendContextSwitch }) := by
  simp only [step] at h
  split at h
  · exact absurd h (by simp)
  · rename_i t ht
    split at h
    · exact absurd h (by simp)
    · rename_i hpend
      refine ⟨t, ht, by simpa using hpend, ?_⟩
      split at h
      · rename_i a ha
        exact Or.inr ⟨a, ha, (Option.some.inj h).symm⟩
      · obtain ⟨o, ho, hs'⟩ := Option.map_eq_some_iff.mp h
        exact Or.inl ⟨o, ho, hs'.symm⟩

/-- `PendSV_Handler` runs `hrt__schedule`. -/
theorem step_pendsv {oldSp : ℕ} (h : step sz idleStack s (.pendsv oldSp) = some s') :
    s.k.pend = true ∧ (oldSp = 0 ↔ s.k.current = none) ∧
      s' = { s with k := (hrtSchedule sz oldSp { s.k with pend := false }).2 } := by
  simp only [step] at h
  split at h
  · rename_i hc
    exact ⟨hc.1, hc.2, (Option.some.inj h).symm⟩
  · exact absurd h (by simp)

theorem step_main {c : MainCall} (h : step sz idleStack s (.main c) = some s') :
    s.k.current = none ∧ s.k.pend = false ∧ s' = s.main sz (.cortexM idleStack) c := by
  simp only [step] at h
  split at h
  · rename_i hc
    exact ⟨hc.1, hc.2, (Option.some.inj h).symm⟩
  · exact absurd h (by simp)

theorem step_start (h : step sz idleStack s .start = some s') :
    s.k.current = none ∧ s' = { s with k := s.k.hrtPendContextSwitch } := by
  simp only [step] at h
  split at h
  · rename_i hc
    exact ⟨hc, (Option.some.inj h).symm⟩
  · exact absurd h (by simp)

/-- Only a switch changes who is current. -/
theorem step_current {a : Action} (h : step sz idleStack s a = some s')
    (hns : ∀ oldSp, a ≠ .pendsv oldSp) : s'.k.current = s.k.current := by
  cases a with
  | main c =>
      obtain ⟨-, -, rfl⟩ := step_main h
      exact Sys.main_current sz _ s c
  | start =>
      obtain ⟨-, rfl⟩ := step_start h
      rfl
  | task c =>
      obtain ⟨t, -, -, ⟨o, ho, rfl⟩ | ⟨x, -, rfl⟩⟩ := step_task h
      · exact (taskEffect ho).current
      · rfl
  | isr op =>
      obtain rfl := Option.some.inj h
      exact isr_current sz s.k op
  | tick =>
      obtain rfl := Option.some.inj h
      exact (hrtTickIsr_frame sz s.k).1
  | pendsv oldSp => exact absurd rfl (hns oldSp)

/-- **Every step is an act and moves of the scheduler**: requests, or the switch of `PendSV`. -/
theorem step_leads {a : Action} (h : step sz idleStack s a = some s') :
    ∃ s₁ ops, a.act.Leads sz (.cortexM idleStack) s s₁ ∧ s' = s₁.scheduled sz ops ∧
      ((∀ op ∈ ops, op.queues = false) ∨
       ∃ oldSp, s₁ = s ∧ ops = [.unpend, .schedule oldSp]) := by
  cases a with
  | main c =>
      obtain ⟨-, -, rfl⟩ := step_main h
      exact ⟨_, [], .main c, rfl, Or.inl (by simp)⟩
  | start =>
      obtain ⟨-, rfl⟩ := step_start h
      exact ⟨_, [.pend], .idle, rfl, Or.inl (by simp [SchedOp.queues])⟩
  | task c =>
      obtain ⟨t, hcur, -, ⟨o, ho, rfl⟩ | ⟨x, hx, rfl⟩⟩ := step_task h
      · exact ⟨_, [], .run hcur ho, rfl, Or.inl (by simp)⟩
      · exact ⟨_, [.pend], .land hcur hx, rfl, Or.inl (by simp [SchedOp.queues])⟩
  | isr op =>
      obtain rfl := Option.some.inj h
      exact ⟨_, [], .isr op, rfl, Or.inl (by simp)⟩
  | tick =>
      obtain rfl := Option.some.inj h
      exact ⟨_, [], .tick, rfl, Or.inl (by simp)⟩
  | pendsv oldSp =>
      obtain ⟨-, -, rfl⟩ := step_pendsv h
      exact ⟨_, [.unpend, .schedule oldSp], .idle, rfl, Or.inr ⟨oldSp, rfl, rfl⟩⟩

theorem step_portStep {a : Action} (h : step sz idleStack s a = some s') :
    PortStep sz (.cortexM idleStack) s a.act s' := by
  obtain ⟨s₁, ops, hlead, hs', -⟩ := step_leads h
  exact ⟨s₁, ops, hlead, hs'⟩

end Steps

/-! ## Refinement of the interleaving machine -/

/-- **No blocked task is resumed**: a current task that is about to run code of its own, or the rest of
a call after the switch, is not blocked. -/
def RunsUnblocked (s : Sys) : Prop :=
  ∀ t, s.k.current = some t → s.k.pend = false →
    (s.conts t = .user ∨ ∃ a, s.conts t = .resumed a) → s.k.stateOf t ≠ .blocked

section Refinement

variable {sz : Sizing} {idleStack : ℕ} {s s' : Sys}

/-- **Every step is a run of the interleaving machine**, along any condition that only restricts what
tasks do and that the current task meets. -/
theorem step_interleave_along {P : Sys → Interleave.Action → Prop}
    (hfree : ∀ s b, (∀ t c, b ≠ .task t c) → P s b)
    {a : Action} (hcurP : ∀ t c, a = .task c → s.k.current = some t → s.k.pend = false →
      s.conts t ≠ .none → P s (.task t c))
    (hrun : RunsUnblocked s) (h : step sz idleStack s a = some s') :
    ∃ bs, exec (Interleave.step sz (.cortexM idleStack)) s bs = some s' ∧
      Along (Interleave.step sz (.cortexM idleStack)) P s bs := by
  have hone : ∀ b, (∀ t c, b ≠ .task t c) →
      Along (Interleave.step sz (.cortexM idleStack)) P s [b] :=
    fun b hb => ⟨hfree _ _ hb, fun _ _ => trivial⟩
  cases a with
  | main c =>
      obtain ⟨-, -, rfl⟩ := step_main h
      exact ⟨[.main c], rfl, hone _ (by simp)⟩
  | start =>
      obtain ⟨-, rfl⟩ := step_start h
      exact ⟨[.sched .pend], rfl, hone _ (by simp)⟩
  | isr op =>
      obtain rfl := Option.some.inj h
      exact ⟨[.isr op], rfl, hone _ (by simp)⟩
  | tick =>
      obtain rfl := Option.some.inj h
      exact ⟨[.tick], rfl, hone _ (by simp)⟩
  | pendsv oldSp =>
      obtain ⟨-, -, rfl⟩ := step_pendsv h
      exact ⟨[.sched .unpend, .sched (.schedule oldSp)], rfl, hfree _ _ (by simp),
        fun _ _ => ⟨hfree _ _ (by simp), fun _ _ => trivial⟩⟩
  | task c =>
      obtain ⟨t, hcur, hpend, ⟨o, ho, rfl⟩ | ⟨a, ha, rfl⟩⟩ := step_task h
      · have hself := Sys.setCurrent_of_current hcur
        have hcode : s.conts t ≠ .none := by
          intro hn
          rw [hn] at ho
          exact absurd ho (by simp [nextAction])
        have hact : s.MayAct t := by
          intro hiss
          refine hrun t hcur hpend ?_
          cases hc : s.conts t with
          | user => exact Or.inl rfl
          | resumed a => exact Or.inr ⟨a, rfl⟩
          | _ => rw [hc] at hiss; exact absurd hiss (by simp [Cont.issues])
        refine ⟨[.task t c], exec_cons.mpr ⟨_, ?_, rfl⟩, hcurP t c rfl hcur hpend hcode,
          fun _ _ => trivial⟩
        simp only [Interleave.step]
        split
        · rename_i a ha
          rw [ha] at ho
          exact absurd ho (by simp [nextAction])
        · rw [if_pos hact, hself]
          exact Option.map_eq_some_iff.mpr ⟨o, ho, rfl⟩
      · have hself := Sys.setCurrent_of_current hcur
        refine ⟨[.task t c, .sched .pend], exec_cons.mpr ⟨s.land t a, ?_, rfl⟩,
          hcurP t c rfl hcur hpend (by simp [ha]), fun _ _ => ⟨hfree _ _ (by simp), fun _ _ => trivial⟩⟩
        simp only [Interleave.step, ha, hself]

/-- **Every step is a run of the interleaving machine** in which parked tasks wait. -/
theorem step_interleave (hrun : RunsUnblocked s) {a : Action} (h : step sz idleStack s a = some s') :
    ∃ bs, exec (Interleave.step sz (.cortexM idleStack)) s bs = some s' ∧
      Along (Interleave.step sz (.cortexM idleStack)) WaitsParked s bs := by
  refine step_interleave_along (fun s b hb => ?_) (fun t c _ hcur hpend _ => ?_) hrun h
  · exact WaitsParked.of_not_task hb
  · exact WaitsParked.of_not_blocked fun a ha => hrun t hcur hpend (Or.inr ⟨a, ha⟩)

/-- **Refinement.** If an invariant of the port's steps guarantees that no blocked task is resumed, the
port's runs are runs of the interleaving machine in which parked tasks wait. -/
theorem refines_interleave {G : Sys → Action → Prop} {I : Sys → Prop}
    (hI : ∀ s a s', I s → G s a → step sz idleStack s a = some s' → I s')
    (hrun : ∀ s, I s → RunsUnblocked s) {as : List Action} (h0 : I s)
    (hG : Along (step sz idleStack) G s as) (h : exec (step sz idleStack) s as = some s') :
    I s' ∧ ∃ bs, exec (Interleave.step sz (.cortexM idleStack)) s bs = some s' ∧
      Along (Interleave.step sz (.cortexM idleStack)) WaitsParked s bs :=
  exec_refines (f := id)
    (fun s a s' hs ha hstep => ⟨hI s a s' hs ha hstep, step_interleave (hrun s hs) hstep⟩) h0 hG h

/-- **The blocked partition is kept** by every step that resumes no blocked task. -/
theorem step_partInv (hr : sz.Representable) (hrun : RunsUnblocked s) (hinv : PartInv sz s)
    {a : Action} (h : step sz idleStack s a = some s') : PartInv sz s' := by
  obtain ⟨bs, hbs, -⟩ := step_interleave hrun h
  exact exec_invariant' (fun s a s' hs hstep => hs.step hr hstep) hinv hbs

end Refinement

/-! ## Ids -/

/-- **The ids in circulation** are those of slots with a context, and so is the current task, unless it
is the idle slot. -/
structure IdsInv (sz : Sizing) (s : Sys) : Prop where
  known : KnownIds sz s.k fun id => s.conts id ≠ .none
  cur : ∀ t, s.k.current = some t → s.conts t ≠ .none ∨ t = sz.idleId

section Ids

variable {sz : Sizing} {idleStack : ℕ} {s s' : Sys}

/-- The current task is a slot of the table. -/
theorem IdsInv.cur_lt (h : IdsInv sz s) {t : ℕ} (ht : s.k.current = some t) : t < sz.maxTasks := by
  rcases h.cur t ht with hc | rfl
  · exact h.known.lt t hc
  · exact sz.idleId_lt

/-- A slot without a context is free. -/
theorem IdsInv.unused (h : IdsInv sz s) {t : ℕ} (ht : s.conts t = .none) : s.k.stateOf t = .unused := by
  by_contra hu
  exact h.known.used t hu ht

/-- **Every step keeps the ids in range**, whatever is switched to. -/
theorem IdsInv.step (h : IdsInv sz s) (hr : sz.Representable) {a : Action}
    (hstep : CortexM.step sz idleStack s a = some s') : IdsInv sz s' := by
  have hport := step_portStep hstep
  refine ⟨hport.knownIds hr h.known, fun t ht => ?_⟩
  by_cases hswitch : ∃ oldSp, a = .pendsv oldSp
  · obtain ⟨oldSp, rfl⟩ := hswitch
    obtain ⟨-, -, rfl⟩ := step_pendsv hstep
    obtain ⟨-, u, hu, hA⟩ := (h.known.sched hr .unpend).schedule hr oldSp
    obtain rfl : u = t := Option.some.inj (hu.symm.trans ht)
    exact hA
  · -- nobody is switched: the current task keeps its context
    rw [step_current hstep fun oldSp ha => hswitch ⟨oldSp, ha⟩] at ht
    exact (h.cur t ht).imp_left hport.conts_ne_none

theorem IdsInv.boot (sz : Sizing) (idleStack : ℕ) (cfg : Option KernelConfig) (objs : ObjectSpecs)
    (mem : Kernel) : IdsInv sz (boot sz idleStack cfg objs mem) where
  known := KnownIds.boot sz _ cfg objs mem fun _ hid => absurd rfl hid
  cur t ht := by
    have hnone := (hrtInit_frame sz { mem with error := .none, pend := false }
      (.cortexM idleStack) cfg).2.1
    exact absurd (hnone.symm.trans ht) (by simp)

end Ids

/-! ## The idle slot -/

/-- Every creation has arguments, and is made in a kernel, that satisfy `P`. -/
def CreatesWhen (P : Kernel → TaskArgs → Prop) (s : Sys) (a : Action) : Prop := a.act.CreatesWhen P s

instance (P : Kernel → TaskArgs → Prop) [∀ k a, Decidable (P k a)] (s : Sys) :
    DecidablePred (CreatesWhen P s) :=
  fun a => inferInstanceAs (Decidable (a.act.CreatesWhen P s))

/-- **Nobody lives in the idle slot**, and the ids in circulation are those of user tasks. -/
structure IdleFree (sz : Sizing) (s : Sys) : Prop where
  ids : IdsInv sz s
  free : s.conts sz.idleId = .none

section IdleFree

variable {sz : Sizing} {idleStack : ℕ} {s s' : Sys}

/-- The idle slot is unused. -/
theorem IdleFree.unused (h : IdleFree sz s) : s.k.stateOf sz.idleId = .unused := h.ids.unused h.free

/-- **Every step keeps the idle slot free** if creations spare it. -/
theorem IdleFree.step (h : IdleFree sz s) (hr : sz.Representable) {a : Action}
    (hc : CreatesWhen (SparesIdle sz) s a) (hstep : CortexM.step sz idleStack s a = some s') :
    IdleFree sz s' :=
  ⟨h.ids.step hr hstep, (step_portStep hstep).idle_free hc h.free⟩

/-- In every run whose creations spare the idle slot nobody lives there. -/
theorem idleFree_of_run {cfg : Option KernelConfig} {objs : ObjectSpecs} {mem : Kernel}
    (hr : sz.Representable) {as : List Action}
    (hrun : exec (CortexM.step sz idleStack) (boot sz idleStack cfg objs mem) as = some s)
    (hc : Along (CortexM.step sz idleStack) (CreatesWhen (SparesIdle sz))
      (boot sz idleStack cfg objs mem) as) : IdleFree sz s :=
  exec_invariant (fun _ _ _ h ha hstep => h.step hr ha hstep)
    ⟨IdsInv.boot sz idleStack cfg objs mem, rfl⟩ hc hrun

/-- **A switch finds somebody or idles**: if the outgoing task is not ready and every queue is empty,
the idle slot becomes current; otherwise the task made current is a user task. -/
theorem IdleFree.schedule (h : IdleFree sz s) (hr : sz.Representable) (oldSp : ℕ) :
    ((hrtSchedule sz oldSp { s.k with pend := false }).2.current = some sz.idleId ∧
        ∀ p < sz.maxPrio, (hrtSchedule sz oldSp { s.k with pend := false }).2.readyList sz p = []) ∨
    ∃ t, (hrtSchedule sz oldSp { s.k with pend := false }).2.current = some t ∧ t ≠ sz.idleId ∧
      s.conts t ≠ .none ∧
      (s.k.stateOf t = .ready ∨ ∃ p < sz.maxPrio, t ∈ s.k.readyList sz p) := by
  have hk := h.ids.known
  have hcur : ∀ t, ({ s.k with pend := false } : Kernel).current = some t →
      ({ s.k with pend := false } : Kernel).stateOf t = .ready → t < sz.maxTasks :=
    fun t _ hst => hk.ready_lt hst
  rcases (schedule_entry hr (k := { s.k with pend := false }) hk.ready.wf oldSp hcur).2 with
    ⟨hempty, hidle⟩ | ⟨p, t, hp, ht, -, hmem⟩
  · exact Or.inl ⟨hidle, hempty⟩
  · have hne : s.conts t ≠ .none := by
      rcases hmem with hmem | ⟨hst, -⟩
      · exact hk.ready.all p hp t hmem
      · refine hk.used t ?_
        have hst' : s.k.stateOf t = .ready := hst
        rw [hst']
        simp
    refine Or.inr ⟨t, ht, ?_, hne, ?_⟩
    · rintro rfl
      exact hne h.free
    · exact hmem.elim (fun hm => Or.inr ⟨p, hp, hm⟩) fun hst => Or.inl hst.1

end IdleFree

end CortexM

end HardRT
