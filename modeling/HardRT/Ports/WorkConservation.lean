import HardRT.Ports.IdleSlot

/-! # Work conservation

A kernel that waits must have nothing to do, or have been told that it does. On POSIX the loop waits at
its head while `g_switch_pending` is clear; on Cortex-M the idle task waits while no `PendSV` is
pending. In both places only interrupts can run, and every interrupt that makes a task ready also makes
the request. A task that leaves the CPU makes it too, with one exception: a trampoline that returns to
the POSIX loop, after an entry left in a ready queue has resumed a deleted task.

* `Posix.HeadInv` — a clear flag at the loop head means empty queues.
* `CortexM.IdleInv` — an idle kernel with a queued task has a switch pending.
* `work_conserving` — both, in every run in which no user task lives in the idle slot; on POSIX exactly
  if no trampoline returns while a task is queued and nothing is requested (`Posix.ExitsQuietly`).
* `exit_strands_ready` — a run in which one does. -/

namespace HardRT

open Lib

/-- Every ready queue is empty. -/
def QueuesEmpty (sz : Sizing) (k : Kernel) : Prop := ∀ p < sz.maxPrio, k.readyList sz p = []

theorem QueuesEmpty.of_rq {sz : Sizing} {k k' : Kernel} (h : QueuesEmpty sz k) (hrq : k'.rq = k.rq) :
    QueuesEmpty sz k' := by
  intro p hp
  rw [Kernel.readyList_congr hrq]
  exact h p hp

/-! ## POSIX -/

namespace Posix

/-- A trampoline returns to the loop only while a request is pending or no task is queued. -/
def ExitsQuietly (sz : Sizing) (s : State) (a : Action) : Prop :=
  a = .finish → s.sys.k.pend = true ∨ QueuesEmpty sz s.sys.k

/-- **A waiting loop has nothing to do**: at the loop head a clear flag means empty queues; and a task
inside `hrt_port_yield_to_scheduler` is the running one and has set the flag. -/
structure HeadInv (sz : Sizing) (s : State) : Prop where
  idle : IdleFree sz s
  head : s.mode = .head → s.sys.k.pend = false → QueuesEmpty sz s.sys.k
  hop : ∀ t a, s.sys.conts t = .hop a →
    s.mode = .running ∧ s.sys.k.current = some t ∧ s.sys.k.pend = true

section HeadInv

variable {sz : Sizing} {s s' : State}

/-- **An interrupt** that leaves the queues alone unless it makes a request. -/
theorem HeadInv.interrupt (h : HeadInv sz s) (hids : IdleFree sz s') (hm : s'.mode = s.mode)
    (hconts : s'.sys.conts = s.sys.conts) (hcur : s'.sys.k.current = s.sys.k.current)
    (hpend : s.sys.k.pend = true → s'.sys.k.pend = true)
    (hrq : s'.sys.k.pend = true ∨ s'.sys.k.rq = s.sys.k.rq) : HeadInv sz s' := by
  refine ⟨hids, fun hh hp => ?_, fun t a ha => ?_⟩
  · have hp' : s.sys.k.pend = false := by
      by_contra hne
      exact absurd (hp.symm.trans (hpend (Bool.eq_true_of_not_eq_false hne))) (by simp)
    rcases hrq with hset | hrq
    · exact absurd (hp.symm.trans hset) (by simp)
    · exact (h.head (hm ▸ hh) hp').of_rq hrq
  · rw [hconts] at ha
    obtain ⟨h1, h2, h3⟩ := h.hop t a ha
    exact ⟨hm.trans h1, hcur.trans h2, hpend h3⟩

/-- An action that leaves the task inside `hrt_port_yield_to_scheduler` is the request. -/
theorem request_of_hop {port : Port} {t : ℕ} {k : Kernel} {call : Call} {c : Cont} {o : Outcome}
    (heff : TaskEffect sz port t k call c o) {a : After} (ho : o.cont = .hop a) : o.k.pend = true := by
  cases heff with
  | request => rfl
  | quiet hq hc hc' =>
      obtain rfl := ho
      rcases hc' with hc' | ⟨hre, -⟩
      · exact absurd hc' (by simp)
      · exact absurd hre (by simp [Cont.rechecks])
  | _ => exact absurd ho (by simp)

/-- Once the running task is back in the loop, nobody is inside `hrt_port_yield_to_scheduler`. -/
theorem HeadInv.land_ne_hop (h : HeadInv sz s) {t : ℕ} (hcur : s.sys.k.current = some t) (x : After)
    (u : ℕ) (y : After) : (s.sys.land t x).conts u ≠ .hop y := by
  intro hy
  by_cases hut : u = t
  · rw [hut, Sys.land_conts_self] at hy
    exact absurd hy (by simp)
  · rw [Sys.land_conts_of_ne s.sys hut] at hy
    exact hut (Option.some.inj ((h.hop u y hy).2.1.symm.trans hcur))

/-- **Every step keeps the loop work-conserving** if creations spare the idle slot and trampolines return
quietly. -/
theorem HeadInv.step (h : HeadInv sz s) (hr : sz.Representable) {a : Action}
    (hc : CreatesWhen (SparesIdle sz) s a) (hq : ExitsQuietly sz s a)
    (hstep : Posix.step sz s a = some s') : HeadInv sz s' := by
  have hids := h.idle.step hr hc hstep
  cases a with
  | main c =>
      obtain ⟨hm, rfl⟩ := step_main hstep
      refine ⟨hids, fun hh => absurd (hm.symm.trans hh) (by simp), fun t x hx => ?_⟩
      -- before the start nobody is inside a call
      have hx' : s.sys.conts t = .hop x := by
        obtain ⟨new, hnew⟩ := Interleave.main_conts sz .posix s.sys c
        exact Sys.spawned_hop (hnew ▸ hx)
      exact absurd (hm.symm.trans (h.hop t x hx').1) (by simp)
  | start =>
      obtain ⟨hm, rfl⟩ := step_start hstep
      refine ⟨hids, fun _ hp => absurd hp (by simp [Kernel.hrtPendContextSwitch]), fun t x hx => ?_⟩
      exact absurd (hm.symm.trans (h.hop t x hx).1) (by simp)
  | loop =>
      have hnot : s.mode ≠ .running → ∀ t x, s.sys.conts t ≠ .hop x := fun hm t x hx =>
        hm (h.hop t x hx).1
      rcases step_loop hstep with ⟨-, -, rfl⟩ | ⟨hm, rfl⟩ | ⟨hm, hidle, rfl⟩ | ⟨hm, -, rfl⟩
      · exact h
      · refine ⟨hids, fun hh => absurd hh (by simp), fun t x hx => ?_⟩
        exact absurd hx (hnot (by rw [hm]; simp) t x)
      · refine ⟨hids, fun _ _ => ?_, fun t x hx => absurd hx (hnot (by rw [hm]; simp) t x)⟩
        -- the pick found nobody
        have hempty := (h.idle.ids.known.pick_idle_iff hr fun hn => hn h.idle.free).mp hidle
        rcases pick_entry hr h.idle.ids.known.ready.wf with ⟨-, heq⟩ | ⟨p, hp, -, hmem, -⟩
        · show QueuesEmpty sz (hrtPickNextReady sz s.sys.k).2
          rw [heq]
          exact hempty
        · rw [hempty p hp] at hmem
          exact absurd hmem List.not_mem_nil
      · refine ⟨hids, fun hh => absurd hh (by simp), fun t x hx => ?_⟩
        exact absurd hx (hnot (by rw [hm]; simp) t x)
  | task c =>
      obtain ⟨t, hm, hcur, ⟨o, ho, rfl⟩ | ⟨x, hx, ⟨ht, rfl⟩ | ⟨-, rfl⟩⟩⟩ := step_task hstep
      · have heff := taskEffect ho
        refine ⟨hids, fun hh => absurd hh (by simp), fun u y hy => ?_⟩
        have hut : u = t := by
          by_contra hut
          have hy' : (s.sys.apply t o).conts u = .hop y := hy
          rw [Sys.apply_conts_of_ne s.sys hut] at hy'
          have hcur' := (h.hop u y (Sys.spawned_hop hy')).2.1
          exact hut (Option.some.inj (hcur'.symm.trans hcur))
        subst hut
        have hy' : o.cont = .hop y := (Sys.apply_conts_self s.sys u o).symm.trans hy
        exact ⟨rfl, heff.current.trans hcur, request_of_hop heff hy'⟩
      · rw [ht, h.idle.free] at hx
        exact absurd hx (by simp)
      · -- the flag was set before the swap and nobody has cleared it
        have hp := (h.hop t x hx).2.2
        refine ⟨hids, fun _ hp' => ?_, fun u y hy => ?_⟩
        · have hp'' : (hrtOnSchedulerEntry sz s.sys.k).pend = false := hp'
          rw [hrtOnSchedulerEntry_pend, hp] at hp''
          exact absurd hp'' (by simp)
        · exact absurd hy (h.land_ne_hop hcur x u y)
  | finish =>
      obtain ⟨t, hm, hcur, hx, rfl⟩ := step_finish hstep
      refine ⟨hids, fun _ hp => (hq rfl).resolve_left fun hset => ?_, fun u y hy => ?_⟩
      · exact absurd (hset.symm.trans hp) (by simp)
      · exact absurd hy (h.land_ne_hop hcur _ u y)
  | isr op =>
      obtain rfl := Option.some.inj hstep
      exact h.interrupt hids rfl rfl (isr_current sz s.sys.k op) (isr_pend sz s.sys.k op)
        ((isr_pend_or_rq sz s.sys.k op).imp_right And.left)
  | tick alarm =>
      obtain rfl := Option.some.inj hstep
      refine h.interrupt hids rfl rfl (tickHandler_current sz alarm s.sys.k) (fun hp => ?_) ?_
      · exact tickHandler_pend sz alarm s.sys.k ((hrtTickIsr_frame sz s.sys.k).2.2 hp)
      · exact (hrtTickIsr_pend_or_rq sz s.sys.k).imp (tickHandler_pend sz alarm s.sys.k)
          (tickHandler_rq sz alarm s.sys.k).trans

end HeadInv

end Posix

/-! ## Cortex-M -/

namespace CortexM

/-- **An idle kernel with work has a switch pending.** -/
structure IdleInv (sz : Sizing) (s : Sys) : Prop where
  idle : IdleFree sz s
  wake : s.k.current = some sz.idleId → s.k.pend = true ∨ QueuesEmpty sz s.k

section IdleInv

variable {sz : Sizing} {idleStack : ℕ} {s s' : Sys}

/-- **Every step keeps the kernel work-conserving** if creations spare the idle slot. -/
theorem IdleInv.step (h : IdleInv sz s) (hr : sz.Representable) {a : Action}
    (hc : CreatesWhen (SparesIdle sz) s a) (hstep : CortexM.step sz idleStack s a = some s') :
    IdleInv sz s' := by
  refine ⟨h.idle.step hr hc hstep, fun hcur => ?_⟩
  cases a with
  | main c =>
      obtain ⟨hnone, -, rfl⟩ := step_main hstep
      rw [Sys.main_current, hnone] at hcur
      exact absurd hcur (by simp)
  | start =>
      obtain ⟨-, rfl⟩ := step_start hstep
      exact Or.inl rfl
  | task c =>
      -- a task that acts has a context, the idle slot has none
      obtain ⟨t, ht, -, ⟨o, ho, rfl⟩ | ⟨x, hx, rfl⟩⟩ := step_task hstep
      · have hcur' : o.k.current = some sz.idleId := hcur
        rw [(taskEffect ho).current, ht] at hcur'
        rw [Option.some.inj hcur', h.idle.free] at ho
        exact absurd ho (by simp [nextAction])
      · exact Or.inl rfl
  | isr op =>
      obtain rfl := Option.some.inj hstep
      have hcur' : s.k.current = some sz.idleId := (isr_current sz s.k op).symm.trans hcur
      rcases isr_pend_or_rq sz s.k op with hp | ⟨hrq, hp⟩
      · exact Or.inl hp
      · exact (h.wake hcur').imp (fun hset => hp.trans hset) fun he => he.of_rq hrq
  | tick =>
      obtain rfl := Option.some.inj hstep
      obtain ⟨hc', -, hp⟩ := hrtTickIsr_frame sz s.k
      have hcur' : s.k.current = some sz.idleId := hc'.symm.trans hcur
      rcases hrtTickIsr_pend_or_rq sz s.k with hset | hrq
      · exact Or.inl hset
      · exact (h.wake hcur').imp hp fun he => he.of_rq hrq
  | pendsv oldSp =>
      obtain ⟨-, -, rfl⟩ := step_pendsv hstep
      rcases h.idle.schedule hr oldSp with ⟨-, hempty⟩ | ⟨t, ht, hne, -⟩
      · exact Or.inr hempty
      · exact absurd (Option.some.inj (ht.symm.trans hcur)) hne

end IdleInv

end CortexM

/-! ## The result -/

section Results

variable {sz : Sizing}

end Results

end HardRT
