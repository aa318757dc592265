import HardRT.CortexM.System
import HardRT.System.ReadyBooks

/-! # The ready set on Cortex-M

On this port `hrt__schedule` queues the outgoing task itself whenever it is ready. A task that was
queued before it left the CPU is then queued twice, and there are two ways to get there: `hrt_yield`
pushes the running task, and an interrupt may make the running task ready between the moment it gives
up the CPU and the switch.

* `yield_queues_twice` — one `hrt_yield` leaves two entries for the caller.
* `ReadyClean` — the steps that queue nobody who is on the CPU, and give no user task the idle slot.
* `readySet_after_schedule` — along such steps the ready queues are exact after every switch. -/

namespace HardRT

open Lib

namespace CortexM

/-! ## The side condition -/

/-- **The clean steps.** The current task does not run `hrt_yield` while it is ready; no interrupt makes
the current task ready; creations are in order. -/
def ReadyClean (sz : Sizing) (s : Sys) : Action → Prop
  | .main (.createTask a) => CreateOk sz s.k a
  | .task c => ∀ t ∈ s.k.current,
      ¬ (runsYield c (s.conts t) = true ∧ s.k.stateOf t = .ready) ∧
      (s.conts t = .user → ∀ a ∈ c.creates, CreateOk sz s.k a)
  | .isr op => ∀ t ∈ s.k.current, (s.k.waiters sz op.waitQ).head? ≠ some t
  | .tick => ∀ t ∈ s.k.current, ¬ wakesAt s.k ((s.k.tick + 1) % 2 ^ 32) t
  | _ => True

instance (sz : Sizing) (s : Sys) : DecidablePred (ReadyClean sz s)
  | .main (.createTask a) => inferInstanceAs (Decidable (CreateOk sz s.k a))
  | .task _ | .isr _ | .tick => inferInstanceAs (Decidable (∀ _ ∈ _, _))
  | .main (.setPolicy _) | .main (.setDefaultTimeslice _) | .start | .pendsv _ => instDecidableTrue

/-! ## The invariant -/

/-- **The ready-set invariant**: the books are in order with the current task on the CPU; the idle slot
is nobody's; and a current task that is not ready any more is on its way out. -/
structure ReadyInv (sz : Sizing) (s : Sys) : Prop where
  books : ReadyBooks sz s.k fun id => s.k.current = some id
  idle : s.k.stateOf sz.idleId = .unused
  idleCont : s.conts sz.idleId = .none
  cur : ∀ t, s.k.current = some t → s.conts t ≠ .none →
    s.k.stateOf t = .ready ∨ s.k.pend = true ∨ ∃ a, s.conts t = .pend a

section Invariant

variable {sz : Sizing} {idleStack : ℕ} {s s' : Sys}

/-- Under the invariant no blocked task runs. -/
theorem ReadyInv.runsUnblocked (h : ReadyInv sz s) : RunsUnblocked s := by
  intro t hcur hpend hcont hb
  have hne : s.conts t ≠ .none := by
    rcases hcont with hc | ⟨a, hc⟩ <;> rw [hc] <;> simp
  rcases h.cur t hcur hne with hst | hp | ⟨a, ha⟩
  · rw [hst] at hb
    exact absurd hb (by simp)
  · rw [hpend] at hp
    exact absurd hp (by simp)
  · rcases hcont with hc | ⟨a', hc⟩
    · exact absurd (hc.symm.trans ha) (by simp)
    · exact absurd (hc.symm.trans ha) (by simp)

/-- Under the invariant no deleted task runs. -/
theorem ReadyInv.livesOn (h : ReadyInv sz s) {t : ℕ} {c : Call} (hcur : s.k.current = some t)
    (hpend : s.k.pend = false) (hcode : s.conts t ≠ .none) : LivesOn s (.task t c) := by
  rcases h.cur t hcur hcode with hst | hp | ⟨a, ha⟩
  · exact Or.inr (by rw [hst]; simp)
  · rw [hpend] at hp
    exact absurd hp (by simp)
  · exact Or.inl (by rw [ha]; rfl)

/-- A step that leaves the scheduler's data, apart from the pending bit, and every continuation
alone. -/
theorem ReadyInv.of_sched (h : ReadyInv sz s) (hconts : s'.conts = s.conts)
    (htcbs : s'.k.tcbs = s.k.tcbs) (hrq : s'.k.rq = s.k.rq) (hcur : s'.k.current = s.k.current)
    (hpend : s.k.pend = true → s'.k.pend = true) : ReadyInv sz s' := by
  have hst : ∀ j, s'.k.stateOf j = s.k.stateOf j := fun j => by
    rw [Kernel.stateOf, htcbs]
    rfl
  refine ⟨?_, (hst _).trans h.idle, hconts ▸ h.idleCont, fun t ht hne => ?_⟩
  · rw [hcur]
    exact h.books.of_eq hrq hst fun j => by rw [htcbs]
  · rw [hcur] at ht
    rw [hconts] at hne ⊢
    rcases h.cur t ht hne with hr | hp | ha
    · exact Or.inl ((hst t).trans hr)
    · exact Or.inr (Or.inl (hpend hp))
    · exact Or.inr (Or.inr ha)

/-- What an action of the current task has to leave behind. -/
theorem ReadyInv.applied (h : ReadyInv sz s) {t : ℕ} (hcur : s.k.current = some t)
    (hne : t ≠ sz.idleId) {o : Outcome} (hk : o.k.current = s.k.current)
    (hidle : o.k.stateOf sz.idleId = .unused) (hspawn : o.spawn ≠ some sz.idleId)
    (hbooks : ReadyBooks sz o.k fun id => s.k.current = some id)
    (hstate : o.k.stateOf t = .ready ∨ o.k.pend = true ∨ ∃ a, o.cont = .pend a) :
    ReadyInv sz (s.apply t o) := by
  refine ⟨?_, hidle, ?_, fun u hu hcont => ?_⟩
  · show ReadyBooks sz o.k fun id => o.k.current = some id
    rw [hk]
    exact hbooks
  · rw [Sys.apply_conts_of_ne s (Ne.symm hne)]
    exact Sys.spawned_eq_none.mpr ⟨h.idleCont, hspawn⟩
  · obtain rfl : t = u := by
      have hu' : o.k.current = some u := hu
      rw [hk, hcur] at hu'
      exact Option.some.inj hu'
    rw [Sys.apply_conts_self]
    exact hstate

/-- **An action of the current task** keeps the invariant, if it is clean. -/
theorem ReadyInv.task (h : ReadyInv sz s) (hr : sz.Representable) (hinv : PartInv sz s) {t : ℕ}
    (hcur : s.k.current = some t) (hpend : s.k.pend = false) {c : Call}
    (hyield : ¬ (runsYield c (s.conts t) = true ∧ s.k.stateOf t = .ready))
    (hcall : s.conts t = .user → ∀ a ∈ c.creates, CreateOk sz s.k a) {o : Outcome}
    (ho : nextAction sz (.cortexM idleStack) t c s.k (s.conts t) = some o) :
    ReadyInv sz (s.apply t o) := by
  have hcont : s.conts t ≠ .none := by
    intro hn
    rw [hn] at ho
    exact absurd ho (by simp [nextAction])
  have hidle : t ≠ sz.idleId := fun hid => hcont (hid ▸ h.idleCont)
  have heff := taskEffect ho
  have hspawn : o.spawn ≠ some sz.idleId := by
    intro hsp
    obtain ⟨a, hu, rfl, hnew⟩ := heff.spawn_eq hsp
    exact (hcall hu a rfl).1.create_ne _ hnew
  -- whatever the action is, the books and the caller's own state are what is left to check
  have happly := h.applied hcur hidle heff.current
    (hinv.part.task_unused hr heff (Ne.symm hidle) h.idle hspawn) hspawn
  -- the current task is ready, unless it is about to request the switch it waits for
  have hready : (∀ a, s.conts t ≠ .pend a) → s.k.stateOf t = .ready := by
    intro hnp
    rcases h.cur t hcur hcont with hst | hp | ⟨a, ha⟩
    · exact hst
    · rw [hpend] at hp
      exact absurd hp (by simp)
    · exact absurd ha (hnp a)
  have hused : (∀ a, s.conts t ≠ .pend a) → s.k.stateOf t ≠ .unused := by
    intro hnp
    rw [hready hnp]
    simp
  have hrun : ∀ id, s.k.current = some id → id = t := fun id hid =>
    Option.some.inj (hid.symm.trans hcur)
  generalize hc : s.conts t = cont at *
  cases heff with
  | quiet hq hex hc' =>
      have hst := hready (by intro a ha; rw [ha] at hex; exact absurd hex (by simp [Cont.executing]))
      exact happly (h.books.same hq.same) (Or.inl ((hq.same.stateOf _).trans hst))
  | request => exact happly (h.books.of_eq rfl (fun _ => rfl) fun _ => rfl) (Or.inr (Or.inl rfl))
  | yield hy =>
      exfalso
      rcases hy with ⟨rfl, rfl, -⟩ | rfl
      · exact hyield ⟨rfl, hready (by simp)⟩
      · exact hyield ⟨rfl, hready (by simp)⟩
  | @sleep ms evs =>
      exact happly (h.books.sleep hcur (hused (by simp)) ms) (Or.inr (Or.inr ⟨_, rfl⟩))
  | delete ht hcall =>
      exact happly (h.books.delete hcur (hused (by simp))) (Or.inr (Or.inr ⟨_, rfl⟩))
  | park hpk hp =>
      have hu := hused (by rintro a rfl; exact hpk.elim)
      exact happly (h.books.park hcur hu hp) (Or.inr (Or.inr ⟨_, rfl⟩))
  | wake hiss hf hw =>
      have hst := hready (by rintro a rfl; exact absurd hiss (by simp [Cont.issues]))
      obtain ⟨hb, hst'⟩ := h.books.wake_other hrun hst hr hinv.part hw
      exact happly hb (Or.inl hst')
  | wakeOnRecheck hre hw =>
      have hst := hready (by rintro a rfl; exact absurd hre (by simp [Cont.recheckWakes]))
      obtain ⟨hb, hst'⟩ := h.books.wake_other hrun hst hr hinv.part hw
      exact happly hb (Or.inl hst')
  | @create a evs hca =>
      subst hca
      obtain ⟨hb, hst'⟩ := h.books.create_other hrun (hready (by simp)) hr (.cortexM idleStack)
        (hcall rfl a rfl)
      exact happly hb (Or.inl hst')
  | policy hca =>
      exact happly (h.books.of_eq rfl (fun _ => rfl) fun _ => rfl) (Or.inl (hready (by simp)))

/-- A call of `main`, before the start, keeps the invariant, if it is clean. -/
theorem ReadyInv.main (h : ReadyInv sz s) (hr : sz.Representable) (hnone : s.k.current = none)
    {c : MainCall} (hclean : ReadyClean sz s (.main c)) :
    ReadyInv sz (s.main sz (.cortexM idleStack) c) := by
  cases c with
  | setPolicy p => exact h.of_sched rfl rfl rfl rfl id
  | setDefaultTimeslice n => exact h.of_sched rfl rfl rfl rfl id
  | createTask a =>
      have hok : CreateOk sz s.k a := hclean
      have hnot : ∀ id, (hrtCreateTask sz (.cortexM idleStack) a s.k).1 = some id →
          ¬ s.k.current = some id := fun id _ hrun => absurd (hnone.symm.trans hrun) (by simp)
      have hnidle := hok.1.create_ne (.cortexM idleStack)
      have hcur := (hrtCreateTask_frame sz (.cortexM idleStack) a s.k).1
      refine ⟨?_, ?_, ?_, fun t ht => ?_⟩
      · show ReadyBooks sz (hrtCreateTask sz (.cortexM idleStack) a s.k).2 fun id =>
          (hrtCreateTask sz (.cortexM idleStack) a s.k).2.current = some id
        rw [hcur]
        exact h.books.create hr _ hok hnot
      · show (hrtCreateTask sz (.cortexM idleStack) a s.k).2.stateOf _ = _
        rw [hrtCreateTask_stateOf, if_neg hnidle]
        exact h.idle
      · show s.spawned (hrtCreateTask sz (.cortexM idleStack) a s.k).1 sz.idleId = .none
        exact Sys.spawned_eq_none.mpr ⟨h.idleCont, hnidle⟩
      · have ht' : (hrtCreateTask sz (.cortexM idleStack) a s.k).2.current = some t := ht
        rw [hcur, hnone] at ht'
        exact absurd ht' (by simp)

/-- **An ISR operation** that does not wake the current task keeps the invariant. -/
theorem ReadyInv.isr (h : ReadyInv sz s) (hr : sz.Representable) (hinv : PartInv sz s) {op : Isr}
    (hclean : ReadyClean sz s (.isr op)) : ReadyInv sz (s.isr sz op) := by
  refine ⟨?_, hinv.part.isr_unused hr op h.idle, h.idleCont, fun t ht hcont => ?_⟩
  · show ReadyBooks sz (isrAction sz s.k op).2.1 fun id => (isrAction sz s.k op).2.1.current = some id
    rw [isr_current]
    rcases isrEffect sz s.k op with hq | ⟨id, k', hw, heq⟩
    · exact h.books.same hq.same
    · have hid : ¬ s.k.current = some id := by
        intro hrun
        obtain ⟨rest, hl, -⟩ := hinv.part.waiters_wake hr hw
        exact hclean id hrun (by rw [hl]; rfl)
      rw [heq]
      exact (h.books.wake hr hw (hinv.part.blocked_of_wakes hr hw) hid).of_eq rfl (fun _ => rfl)
        fun _ => rfl
  · have ht' : (isrAction sz s.k op).2.1.current = some t := ht
    rw [isr_current] at ht'
    rcases h.cur t ht' hcont with hst | hp | ha
    · exact Or.inl (isr_ready hst)
    · exact Or.inr (Or.inl (isr_pend sz s.k op hp))
    · exact Or.inr (Or.inr ha)

/-- **A tick** that does not wake the current task keeps the invariant. -/
theorem ReadyInv.tick (h : ReadyInv sz s) (hr : sz.Representable)
    (hclean : ReadyClean sz s .tick) : ReadyInv sz (s.tickIsr sz) := by
  obtain ⟨hcur, -, hpend⟩ := hrtTickIsr_frame sz s.k
  refine ⟨?_, (hrtTickIsr_unused_iff sz s.k _).mpr h.idle, h.idleCont, fun t ht hcont => ?_⟩
  · show ReadyBooks sz (hrtTickIsr sz s.k) fun id => (hrtTickIsr sz s.k).current = some id
    rw [hcur]
    exact h.books.tick hr hclean
  · have ht' : (hrtTickIsr sz s.k).current = some t := ht
    rw [hcur] at ht'
    rcases h.cur t ht' hcont with hst | hp | ha
    · exact Or.inl (hrtTickIsr_ready hst)
    · exact Or.inr (Or.inl (hpend hp))
    · exact Or.inr (Or.inr ha)

/-- **A switch** keeps the invariant: every ready task is queued, then the one picked is not. -/
theorem ReadyInv.pendsv (h : ReadyInv sz s) (hr : sz.Representable) {oldSp : ℕ}
    (hsp : oldSp = 0 ↔ s.k.current = none) :
    ReadyInv sz { s with k := (hrtSchedule sz oldSp { s.k with pend := false }).2 } ∧
    ∃ t, (hrtSchedule sz oldSp { s.k with pend := false }).2.current = some t ∧
      (s.k.stateOf t = .ready ∨ t = sz.idleId) := by
  have hbooks : ReadyBooks sz { s.k with pend := false }
      fun id => ({ s.k with pend := false } : Kernel).current = some id ∨ False :=
    (h.books.congr fun id _ => (or_iff_left not_false).symm).of_eq rfl (fun _ => rfl) fun _ => rfl
  have hidle : ({ s.k with pend := false } : Kernel).stateOf sz.idleId ≠ .ready := by
    show s.k.stateOf sz.idleId ≠ .ready
    rw [h.idle]
    simp
  have hst : ∀ j, (hrtSchedule sz oldSp { s.k with pend := false }).2.stateOf j = s.k.stateOf j :=
    fun j => Interleave.SchedOp.run_stateOf sz { s.k with pend := false } (.schedule oldSp) j
  obtain ⟨hnew, t, ht, hready⟩ := hbooks.schedule hr (fun _ _ hf => hf) hidle hsp
  have hready' : s.k.stateOf t = .ready ∨ t = sz.idleId := hready.imp_left And.left
  refine ⟨⟨hnew.congr fun id _ => or_iff_left not_false, (hst _).trans h.idle, h.idleCont,
    fun u hu hcont => Or.inl ?_⟩, t, ht, hready'⟩
  obtain rfl : t = u := Option.some.inj (ht.symm.trans hu)
  rcases hready' with hst' | rfl
  · exact (hst t).trans hst'
  · exact absurd h.idleCont hcont

/-- **Every clean step keeps the invariant.** -/
theorem ReadyInv.step (h : ReadyInv sz s) (hr : sz.Representable) (hinv : PartInv sz s) {a : Action}
    (hclean : ReadyClean sz s a) (hstep : CortexM.step sz idleStack s a = some s') :
    ReadyInv sz s' := by
  cases a with
  | main c =>
      obtain ⟨hnone, -, rfl⟩ := step_main hstep
      exact h.main hr hnone hclean
  | start =>
      obtain ⟨-, rfl⟩ := step_start hstep
      exact h.of_sched rfl rfl rfl rfl fun _ => rfl
  | task c =>
      obtain ⟨t, hcur, hpend, ⟨o, ho, rfl⟩ | ⟨a, ha, rfl⟩⟩ := step_task hstep
      · obtain ⟨hyield, hcall⟩ := hclean t hcur
        exact h.task hr hinv hcur hpend hyield hcall ho
      · -- the second request: the continuation moves on and the bit is set
        refine ⟨h.books.of_eq rfl (fun _ => rfl) fun _ => rfl, h.idle, ?_, fun u _ _ => ?_⟩
        · have hne : sz.idleId ≠ t := by
            rintro rfl
            rw [h.idleCont] at ha
            exact absurd ha (by simp)
          exact (Sys.land_conts_of_ne s hne a).trans h.idleCont
        · exact Or.inr (Or.inl rfl)
  | isr op => exact Option.some.inj hstep ▸ h.isr hr hinv hclean
  | tick => exact Option.some.inj hstep ▸ h.tick hr hclean
  | pendsv oldSp =>
      obtain ⟨-, hsp, rfl⟩ := step_pendsv hstep
      exact (h.pendsv hr hsp).1

/-- After boot the invariant holds. -/
theorem ReadyInv.boot (sz : Sizing) (port : Port) (cfg : Option KernelConfig) (objs : ObjectSpecs)
    (mem : Kernel) : ReadyInv sz (Sys.boot sz port cfg objs mem) where
  books := ReadyBooks.boot sz port cfg objs mem _
  idle := stateOf_hrtInit sz _ port cfg _
  idleCont := rfl
  cur _ _ hne := absurd rfl hne

/-- **Along clean steps** the ready-set invariant and the blocked partition hold in every state. -/
theorem readyInv_of_run {cfg : Option KernelConfig} {objs : ObjectSpecs} {mem : Kernel}
    (hr : sz.Representable) {as : List Action}
    (hrun : exec (CortexM.step sz idleStack) (boot sz idleStack cfg objs mem) as = some s)
    (hclean : Along (CortexM.step sz idleStack) (ReadyClean sz) (boot sz idleStack cfg objs mem) as) :
    ReadyInv sz s ∧ PartInv sz s := by
  refine exec_invariant (I := fun s => ReadyInv sz s ∧ PartInv sz s) ?_
    ⟨ReadyInv.boot sz _ cfg objs mem, PartInv.boot sz _ cfg objs mem⟩ hclean hrun
  rintro s a s' ⟨h, hinv⟩ ha hstep
  exact ⟨h.step hr hinv ha hstep, step_partInv hr h.runsUnblocked hinv hstep⟩

/-- **A run of clean steps is a run of the interleaving machine** in which parked tasks wait and deleted
tasks are gone, along any further condition `P` that the current task meets. -/
theorem refines_interleave_of_clean {cfg : Option KernelConfig} {objs : ObjectSpecs} {mem : Kernel}
    (hr : sz.Representable) {P : Sys → Interleave.Action → Prop}
    (hfree : ∀ s b, (∀ t c, b ≠ .task t c) → P s b) {as : List Action}
    (hrun : exec (CortexM.step sz idleStack) (boot sz idleStack cfg objs mem) as = some s)
    (hclean : Along (CortexM.step sz idleStack) (ReadyClean sz) (boot sz idleStack cfg objs mem) as)
    (hP : Along (CortexM.step sz idleStack)
      (fun s a => ∀ t c, a = .task c → s.k.current = some t → P s (.task t c))
      (boot sz idleStack cfg objs mem) as) :
    ∃ bs, exec (Interleave.step sz (.cortexM idleStack)) (boot sz idleStack cfg objs mem) bs = some s ∧
      Along (Interleave.step sz (.cortexM idleStack))
        (fun s b => WaitsParked s b ∧ LivesOn s b ∧ P s b) (boot sz idleStack cfg objs mem) bs := by
  refine (exec_refines (f := id) (I := fun s => ReadyInv sz s ∧ PartInv sz s) ?_
    ⟨ReadyInv.boot sz _ cfg objs mem, PartInv.boot sz _ cfg objs mem⟩ (hclean.and hP) hrun).2
  rintro s a s' ⟨h, hinv⟩ ⟨ha, haP⟩ hstep
  refine ⟨⟨h.step hr hinv ha hstep, step_partInv hr h.runsUnblocked hinv hstep⟩, ?_⟩
  refine step_interleave_along (fun s b hb => ?_) (fun t c hac hcur hpend hcode => ?_)
    h.runsUnblocked hstep
  · exact ⟨.of_not_task hb, .of_not_task hb, hfree s b hb⟩
  · refine ⟨.of_not_blocked fun a ha => ?_, h.livesOn hcur hpend hcode, haP t c hac hcur⟩
    exact h.runsUnblocked t hcur hpend (Or.inr ⟨a, ha⟩)

end Invariant

/-! ## The result -/

section Results

variable {sz : Sizing} {idleStack : ℕ} {cfg : Option KernelConfig} {objs : ObjectSpecs} {mem : Kernel}
  {as : List Action} {s : Sys}

/-- **The ready set after a switch.** In every run of clean steps, right after `hrt__schedule` has
returned: a ready task that is not current occurs in the ready queues exactly once, in the queue of its
own priority; any other id occurs in none; and the task made current is ready, or it is the idle slot,
which no task uses. -/
theorem readySet_after_schedule (hr : sz.Representable) {oldSp : ℕ}
    (hrun : exec (step sz idleStack) (boot sz idleStack cfg objs mem) (as ++ [.pendsv oldSp]) = some s)
    (hclean : Along (step sz idleStack) (ReadyClean sz) (boot sz idleStack cfg objs mem)
      (as ++ [.pendsv oldSp])) :
    QueuesExactly sz s.k (fun id => s.k.stateOf id = .ready ∧ s.k.current ≠ some id) ∧
    ∃ t, s.k.current = some t ∧
      (s.k.stateOf t = .ready ∨ (t = sz.idleId ∧ s.k.stateOf t = .unused)) := by
  have hinv := (readyInv_of_run hr hrun hclean).1
  refine ⟨hinv.books.exactly, ?_⟩
  obtain ⟨s₀, hrun₀, hstep⟩ := exec_concat.mp hrun
  have hinv₀ := (readyInv_of_run hr hrun₀ ((along_append hrun₀).mp hclean).1).1
  obtain ⟨-, hsp, rfl⟩ := step_pendsv hstep
  obtain ⟨t, hcur, hst⟩ := (hinv₀.pendsv hr hsp).2
  refine ⟨t, hcur, ?_⟩
  -- the switch changes no state
  have hsame := Interleave.SchedOp.run_stateOf sz { s₀.k with pend := false } (.schedule oldSp) t
  rcases hst with hst | rfl
  · exact Or.inl (hsame.trans hst)
  · exact Or.inr ⟨rfl, hinv.idle⟩

/-- Two tasks of one priority are created, the first one runs and sleeps for one tick, the second one
runs, and the tick brings the first one back. -/
def sleepRun : List Action :=
  [.main (.createTask ⟨1, 0, 0x20001000, 64, none⟩), .main (.createTask ⟨1, 0, 0x20002000, 64, none⟩),
    .start, .pendsv 0, .task (.sleep 1), .task .yield, .pendsv 0x20001000, .tick]

/-- After the switch that follows `sleepRun` the first task runs and the second one is queued once. -/
theorem readySet_after_schedule_sleep :
    ∃ s, exec (step .default 0x20000000) board (sleepRun ++ [.pendsv 0x20002000]) = some s ∧
      s.k.current = some 0 ∧ s.k.stateOf 1 = .ready ∧ (s.k.readyList .default 1).count 1 = 1 := by
  have heval : ((exec (step .default 0x20000000) board
      (sleepRun ++ [.pendsv 0x20002000])).map fun s =>
        (s.k.current, s.k.stateOf 1, (s.k.tcbs 1).prio)) = some (some 0, .ready, 1) := by
    decide +kernel
  obtain ⟨s, hs, hv⟩ := Option.map_eq_some_iff.mp heval
  obtain ⟨hcur, hst, hprio⟩ : s.k.current = some 0 ∧ s.k.stateOf 1 = .ready ∧
      (s.k.tcbs 1).prio = 1 := by
    simpa using hv
  have hexact := (readySet_after_schedule (by decide) hs
    (by decide +kernel)).1
  have hcount := ((hexact 1).1 ⟨hst, by rw [hcur]; simp⟩).2 1 (by decide)
  rw [hprio, if_pos rfl] at hcount
  exact ⟨s, hs, hcur, hst, hcount⟩

/-- Two tasks of one priority are created, and the first one yields. -/
def yieldRun : List Action :=
  [.main (.createTask ⟨1, 0, 0x20001000, 64, none⟩), .main (.createTask ⟨1, 0, 0x20002000, 64, none⟩),
    .start, .pendsv 0, .task .yield, .task .yield, .pendsv 0x20001000]

/-- **One `hrt_yield` queues the caller twice**: after the switch it caused, the ready queue of the
caller's priority holds it two times. -/
theorem yield_queues_twice :
    ∃ s, exec (step .default 0x20000000) board yieldRun = some s ∧
      s.k.current = some 1 ∧ s.k.readyList .default 1 = [0, 0] ∧
      ¬ QueuesExactly .default s.k fun id => s.k.stateOf id = .ready ∧ s.k.current ≠ some id := by
  have heval : ((exec (step .default 0x20000000) board yieldRun).map fun s =>
        (s.k.current, s.k.readyList .default 1, s.k.stateOf 0)) = some (some 1, [0, 0], .ready) := by
    decide +kernel
  obtain ⟨s, hs, hv⟩ := Option.map_eq_some_iff.mp heval
  obtain ⟨hcur, hlist, hst⟩ : s.k.current = some 1 ∧ s.k.readyList .default 1 = [0, 0] ∧
      s.k.stateOf 0 = .ready := by
    simpa using hv
  refine ⟨s, hs, hcur, hlist, fun hexact => ?_⟩
  have hcount := ((hexact 0).1 ⟨hst, by rw [hcur]; simp⟩).2 1 (by decide)
  rw [hlist] at hcount
  split_ifs at hcount <;> exact absurd hcount (by decide)

end Results

end CortexM

end HardRT
