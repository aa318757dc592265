import HardRT.CortexM.System

/-! # Preemption on Cortex-M

While a task runs code of its own, a task of higher priority in a ready queue has to come with a pending
switch. Whoever makes a task ready has to request one, and most of the kernel does: the tick, the ISR
forms, and the calls that yield after they woke somebody. Two do not. `hrt_create_task` queues the new
task and returns, and so does the re-check inside `hrt_queue_send` and `hrt_queue_recv` when it finds
that the call can go on after all.

* `create_without_switch`, `recheck_without_switch` — a task of higher priority is ready and no switch
  is pending.
* `PreemptClean` — the steps in which these two do not make ready a task of higher priority than the
  caller's, and no slot is reused that is still queued or current.
* `preemption_pending` — along such steps preemption is complete. -/

namespace HardRT

open Lib

namespace CortexM

/-! ## The side condition -/

/-- The slot is neither current nor in a ready queue. -/
def SlotFresh (sz : Sizing) (k : Kernel) (id : ℕ) : Prop :=
  k.current ≠ some id ∧ ∀ p < sz.maxPrio, id ∉ k.readyList sz p

instance (sz : Sizing) (k : Kernel) (id : ℕ) : Decidable (SlotFresh sz k id) :=
  inferInstanceAs (Decidable (_ ∧ _))

/-- A creation by task `t` is refused, or it fills a fresh slot with a task of no higher priority. -/
def CreatesBelow (sz : Sizing) (k : Kernel) (t : ℕ) (a : TaskArgs) : Prop :=
  ∀ id ∈ createdSlot sz k a, SlotFresh sz k id ∧ (k.tcbs t).prio ≤ a.prio

instance (sz : Sizing) (k : Kernel) (t : ℕ) (a : TaskArgs) : Decidable (CreatesBelow sz k t a) :=
  inferInstanceAs (Decidable (∀ _ ∈ _, _))

/-- **The clean steps.** A running task creates a task in a fresh slot, of no higher priority than its
own; and the task that the re-check of a blocking queue call wakes has no higher priority than the
caller. -/
def PreemptClean (sz : Sizing) (s : Sys) : Action → Prop
  | .task c => ∀ t ∈ s.k.current,
      (s.conts t = .user → ∀ a ∈ c.creates, CreatesBelow sz s.k t a) ∧
      ∀ w ∈ (s.conts t).recheckWakes s.k, ∀ id ∈ (s.k.waiters sz w).head?,
        (s.k.tcbs t).prio ≤ (s.k.tcbs id).prio
  | _ => True

instance (sz : Sizing) (s : Sys) : DecidablePred (PreemptClean sz s)
  | .task _ => inferInstanceAs (Decidable (∀ _ ∈ _, _))
  | .main _ | .start | .isr _ | .tick | .pendsv _ => instDecidableTrue

/-! ## The invariant -/

/-- No ready queue above the priority of `c` holds a task; for the idle loop, no queue at all. -/
def NoneAbove (sz : Sizing) (s : Sys) (c : ℕ) : Prop :=
  ∀ p < sz.maxPrio, (p < (s.k.tcbs c).prio ∨ s.conts c = .none) → s.k.readyList sz p = []

/-- **The preemption invariant**: queued tasks are in the queue of their own priority; until the first
switch they are ready; and unless a switch is pending or the current task is about to request one, no
task above it is queued. -/
structure PreemptInv (sz : Sizing) (s : Sys) : Prop where
  ids : IdsInv sz s
  prio : QueuedAll sz s.k fun p id => (s.k.tcbs id).prio = p
  boot : s.k.current = none → QueuedAll sz s.k fun _ id => s.k.stateOf id = .ready
  cur : ∀ c, s.k.current = some c → s.k.pend = true ∨ (∃ a, s.conts c = .yield a) ∨
    (∃ a, s.conts c = .pend a) ∨ NoneAbove sz s c

section Invariant

variable {sz : Sizing} {idleStack : ℕ} {s s' : Sys}

/-- Entries and priorities along growth in which no queued slot gets a new priority. -/
theorem PreemptInv.prio_grow (h : PreemptInv sz s) {k' : Kernel} (hg : ReadyGrows sz s.k k')
    (hprio : ∀ p < sz.maxPrio, ∀ id ∈ s.k.readyList sz p, (k'.tcbs id).prio = (s.k.tcbs id).prio) :
    QueuedAll sz k' fun p id => (k'.tcbs id).prio = p :=
  h.prio.grow hg (fun p hp id hid hE => (hprio p hp id hid).trans hE) fun _ _ => rfl

/-- A step that changes neither the queues nor priorities nor contexts. -/
theorem PreemptInv.frame (h : PreemptInv sz s) (hids : IdsInv sz s') (hrq : s'.k.rq = s.k.rq)
    (hprio : ∀ id, (s'.k.tcbs id).prio = (s.k.tcbs id).prio)
    (hst : ∀ id, s.k.stateOf id = .ready → s'.k.stateOf id = .ready)
    (hcur : s'.k.current = s.k.current) (hpend : s.k.pend = true → s'.k.pend = true)
    (hconts : s'.conts = s.conts) : PreemptInv sz s' := by
  have hg : ReadyGrows sz s.k s'.k := .of_rq h.prio.wf hrq
  refine ⟨hids, h.prio_grow hg fun _ _ id _ => hprio id, fun hn => ?_, fun c hc => ?_⟩
  · exact (h.boot (hcur ▸ hn)).grow hg (fun _ _ id _ hr => hst id hr) fun _ hr => hr
  · rw [hcur] at hc
    rw [hconts]
    refine (h.cur c hc).imp hpend (Or.imp_right (Or.imp_right fun hnone p hp habove => ?_))
    rw [Kernel.readyList_congr hrq]
    rw [hprio, hconts] at habove
    exact hnone p hp habove

/-- **An interrupt** that requests a switch whenever it touches the ready queues. -/
theorem PreemptInv.interrupt (h : PreemptInv sz s) (hids : IdsInv sz s') (hconts : s'.conts = s.conts)
    (hg : ReadyGrows sz s.k s'.k) (hprio : ∀ id, (s'.k.tcbs id).prio = (s.k.tcbs id).prio)
    (hst : ∀ id, s.k.stateOf id = .ready → s'.k.stateOf id = .ready)
    (hcur : s'.k.current = s.k.current) (hpend : s.k.pend = true → s'.k.pend = true)
    (hor : s'.k.pend = true ∨ s'.k.rq = s.k.rq) : PreemptInv sz s' := by
  rcases hor with hp | hrq
  · refine ⟨hids, h.prio_grow hg fun _ _ j _ => hprio j, fun hn => ?_, fun _ _ => Or.inl hp⟩
    exact (h.boot (hcur.symm.trans hn)).grow hg (fun _ _ j _ hs => hst j hs) fun _ hs => hs
  · exact h.frame hids hrq hprio hst hcur hpend hconts

/-- **An action of the current task**, if it is clean. -/
theorem PreemptInv.task (h : PreemptInv sz s) (hr : sz.Representable) {t : ℕ} {o : Outcome}
    (hids : IdsInv sz (s.apply t o)) (hcur : s.k.current = some t) (hpend : s.k.pend = false)
    {c : Call} (ho : nextAction sz (.cortexM idleStack) t c s.k (s.conts t) = some o)
    (hcreate : s.conts t = .user → ∀ a ∈ c.creates, CreatesBelow sz s.k t a)
    (hrecheck : ∀ w ∈ (s.conts t).recheckWakes s.k, ∀ id ∈ (s.k.waiters sz w).head?,
      (s.k.tcbs t).prio ≤ (s.k.tcbs id).prio) : PreemptInv sz (s.apply t o) := by
  have hcont : s.conts t ≠ .none := by
    intro hn
    rw [hn] at ho
    exact absurd ho (by simp [nextAction])
  have heff := taskEffect ho
  have hk : o.k.current = some t := heff.current.trans hcur
  -- a slot that gets a new priority is neither queued nor current
  have hfresh : ∀ id, o.spawn = some id → t ≠ id ∧ ∀ p < sz.maxPrio, id ∉ s.k.readyList sz p := by
    intro id hid
    obtain ⟨a, huser, rfl, hnew⟩ := heff.spawn_eq hid
    obtain ⟨hne, hnot⟩ := (hcreate huser a rfl id (hrtCreateTask_slot sz _ a s.k ▸ hnew)).1
    exact ⟨fun heq => hne (hcur.trans (congrArg some heq)), hnot⟩
  have hprio : (o.k.tcbs t).prio = (s.k.tcbs t).prio :=
    (heff.tcb t).prio fun hid => (hfresh t hid).1 rfl
  refine ⟨hids, ?_, fun hn => absurd (hk.symm.trans hn) (by simp), fun u hu => ?_⟩
  · refine h.prio_grow (h.ids.known.task_grows hr hcont heff) fun p hp id hid => ?_
    exact (heff.tcb id).prio fun hnew => (hfresh id hnew).2 p hp hid
  obtain rfl : t = u := Option.some.inj (hk.symm.trans hu)
  rw [Sys.apply_conts_self]
  have hcont' := heff.cont_ne_none
  -- before an action other than a yield or a request, nobody above the caller is queued
  have hnone : (∀ a, s.conts t ≠ .yield a) → (∀ a, s.conts t ≠ .pend a) →
      ∀ p < sz.maxPrio, p < (s.k.tcbs t).prio → s.k.readyList sz p = [] := by
    intro hy hp p hlt habove
    rcases h.cur t hcur with hpd | ⟨a, ha⟩ | ⟨a, ha⟩ | hnone
    · rw [hpend] at hpd
      exact absurd hpd (by simp)
    · exact absurd ha (hy a)
    · exact absurd ha (hp a)
    · exact hnone p hlt (Or.inl habove)
  -- so it is enough that the action queues nobody above the caller
  have habove : (∀ a, s.conts t ≠ .yield a) → (∀ a, s.conts t ≠ .pend a) →
      (∀ p < sz.maxPrio, p < (s.k.tcbs t).prio → ∀ j ∈ o.k.readyList sz p, j ∈ s.k.readyList sz p) →
      NoneAbove sz (s.apply t o) t := by
    intro hy hp hsub p hlt hab
    rw [Sys.apply_conts_self] at hab
    have hlt' : p < (s.k.tcbs t).prio := by
      rcases hab with hab | hab
      · exact hprio ▸ hab
      · exact absurd hab hcont'
    refine List.eq_nil_iff_forall_not_mem.mpr fun j hj => ?_
    have hmem := hsub p hlt hlt' j hj
    rw [hnone hy hp p hlt hlt'] at hmem
    exact absurd hmem List.not_mem_nil
  generalize hc : s.conts t = cont at *
  cases heff with
  | quiet hq hex hc' =>
      have hy : ∀ a, cont ≠ .yield a := by rintro a rfl; exact absurd hex (by simp [Cont.executing])
      have hp : ∀ a, cont ≠ .pend a := by rintro a rfl; exact absurd hex (by simp [Cont.executing])
      refine Or.inr (Or.inr (Or.inr (habove hy hp fun p _ _ j hj => ?_)))
      rwa [Kernel.readyList_congr hq.same.rq] at hj
  | request => exact Or.inl rfl
  | yield hy => exact Or.inr (Or.inr (Or.inl ⟨_, rfl⟩))
  | sleep => exact Or.inr (Or.inr (Or.inl ⟨_, rfl⟩))
  | delete ht hcall => exact Or.inr (Or.inr (Or.inl ⟨_, rfl⟩))
  | park hpk hp => exact Or.inr (Or.inr (Or.inl ⟨_, rfl⟩))
  | wake hiss hf hw => exact Or.inr (Or.inl ⟨_, rfl⟩)
  | @wakeOnRecheck _ w id k' evs hre hw =>
      have hy : ∀ a, cont ≠ .yield a := by rintro a rfl; exact absurd hre (by simp [Cont.recheckWakes])
      have hp : ∀ a, cont ≠ .pend a := by rintro a rfl; exact absurd hre (by simp [Cont.recheckWakes])
      obtain ⟨rest, hl, -⟩ := hw.waiters hr (h.ids.known.ring w)
      have hle := hrecheck w hre id (by rw [hl]; rfl)
      refine Or.inr (Or.inr (Or.inr (habove hy hp fun p hlt hab j hj => ?_)))
      rcases hw.mem_readyList hr h.prio.wf hlt hj with hold | rfl
      · exact hold
      · exact absurd hab (not_lt.mpr hle)
  | @create a evs hca =>
      subst hca
      refine Or.inr (Or.inr (Or.inr (habove (by simp) (by simp) fun p hlt hab j hj => ?_)))
      rcases hrtCreateTask_mem_readyList _ hr h.prio.wf hlt hj with hold | ⟨rfl, hslot⟩
      · exact hold
      · exact absurd hab (not_lt.mpr (hcreate rfl a rfl j hslot).2)
  | policy hca =>
      exact Or.inr (Or.inr (Or.inr (habove (by simp) (by simp) fun p _ _ j hj => hj)))

/-- **A switch** dispatches the head of the first queue that is not empty. -/
theorem PreemptInv.pendsv (h : PreemptInv sz s) (hr : sz.Representable) {oldSp : ℕ}
    (hids : IdsInv sz { s with k := (hrtSchedule sz oldSp { s.k with pend := false }).2 }) :
    PreemptInv sz { s with k := (hrtSchedule sz oldSp { s.k with pend := false }).2 } := by
  have hprio : ∀ j, ((hrtSchedule sz oldSp { s.k with pend := false }).2.tcbs j).prio =
      (s.k.tcbs j).prio := by
    intro j
    obtain ⟨sp, rq, cur, e, heq⟩ := hrtSchedule_frame sz oldSp { s.k with pend := false }
    rw [heq]
  obtain ⟨hg, hnext⟩ := schedule_entry (k := { s.k with pend := false }) hr h.prio.wf oldSp
    fun t ht _ => h.ids.cur_lt ht
  have hg' : ReadyGrows sz s.k (hrtSchedule sz oldSp { s.k with pend := false }).2 := ⟨hg.wf, hg.mem⟩
  refine ⟨hids, h.prio_grow hg' fun _ _ id _ => hprio id, fun hn => ?_, fun c hc => ?_⟩
  · obtain ⟨sp, rq, cur, e, heq⟩ := hrtSchedule_frame sz oldSp { s.k with pend := false }
    have hn' : (hrtSchedule sz oldSp { s.k with pend := false }).2.current = none := hn
    rw [heq] at hn'
    exact absurd hn' (by simp)
  · right; right; right
    intro q hq habove
    rcases hnext with ⟨hempty, -⟩ | ⟨p, id, hp, hid, hpre, hentry⟩
    · exact hempty q hq
    · obtain rfl : id = c := Option.some.inj (hid.symm.trans hc)
      have hpid : (s.k.tcbs id).prio = p := by
        rcases hentry with hmem | ⟨-, hp'⟩
        · exact h.prio.all p hp id hmem
        · exact hp'
      -- a task from a ready queue has a context: it is not the idle loop
      have hcont : s.conts id ≠ .none := by
        rcases hentry with hmem | ⟨hst, -⟩
        · exact h.ids.known.ready.all p hp id hmem
        · exact h.ids.known.used id (by rw [show s.k.stateOf id = .ready from hst]; simp)
      rcases habove with habove | habove
      · refine hpre q ?_
        rw [← hpid, ← hprio id]
        exact habove
      · exact absurd habove hcont

/-- **Every clean step keeps the invariant.** -/
theorem PreemptInv.step (h : PreemptInv sz s) (hr : sz.Representable) {a : Action}
    (hclean : PreemptClean sz s a) (hstep : CortexM.step sz idleStack s a = some s') :
    PreemptInv sz s' := by
  have hids := h.ids.step hr hstep
  cases a with
  | main m =>
      obtain ⟨hnone, -, rfl⟩ := step_main hstep
      cases m with
      | createTask a =>
          have hg : ReadyGrows sz s.k (hrtCreateTask sz (.cortexM idleStack) a s.k).2 :=
            .create h.prio.wf hr _ a
          have hready := h.boot hnone
          have hcur := (hrtCreateTask_frame sz (.cortexM idleStack) a s.k).1.trans hnone
          refine ⟨hids, h.prio_grow hg fun p hp id hid => ?_, fun _ => ?_, fun c hc => ?_⟩
          · -- queued tasks are ready here, and the slot filled was free
            rcases hrtCreateTask_tcbs sz (.cortexM idleStack) a s.k id with hs | ⟨hun, -⟩
            · exact congrArg Tcb.prio hs
            · exact absurd ((hready.all p hp id hid).symm.trans hun) (by simp)
          · refine hready.grow hg (fun p hp id hid hst => ?_) fun _ hst => hst
            show (hrtCreateTask sz (.cortexM idleStack) a s.k).2.stateOf id = .ready
            rw [hrtCreateTask_stateOf]
            split_ifs
            · rfl
            · exact hst
          · exact absurd (hcur.symm.trans hc) (by simp)
      | setPolicy p => exact h.frame hids rfl (fun _ => rfl) (fun _ hst => hst) rfl id rfl
      | setDefaultTimeslice n => exact h.frame hids rfl (fun _ => rfl) (fun _ hst => hst) rfl id rfl
  | start =>
      obtain ⟨-, rfl⟩ := step_start hstep
      exact h.frame hids rfl (fun _ => rfl) (fun _ hst => hst) rfl (fun _ => rfl) rfl
  | task c =>
      obtain ⟨t, hcur, hpend, ⟨o, ho, rfl⟩ | ⟨a, ha, rfl⟩⟩ := step_task hstep
      · obtain ⟨hcreate, hrecheck⟩ := hclean t hcur
        exact h.task hr hids hcur hpend ho hcreate hrecheck
      · have hg : ReadyGrows sz s.k s.k.hrtPendContextSwitch := .of_rq h.prio.wf rfl
        exact ⟨hids, h.prio_grow hg fun _ _ _ _ => rfl,
          fun hn => absurd (hcur.symm.trans hn) (by simp), fun _ _ => Or.inl rfl⟩
  | isr op =>
      obtain rfl := Option.some.inj hstep
      exact h.interrupt hids rfl (h.ids.known.isr_grows hr op) (fun j => (isr_config sz s.k op j).1)
        (fun j => isr_ready) (isr_current sz s.k op) (isr_pend sz s.k op)
        ((isr_pend_or_rq sz s.k op).imp_right And.left)
  | tick =>
      obtain rfl := Option.some.inj hstep
      obtain ⟨hcur, -, hpend⟩ := hrtTickIsr_frame sz s.k
      exact h.interrupt hids rfl (.tick h.prio.wf hr) (fun j => (hrtTickIsr_config sz s.k j).2.1)
        (fun j => hrtTickIsr_ready) hcur hpend (hrtTickIsr_pend_or_rq sz s.k)
  | pendsv oldSp =>
      obtain ⟨-, -, rfl⟩ := step_pendsv hstep
      exact h.pendsv hr hids

theorem PreemptInv.of_boot (sz : Sizing) (idleStack : ℕ) (cfg : Option KernelConfig)
    (objs : ObjectSpecs) (mem : Kernel) : PreemptInv sz (CortexM.boot sz idleStack cfg objs mem) := by
  have hids := IdsInv.boot sz idleStack cfg objs mem
  have hnone := (hrtInit_frame sz { mem with error := .none, pend := false }
    (.cortexM idleStack) cfg).2.1
  -- an entry would be a slot with a context, and there is none
  have hempty : ∀ E, QueuedAll sz (CortexM.boot sz idleStack cfg objs mem).k E := fun E =>
    ⟨hids.known.ready.wf, fun p hp id hid => absurd rfl (hids.known.ready.all p hp id hid)⟩
  exact ⟨hids, hempty _, fun _ => hempty _, fun c hc => absurd (hnone.symm.trans hc) (by simp)⟩

end Invariant

/-! ## The result -/

section Results

variable {sz : Sizing} {idleStack : ℕ} {cfg : Option KernelConfig} {objs : ObjectSpecs} {mem : Kernel}
  {as : List Action} {s : Sys}

/-- **Preemption is complete** in every run of clean steps. While the current task runs code of its own
and a ready queue holds a task of strictly higher priority, a switch is pending; while the idle loop
runs, any task in a ready queue will do. -/
theorem preemption_pending (hr : sz.Representable)
    (hrun : exec (step sz idleStack) (CortexM.boot sz idleStack cfg objs mem) as = some s)
    (hclean : Along (step sz idleStack) (PreemptClean sz) (CortexM.boot sz idleStack cfg objs mem) as)
    {c p id : ℕ} (hcur : s.k.current = some c) (hp : p < sz.maxPrio) (hid : id ∈ s.k.readyList sz p)
    (hrival : (s.conts c = .user ∧ (s.k.tcbs id).prio < (s.k.tcbs c).prio) ∨ s.conts c = .none) :
    s.k.pend = true := by
  have h : PreemptInv sz s :=
    exec_invariant (fun s a s' h ha hstep => h.step hr ha hstep)
      (PreemptInv.of_boot sz idleStack cfg objs mem) hclean hrun
  have hidle : ∀ a, s.conts c ≠ .yield a ∧ s.conts c ≠ .pend a := by
    intro a
    rcases hrival with ⟨hu, -⟩ | hn
    · rw [hu]
      simp
    · rw [hn]
      simp
  rcases h.cur c hcur with hpend | ⟨a, ha⟩ | ⟨a, ha⟩ | hnone
  · exact hpend
  · exact absurd ha (hidle a).1
  · exact absurd ha (hidle a).2
  · have habove : p < (s.k.tcbs c).prio ∨ s.conts c = .none := by
      rcases hrival with ⟨-, hlt⟩ | hn
      · rw [h.prio.all p hp id hid] at hlt
        exact Or.inl hlt
      · exact Or.inr hn
    rw [hnone p hp habove] at hid
    exact absurd hid List.not_mem_nil

/-- A task of priority 1 and one of priority 0 are created; the second one runs and sleeps for a tick,
the first one runs. -/
def lowRuns : List Action :=
  [.main (.createTask ⟨1, 0, 0x20001000, 64, some ⟨1, 0⟩⟩),
    .main (.createTask ⟨1, 0, 0x20002000, 64, some ⟨0, 0⟩⟩), .start, .pendsv 0, .task (.sleep 1),
    .task .yield, .pendsv 0x20002000]

/-- The tick that wakes the second task requests the switch to it. -/
theorem preemption_pending_tick :
    ∃ s, exec (step .default 0x20000000) board (lowRuns ++ [.tick]) = some s ∧
      s.k.current = some 0 ∧ 1 ∈ s.k.readyList .default 0 ∧ s.k.pend = true := by
  have heval : ((exec (step .default 0x20000000) board (lowRuns ++ [.tick])).map fun s =>
      (s.k.current, decide (1 ∈ s.k.readyList .default 0), decide (s.conts 0 = .user),
        (s.k.tcbs 1).prio, (s.k.tcbs 0).prio)) = some (some 0, true, true, 0, 1) := by
    decide +kernel
  obtain ⟨s, hs, hv⟩ := Option.map_eq_some_iff.mp heval
  obtain ⟨hcur, hmem, huser, hp1, hp0⟩ := by
    simpa only [Prod.mk.injEq, decide_eq_true_eq] using hv
  have hpend := preemption_pending (by decide) hs (by decide +kernel) hcur (by decide) hmem
    (Or.inl ⟨huser, by rw [hp1, hp0]; decide⟩)
  exact ⟨s, hs, hcur, hmem, hpend⟩

/-- **`hrt_create_task` requests no switch**: a task of priority 1 creates one of priority 0 and runs on
while the new task is ready. -/
theorem create_without_switch :
    ∃ s, exec (step .default 0x20000000) board
        [.main (.createTask ⟨1, 0, 0x20001000, 64, some ⟨1, 0⟩⟩), .start, .pendsv 0,
          .task (.createTask ⟨1, 0, 0x20002000, 64, some ⟨0, 0⟩⟩)] = some s ∧
      s.k.current = some 0 ∧ s.conts 0 = .user ∧ 1 ∈ s.k.readyList .default 0 ∧
      (s.k.tcbs 1).prio < (s.k.tcbs 0).prio ∧ s.k.pend = false := by
  have heval : ((exec (step .default 0x20000000) board
      [.main (.createTask ⟨1, 0, 0x20001000, 64, some ⟨1, 0⟩⟩), .start, .pendsv 0,
        .task (.createTask ⟨1, 0, 0x20002000, 64, some ⟨0, 0⟩⟩)]).map fun s =>
      (s.k.current, decide (s.conts 0 = .user), decide (1 ∈ s.k.readyList .default 0),
        decide ((s.k.tcbs 1).prio < (s.k.tcbs 0).prio), s.k.pend)) =
      some (some 0, true, true, true, false) := by
    decide +kernel
  obtain ⟨s, hs, hv⟩ := Option.map_eq_some_iff.mp heval
  obtain ⟨hcur, huser, hmem, hlt, hpend⟩ := by
    simpa only [Prod.mk.injEq, decide_eq_true_eq] using hv
  exact ⟨s, hs, hcur, huser, hmem, hlt, hpend⟩

/-- The low task fills a queue and finds it full on the next send; an ISR empties it; the high task
wakes up, finds the queue empty and waits; the low task goes on with its send. -/
def recheckRun : List Action :=
  lowRuns ++ [.task (.queueSend 0 [1]), .task (.queueSend 0 [2]), .isr (.queueTryRecv 0), .tick,
    .pendsv 0x20001000, .task .yield, .pendsv 0x20002000, .task .yield, .task (.queueRecv 0),
    .task .yield, .task .yield, .pendsv 0x20002000, .task .yield]

/-- **The re-check of `hrt_queue_send` requests no switch**: it wakes the receiver of priority 0 and
returns to the sender of priority 1. -/
theorem recheck_without_switch :
    ∃ s, exec (step .default 0x20000000) board recheckRun = some s ∧
      s.log.getLast? = some (.ret 0 (.queueSend 0 [2]) 0) ∧
      s.k.current = some 0 ∧ s.conts 0 = .user ∧ 1 ∈ s.k.readyList .default 0 ∧
      (s.k.tcbs 1).prio < (s.k.tcbs 0).prio ∧ s.k.pend = false := by
  have heval : ((exec (step .default 0x20000000) board recheckRun).map fun s =>
      (decide (s.log.getLast? = some (.ret 0 (.queueSend 0 [2]) 0)), s.k.current,
        decide (s.conts 0 = .user), decide (1 ∈ s.k.readyList .default 0),
        decide ((s.k.tcbs 1).prio < (s.k.tcbs 0).prio), s.k.pend)) =
      some (true, some 0, true, true, true, false) := by
    decide +kernel
  obtain ⟨s, hs, hv⟩ := Option.map_eq_some_iff.mp heval
  obtain ⟨hlast, hcur, huser, hmem, hlt, hpend⟩ := by
    simpa only [Prod.mk.injEq, decide_eq_true_eq] using hv
  exact ⟨s, hs, hlast, hcur, huser, hmem, hlt, hpend⟩

end Results

end CortexM

end HardRT
