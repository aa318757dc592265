import HardRT.CortexM.System

/-! # The round-robin quantum on Cortex-M

A tick takes one off the quantum of the ready current task and requests a switch when none is left.
The switch is made by `hrt__schedule`, which puts the outgoing task back without a fresh quantum, so the
next time the task is dispatched it has none left and no tick ever charges it again.

* `quantum_not_refilled` — two tasks with a quantum of one tick: the second dispatch of the first one
  never ends.
* `QuantumClean` — the switches that do not put the task in question back with a used-up quantum, and do
  not find it queued while it is not ready.
* `roundRobin_quantum` — after such switches the task is dispatched with a quantum, and it is switched
  out in time. -/

namespace HardRT

open Lib

namespace CortexM

/-! ## The side conditions -/

/-- **The clean switches**, for task `c`: `c` is in a ready queue only if it is ready, and it does not
leave the CPU ready with a used-up quantum. -/
def QuantumClean (sz : Sizing) (c : ℕ) (s : Sys) : Action → Prop
  | .pendsv _ =>
      (∀ p < sz.maxPrio, c ∈ s.k.readyList sz p → s.k.stateOf c = .ready) ∧
      (s.k.current = some c → s.k.stateOf c = .ready → 0 < (s.k.tcbs c).timesliceCfg →
        (s.k.tcbs c).sliceLeft ≠ 0)
  | _ => True

instance (sz : Sizing) (c : ℕ) (s : Sys) : DecidablePred (QuantumClean sz c s)
  | .pendsv _ => inferInstanceAs (Decidable (_ ∧ _))
  | .main _ | .start | .task _ | .isr _ | .tick => instDecidableTrue

/-- Whether a switch that was pending right after the last tick is still unserved once `a` has led to
`s'`; `w` says so for the state before. -/
def Action.unserved (w : Bool) (s' : Sys) : Action → Bool
  | .tick => s'.k.pend
  | .pendsv _ => false
  | _ => w

/-- The machine in which every tick waits until a switch that was pending after the last tick has been
served. -/
def servedStep (sz : Sizing) (idleStack : ℕ) (q : Sys × Bool) (a : Action) : Option (Sys × Bool) :=
  if a = .tick ∧ q.2 = true then none
  else (step sz idleStack q.1 a).map fun s' => (s', a.unserved q.2 s')

theorem servedStep_some {sz : Sizing} {idleStack : ℕ} {q q' : Sys × Bool} {a : Action}
    (h : servedStep sz idleStack q a = some q') :
    (a = .tick → q.2 ≠ true) ∧ step sz idleStack q.1 a = some q'.1 ∧ q'.2 = a.unserved q.2 q'.1 := by
  unfold servedStep at h
  split_ifs at h with hg
  obtain ⟨s', hs', rfl⟩ := Option.map_eq_some_iff.mp h
  exact ⟨fun ht hw => hg ⟨ht, hw⟩, hs', rfl⟩

/-- The action is one of the current task. -/
def Action.isTask : Action → Bool
  | .task _ => true
  | _ => false

/-- **Task `c` keeps the CPU undisturbed**: it is current and runs code of its own under a policy with
quanta, it makes no call, and another task of its priority is in the ready queue. -/
def Undisturbed (sz : Sizing) (c : ℕ) (s : Sys) (a : Action) : Prop :=
  s.k.current = some c ∧ s.conts c = .user ∧ s.k.policy.sliced = true ∧ a.isTask = false ∧
  (s.k.tcbs c).prio < sz.maxPrio ∧ ∃ d ∈ s.k.readyList sz (s.k.tcbs c).prio, d ≠ c

instance (sz : Sizing) (c : ℕ) (s : Sys) (a : Action) : Decidable (Undisturbed sz c s a) :=
  inferInstanceAs (Decidable (_ ∧ _))

/-- If `c` is switched out, it is not in a ready queue already. -/
def LeavesUnqueued (sz : Sizing) (c : ℕ) (s : Sys) : Action → Prop
  | .pendsv _ => ∀ p < sz.maxPrio, c ∉ s.k.readyList sz p
  | _ => True

instance (sz : Sizing) (c : ℕ) (s : Sys) : DecidablePred (LeavesUnqueued sz c s)
  | .pendsv _ => inferInstanceAs (Decidable (∀ _, _))
  | .main _ | .start | .task _ | .isr _ | .tick => instDecidableTrue

/-! ## The invariant -/

/-- **The quantum invariant** of task `c`: a task with a quantum has some of it left, unless it has just
used it up and waits for its switch; and a current task that is not ready is on its way out. -/
structure QuantumInv (sz : Sizing) (c : ℕ) (s : Sys) : Prop where
  ids : IdsInv sz s
  le : (s.k.tcbs c).sliceLeft ≤ (s.k.tcbs c).timesliceCfg
  left : 0 < (s.k.tcbs c).timesliceCfg → 1 ≤ (s.k.tcbs c).sliceLeft ∨
    (s.k.current = some c ∧ s.k.stateOf c = .ready ∧ s.k.pend = true)
  cur : s.k.current = some c → s.k.stateOf c = .ready ∨ (∃ a, s.conts c = .pend a) ∨
    (s.k.pend = true ∧ ∃ a, s.conts c = .hop a)

section Invariant

variable {sz : Sizing} {idleStack c : ℕ} {s s' : Sys}

/-- While no switch is pending, the quantum is not used up. -/
theorem QuantumInv.pos (h : QuantumInv sz c s) (hpend : s.k.pend = false)
    (hcfg : 0 < (s.k.tcbs c).timesliceCfg) : 1 ≤ (s.k.tcbs c).sliceLeft := by
  rcases h.left hcfg with hpos | ⟨-, -, hp⟩
  · exact hpos
  · rw [hpend] at hp
    exact absurd hp (by simp)

/-- **An action of the current task**, whoever it is. -/
theorem QuantumInv.task (h : QuantumInv sz c s) {t : ℕ} {o : Outcome}
    (hids : IdsInv sz (s.apply t o)) (hcur : s.k.current = some t) (hpend : s.k.pend = false)
    {call : Call} (ho : nextAction sz (.cortexM idleStack) t call s.k (s.conts t) = some o) :
    QuantumInv sz c (s.apply t o) := by
  have heff := taskEffect ho
  have hk : o.k.current = s.k.current := heff.current
  -- what the action does to the control block of `c`
  have htcb : (o.k.tcbs c).sliceLeft ≤ (o.k.tcbs c).timesliceCfg ∧
      (0 < (o.k.tcbs c).timesliceCfg → 1 ≤ (o.k.tcbs c).sliceLeft) := by
    have hle := h.le
    have hpos := h.pos hpend
    cases heff.tcb c with
    | same hs => rw [hs]; exact ⟨hle, hpos⟩
    | leave st wake hj hst hc hs => rw [hs]; exact ⟨hle, hpos⟩
    | refill hs => rw [hs]; exact ⟨le_refl _, id⟩
    | create hun hnew hs => rw [hs]; exact ⟨le_refl _, id⟩
  refine ⟨hids, htcb.1, fun hcfg => Or.inl (htcb.2 hcfg), fun hc => ?_⟩
  obtain rfl : t = c := by
    have hc' : o.k.current = some c := hc
    rw [hk, hcur] at hc'
    exact Option.some.inj hc'
  rw [Sys.apply_conts_self]
  -- before the action the caller is ready or about to request the switch
  have hbefore : s.k.stateOf t = .ready ∨ ∃ a, s.conts t = .pend a := by
    rcases h.cur hcur with hr | ha | ⟨hp, -⟩
    · exact Or.inl hr
    · exact Or.inr ha
    · rw [hpend] at hp
      exact absurd hp (by simp)
  rcases hbefore with hr | ⟨a, ha⟩
  · cases heff.tcb t with
    | same hs => exact Or.inl ((congrArg Tcb.state hs).trans hr)
    | leave st wake hj hst hc hs => exact Or.inr (Or.inl ⟨_, hc⟩)
    | refill hs => exact Or.inl (congrArg Tcb.state hs)
    | create hun hnew hs => exact Or.inl (congrArg Tcb.state hs)
  · rw [ha] at ho
    obtain rfl := Option.some.inj ho
    exact Or.inr (Or.inr ⟨rfl, a, rfl⟩)

/-- An interrupt that refills `c`, or leaves its control block alone. -/
theorem QuantumInv.interrupt (h : QuantumInv sz c s) (hids : IdsInv sz s') (hconts : s'.conts = s.conts)
    (hcur : s'.k.current = s.k.current) (hpend : s.k.pend = true → s'.k.pend = true)
    (htcb : s'.k.tcbs c = s.k.tcbs c ∨ s'.k.tcbs c = (s.k.tcbs c).refill) : QuantumInv sz c s' := by
  rcases htcb with hs | hs
  · have hst : s'.k.stateOf c = s.k.stateOf c := congrArg Tcb.state hs
    refine ⟨hids, by rw [hs]; exact h.le, fun hcfg => ?_, fun hc => ?_⟩
    · rw [hs] at hcfg ⊢
      rw [hcur, hst]
      exact (h.left hcfg).imp_right fun ⟨hc, hr, hp⟩ => ⟨hc, hr, hpend hp⟩
    · rw [hcur] at hc
      rw [hst, hconts]
      exact (h.cur hc).imp_right (Or.imp_right fun ⟨hp, ha⟩ => ⟨hpend hp, ha⟩)
  · refine ⟨hids, by rw [hs]; exact le_refl _, fun hcfg => Or.inl ?_, fun _ => Or.inl ?_⟩
    · rw [hs] at hcfg ⊢
      exact hcfg
    · exact congrArg Tcb.state hs

/-- **A tick** may use up the quantum, and then it requests a switch. -/
theorem QuantumInv.tick (h : QuantumInv sz c s) (hids : IdsInv sz (s.tickIsr sz)) :
    QuantumInv sz c (s.tickIsr sz) := by
  obtain ⟨hcur, -, hpend⟩ := hrtTickIsr_frame sz s.k
  obtain ⟨b, hb, htcb | ⟨hc, hst, -, hpos, htcb, hlast, -⟩⟩ := hrtTickIsr_tcbs sz s.k c
  · refine h.interrupt hids rfl hcur hpend ?_
    exact hb.imp (fun hb => htcb.trans hb) fun ⟨_, hb⟩ => htcb.trans hb
  · have hready : (hrtTickIsr sz s.k).stateOf c = .ready := (congrArg Tcb.state htcb).trans hst
    have hle : b.sliceLeft ≤ b.timesliceCfg := by
      rcases hb with rfl | ⟨-, rfl⟩
      · exact h.le
      · exact le_refl _
    refine ⟨hids, ?_, fun _ => ?_, fun _ => Or.inl hready⟩
    · show ((hrtTickIsr sz s.k).tcbs c).sliceLeft ≤ ((hrtTickIsr sz s.k).tcbs c).timesliceCfg
      rw [htcb]
      exact (Nat.sub_le _ _).trans hle
    · by_cases h1 : b.sliceLeft = 1
      · exact Or.inr ⟨hcur.trans hc, hready, hlast h1⟩
      · left
        show 1 ≤ ((hrtTickIsr sz s.k).tcbs c).sliceLeft
        rw [htcb]
        show 1 ≤ b.sliceLeft - 1
        omega

/-- A switch leaves quanta, states and priorities alone. -/
theorem schedule_tcb (sz : Sizing) (oldSp : ℕ) (k : Kernel) (j : ℕ) :
    ∃ sp, (hrtSchedule sz oldSp k).2.tcbs j = { k.tcbs j with sp := sp } := by
  obtain ⟨sp, rq, cur, e, heq⟩ := hrtSchedule_frame sz oldSp k
  exact ⟨sp j, by rw [heq]⟩

/-- **A clean switch** dispatches `c` only while it is ready and has some of its quantum left. -/
theorem QuantumInv.pendsv (h : QuantumInv sz c s) (hr : sz.Representable) (hidle : c ≠ sz.idleId)
    {oldSp : ℕ}
    (hids : IdsInv sz { s with k := (hrtSchedule sz oldSp { s.k with pend := false }).2 })
    (hqueued : ∀ p < sz.maxPrio, c ∈ s.k.readyList sz p → s.k.stateOf c = .ready)
    (hleft : s.k.current = some c → s.k.stateOf c = .ready → 0 < (s.k.tcbs c).timesliceCfg →
      (s.k.tcbs c).sliceLeft ≠ 0) :
    QuantumInv sz c { s with k := (hrtSchedule sz oldSp { s.k with pend := false }).2 } ∧
    (0 < (s.k.tcbs c).timesliceCfg → 1 ≤ (s.k.tcbs c).sliceLeft) := by
  have hpos : 0 < (s.k.tcbs c).timesliceCfg → 1 ≤ (s.k.tcbs c).sliceLeft := by
    intro hcfg
    rcases h.left hcfg with hpos | ⟨hc, hst, -⟩
    · exact hpos
    · exact Nat.one_le_iff_ne_zero.mpr (hleft hc hst hcfg)
  obtain ⟨sp, hsp⟩ := schedule_tcb sz oldSp { s.k with pend := false } c
  refine ⟨⟨hids, ?_, fun hcfg => Or.inl ?_, fun hc => Or.inl ?_⟩, hpos⟩
  · rw [hsp]
    exact h.le
  · rw [hsp] at hcfg ⊢
    exact hpos hcfg
  · -- `c` was picked from a ready queue: it was there, or it was put there because it is ready
    have hready : s.k.stateOf c = .ready := by
      rcases (schedule_entry (k := { s.k with pend := false }) hr h.ids.known.ready.wf oldSp
        fun t ht _ => h.ids.cur_lt ht).2 with ⟨-, hidle'⟩ | ⟨p, id, hp, hid, -, hentry⟩
      · exact absurd (Option.some.inj (hidle'.symm.trans hc)).symm hidle
      · obtain rfl : id = c := Option.some.inj (hid.symm.trans hc)
        rcases hentry with hmem | ⟨hst, -⟩
        · exact hqueued p hp hmem
        · exact hst
    exact (congrArg Tcb.state hsp).trans hready

/-- **Every clean step keeps the invariant.** -/
theorem QuantumInv.step (h : QuantumInv sz c s) (hr : sz.Representable) (hidle : c ≠ sz.idleId)
    {a : Action} (hclean : QuantumClean sz c s a)
    (hstep : CortexM.step sz idleStack s a = some s') : QuantumInv sz c s' := by
  have hids := h.ids.step hr hstep
  cases a with
  | main m =>
      obtain ⟨hnone, hpend, rfl⟩ := step_main hstep
      cases m with
      | createTask a =>
          have hpos := h.pos hpend
          have hcur := (hrtCreateTask_frame sz (.cortexM idleStack) a s.k).1
          have htcb : ((hrtCreateTask sz (.cortexM idleStack) a s.k).2.tcbs c).sliceLeft ≤
              ((hrtCreateTask sz (.cortexM idleStack) a s.k).2.tcbs c).timesliceCfg ∧
              (0 < ((hrtCreateTask sz (.cortexM idleStack) a s.k).2.tcbs c).timesliceCfg →
                1 ≤ ((hrtCreateTask sz (.cortexM idleStack) a s.k).2.tcbs c).sliceLeft) := by
            rcases hrtCreateTask_tcbs sz (.cortexM idleStack) a s.k c with hs | ⟨-, -, sp, hs⟩
            · rw [hs]
              exact ⟨h.le, hpos⟩
            · rw [hs]
              exact ⟨le_refl _, id⟩
          refine ⟨hids, htcb.1, fun hcfg => Or.inl (htcb.2 hcfg), fun hc => ?_⟩
          have hc' : (hrtCreateTask sz (.cortexM idleStack) a s.k).2.current = some c := hc
          rw [hcur, hnone] at hc'
          exact absurd hc' (by simp)
      | setPolicy p => exact h.interrupt hids rfl rfl id (Or.inl rfl)
      | setDefaultTimeslice n => exact h.interrupt hids rfl rfl id (Or.inl rfl)
  | start =>
      obtain ⟨-, rfl⟩ := step_start hstep
      exact h.interrupt hids rfl rfl (fun _ => rfl) (Or.inl rfl)
  | task call =>
      obtain ⟨t, hcur, hpend, ⟨o, ho, rfl⟩ | ⟨a, ha, rfl⟩⟩ := step_task hstep
      · exact h.task hids hcur hpend ho
      · refine ⟨hids, h.le, fun hcfg => Or.inl (h.pos hpend hcfg), fun hc => Or.inl ?_⟩
        obtain rfl : t = c := Option.some.inj (hcur.symm.trans hc)
        rcases h.cur hc with hst | ⟨a', ha'⟩ | ⟨hp, -⟩
        · exact hst
        · exact absurd (ha.symm.trans ha') (by simp)
        · rw [hpend] at hp
          exact absurd hp (by simp)
  | isr op =>
      obtain rfl := Option.some.inj hstep
      exact h.interrupt hids rfl (isr_current sz s.k op) (isr_pend sz s.k op) (isr_tcbs sz s.k op c)
  | tick =>
      obtain rfl := Option.some.inj hstep
      exact h.tick hids
  | pendsv oldSp =>
      obtain ⟨-, -, rfl⟩ := step_pendsv hstep
      exact (h.pendsv hr hidle hids hclean.1 hclean.2).1

theorem QuantumInv.boot (sz : Sizing) (idleStack c : ℕ) (cfg : Option KernelConfig)
    (objs : ObjectSpecs) (mem : Kernel) : QuantumInv sz c (boot sz idleStack cfg objs mem) := by
  have hids := IdsInv.boot sz idleStack cfg objs mem
  obtain ⟨hsl, hcfg⟩ := hrtInit_slice sz { mem with error := .none, pend := false }
    (.cortexM idleStack) cfg c
  have hnone := (hrtInit_frame sz { mem with error := .none, pend := false }
    (.cortexM idleStack) cfg).2.1
  refine ⟨hids, hsl.le.trans (Nat.zero_le _), fun hpos => ?_, fun hc => ?_⟩
  · exact absurd (hcfg ▸ hpos) (lt_irrefl 0)
  · exact absurd (hnone.symm.trans hc) (by simp)

end Invariant

/-! ## The bound on a stay -/

section Stay

variable {sz : Sizing} {idleStack c : ℕ} {s s' : Sys}

/-- The ticks `c` can still see before it is switched out; `q.2` says that the switch is overdue. -/
def ticksLeft (c : ℕ) (q : Sys × Bool) : ℕ :=
  if q.1.k.current = some c then
    if q.2 = true then 0 else if q.1.k.pend = true then 1 else (q.1.k.tcbs c).sliceLeft
  else 0

/-- **A switch takes the CPU from a task with a rival** of its own priority, unless the ready queues
still hold the task. -/
theorem schedule_leaves (hr : sz.Representable) {k : Kernel} (hwf : ReadyWF sz k)
    (hlt : c < sz.maxTasks) (hcur : k.current = some c) (hst : k.stateOf c = .ready)
    (hprio : (k.tcbs c).prio < sz.maxPrio) (hrival : ∃ d ∈ k.readyList sz (k.tcbs c).prio, d ≠ c)
    (hfresh : ∀ p < sz.maxPrio, c ∉ k.readyList sz p) {oldSp : ℕ} (hsp : oldSp ≠ 0) :
    (hrtSchedule sz oldSp k).2.current ≠ some c := by
  have hwf' : ReadyWF sz (setSp c oldSp k) := fun p hp => by
    rw [setSp_rq]
    exact hwf p hp
  have hlist' : ∀ p, (setSp c oldSp k).readyList sz p = k.readyList sz p :=
    Kernel.readyList_congr (setSp_rq ..)
  have hprio' : ((setSp c oldSp k).tcbs c).prio = (k.tcbs c).prio := by
    rw [setSp_tcbs, Function.update_self]
  -- the outgoing task goes to the end of its queue
  have hsave : saveOutgoing sz oldSp k = rqPush sz (k.tcbs c).prio c (setSp c oldSp k) := by
    rw [saveOutgoing, if_neg hsp, hcur]
    simp only [stateOf_setSp, hst, if_true, hprio']
  have hwfs : ReadyWF sz (saveOutgoing sz oldSp k) := by
    rw [hsave]
    exact hwf'.push hr _ _
  -- so the head of every queue is an entry from before, and `c` was in none
  have hhead : ∀ p id rest, p < sz.maxPrio →
      (saveOutgoing sz oldSp k).readyList sz p = id :: rest → id ≠ c := by
    rintro p id rest hp hl rfl
    refine hfresh p hp ?_
    rw [hsave] at hl
    by_cases hpp : p = (k.tcbs id).prio
    · obtain ⟨l, hl'⟩ := readyList_push_append hwf' hr (k.tcbs id).prio id hp
      rw [hl', hlist'] at hl
      obtain ⟨d, hd, -⟩ := hrival
      rw [← hpp] at hd
      obtain ⟨x, xs, hx⟩ := List.exists_cons_of_ne_nil (List.ne_nil_of_mem hd)
      rw [hx, List.cons_append] at hl
      rw [hx, (List.cons.inj hl).1]
      exact List.mem_cons_self
    · rw [readyList_push_of_ne hpp, hlist'] at hl
      rw [hl]
      exact List.mem_cons_self
  rcases pickNextReady_spec hr hwfs with ⟨hempty, -⟩ | ⟨p, id, rest, hp, -, hl, heq⟩
  · -- the rival is still queued
    obtain ⟨d, hd, -⟩ := hrival
    obtain ⟨l, hl'⟩ := readyList_push_append hwf' hr (k.tcbs c).prio c hprio
    have hnil := hempty _ hprio
    rw [hsave, hl', hlist'] at hnil
    rw [(List.append_eq_nil_iff.mp hnil).1] at hd
    exact absurd hd List.not_mem_nil
  · simp only [hrtSchedule, heq]
    exact fun h => hhead p id rest hp hl (Option.some.inj h)

/-- **Every step of an undisturbed stay** leaves fewer ticks if it is a tick, and no more if it is
not. -/
theorem ticksLeft_step (hr : sz.Representable) (hc : c < sz.idleId) {q q' : Sys × Bool} {a : Action}
    (hinv : q.1.k.current = some c → QuantumInv sz c q.1 ∧ 0 < (q.1.k.tcbs c).timesliceCfg)
    (hstay : Undisturbed sz c q.1 a ∧ LeavesUnqueued sz c q.1 a)
    (hstep : servedStep sz idleStack q a = some q') :
    (q'.1.k.current = some c → QuantumInv sz c q'.1 ∧ 0 < (q'.1.k.tcbs c).timesliceCfg) ∧
    ticksLeft c q' + (if a == .tick then 1 else 0) ≤ ticksLeft c q := by
  obtain ⟨⟨hcur, huser, hsliced, htask, hprio, hrival⟩, hfresh⟩ := hstay
  obtain ⟨h, hcfg⟩ := hinv hcur
  have hlt := h.ids.cur_lt hcur
  have hready : q.1.k.stateOf c = .ready := by
    rcases h.cur hcur with hst | ⟨a, ha⟩ | ⟨-, a, ha⟩
    · exact hst
    · exact absurd (huser.symm.trans ha) (by simp)
    · exact absurd (huser.symm.trans ha) (by simp)
  obtain ⟨hserved, hs', hflag⟩ := servedStep_some hstep
  obtain ⟨s', w'⟩ := q'
  simp only at hs' hflag ⊢
  subst hflag
  cases a with
  | main m => exact absurd ((step_main hs').1.symm.trans hcur) (by simp)
  | start => exact absurd ((step_start hs').1.symm.trans hcur) (by simp)
  | task call => exact absurd htask (by simp [Action.isTask])
  | isr op =>
      have hclean : QuantumClean sz c q.1 (.isr op) := trivial
      have h' := h.step hr hc.ne hclean hs'
      obtain rfl := Option.some.inj hs'
      have hcur' : (q.1.isr sz op).k.current = some c := (isr_current sz q.1.k op).trans hcur
      rcases isrEffect sz q.1.k op with hq | ⟨id, k', hw, heq⟩
      · have htcb : (q.1.isr sz op).k.tcbs c = q.1.k.tcbs c := congrFun hq.same.tcbs c
        have hpend : (q.1.isr sz op).k.pend = q.1.k.pend := hq.same.pend
        refine ⟨fun _ => ⟨h', by rw [htcb]; exact hcfg⟩, ?_⟩
        simp [ticksLeft, Action.unserved, hcur, hcur', htcb, hpend]
      · have htcb : (q.1.isr sz op).k.tcbs c = q.1.k.tcbs c ∨
            (q.1.isr sz op).k.tcbs c = (q.1.k.tcbs c).refill := isr_tcbs sz q.1.k op c
        have hpend : (q.1.isr sz op).k.pend = true := by
          show (isrAction sz q.1.k op).2.1.pend = true
          rw [heq]
          rfl
        refine ⟨fun _ => ⟨h', ?_⟩, ?_⟩
        · rcases htcb with ht | ht <;> rw [ht] <;> exact hcfg
        · -- a waking requests a switch: one tick may still come before it
          simp only [ticksLeft, Action.unserved, hcur, hcur', hpend, if_true]
          by_cases hq2 : q.2 = true
          · simp [hq2]
          · by_cases hp : q.1.k.pend = true
            · simp [hq2, hp]
            · have hpos := h.pos (by simpa using hp) hcfg
              simpa [hq2, hp] using hpos
  | tick =>
      have hclean : QuantumClean sz c q.1 .tick := trivial
      have h' := h.step hr hc.ne hclean hs'
      obtain rfl := Option.some.inj hs'
      have hw : q.2 ≠ true := hserved rfl
      obtain ⟨hcurk, -, hpendk⟩ := hrtTickIsr_frame sz q.1.k
      have hcur' : (q.1.tickIsr sz).k.current = some c := hcurk.trans hcur
      have hcfg' : ((q.1.tickIsr sz).k.tcbs c).timesliceCfg = (q.1.k.tcbs c).timesliceCfg :=
        (hrtTickIsr_config sz q.1.k c).1
      refine ⟨fun _ => ⟨h', by rw [hcfg']; exact hcfg⟩, ?_⟩
      simp only [ticksLeft, Action.unserved, hcur, hcur', hw, if_true, beq_self_eq_true]
      by_cases hp : q.1.k.pend = true
      · have hp' : (q.1.tickIsr sz).k.pend = true := hpendk hp
        simp [hp, hp']
      · -- the tick is charged, and the last one requests the switch
        have hpos := h.pos (by simpa using hp) hcfg
        obtain ⟨htcb, hlast⟩ := hrtTickIsr_charge hcur hlt hready hsliced hcfg hpos
        have hleft : ((q.1.tickIsr sz).k.tcbs c).sliceLeft = (q.1.k.tcbs c).sliceLeft - 1 :=
          congrArg Tcb.sliceLeft htcb
        by_cases hp' : (q.1.tickIsr sz).k.pend = true
        · simpa [hp, hp'] using hpos
        · have hne : (q.1.k.tcbs c).sliceLeft ≠ 1 := fun h1 => hp' (hlast h1)
          rw [if_neg hp', if_neg hp', if_neg hp, hleft]
          exact (Nat.sub_add_cancel hpos).le
  | pendsv oldSp =>
      obtain ⟨-, hsp, rfl⟩ := step_pendsv hs'
      have hsp' : oldSp ≠ 0 := fun h0 => absurd ((hsp.mp h0).symm.trans hcur) (by simp)
      have hleaves := schedule_leaves (k := { q.1.k with pend := false }) hr
        (fun p hp => h.ids.known.ready.wf p hp) hlt hcur hready hprio hrival hfresh hsp'
      refine ⟨fun hc' => absurd hc' hleaves, ?_⟩
      rw [ticksLeft, if_neg hleaves]
      exact Nat.zero_le _

end Stay

/-! ## The result -/

section Results

variable {sz : Sizing} {idleStack : ℕ} {cfg : Option KernelConfig} {objs : ObjectSpecs} {mem : Kernel}
  {as : List Action} {s : Sys}

/-- **The round-robin quantum.** Let `c` be a task with a quantum, outside the idle slot, in a run whose
switches are clean for `c`. After every switch `c` has some of its quantum left. And from any state of
the run on: while every switch that a tick asks for is served before the next tick, `c` stays current,
runs code of its own without a call and has a rival of its own priority in the ready queue, there are no
more ticks than its quantum. -/
theorem roundRobin_quantum (hr : sz.Representable) {c : ℕ} (hc : c < sz.idleId)
    (hrun : exec (step sz idleStack) (boot sz idleStack cfg objs mem) as = some s)
    (hclean : Along (step sz idleStack) (QuantumClean sz c) (boot sz idleStack cfg objs mem) as)
    (hcfg : 0 < (s.k.tcbs c).timesliceCfg) :
    (∀ pre oldSp, as = pre ++ [.pendsv oldSp] → 1 ≤ (s.k.tcbs c).sliceLeft) ∧
    ∀ stay q, exec (servedStep sz idleStack) (s, false) stay = some q →
      Along (servedStep sz idleStack)
        (fun q a => Undisturbed sz c q.1 a ∧ LeavesUnqueued sz c q.1 a) (s, false) stay →
      stay.count .tick ≤ (s.k.tcbs c).timesliceCfg := by
  have h : QuantumInv sz c s :=
    exec_invariant (fun s a s' h ha hstep => h.step hr hc.ne ha hstep)
      (QuantumInv.boot sz idleStack c cfg objs mem) hclean hrun
  constructor
  · rintro pre oldSp rfl
    obtain ⟨s₀, -, hstep⟩ := exec_concat.mp hrun
    obtain ⟨-, -, rfl⟩ := step_pendsv hstep
    refine h.pos ?_ hcfg
    obtain ⟨sp, rq, cur, e, heq⟩ := hrtSchedule_frame sz oldSp { s₀.k with pend := false }
    rw [heq]
  · intro stay q hexec hstay
    have hcount := exec_countP_le
      (I := fun q : Sys × Bool => q.1.k.current = some c →
        QuantumInv sz c q.1 ∧ 0 < (q.1.k.tcbs c).timesliceCfg)
      (fun q a q' hinv hP hstep => ticksLeft_step hr hc hinv hP hstep)
      (fun _ => ⟨h, hcfg⟩) hstay hexec
    refine hcount.trans ?_
    rw [ticksLeft]
    split_ifs
    · exact Nat.zero_le _
    · exact hcfg
    · exact h.le
    · exact Nat.zero_le _

/-- Two tasks of one priority, each with a quantum of `n` ticks, and the first switch. -/
def twoTasks (n : ℕ) : List Action :=
  [.main (.createTask ⟨1, 0, 0x20001000, 64, some ⟨1, n⟩⟩),
    .main (.createTask ⟨1, 0, 0x20002000, 64, some ⟨1, n⟩⟩), .start, .pendsv 0]

/-- The first task sleeps for a tick, the second one runs meanwhile and is about to run again. -/
def secondDispatch : List Action :=
  twoTasks 2 ++ [.task (.sleep 1), .task .yield, .pendsv 0x20001000, .tick, .pendsv 0x20002000,
    .task .yield]

/-- The second dispatch of the second task: one tick of its quantum is left, and after that tick it is
switched out. -/
theorem roundRobin_quantum_second :
    ∃ s, exec (step .default 0x20000000) board (secondDispatch ++ [.pendsv 0x20001000]) = some s ∧
      s.k.current = some 1 ∧ 1 ≤ (s.k.tcbs 1).sliceLeft ∧
      [Action.tick, .pendsv 0x20002000].count .tick ≤ (s.k.tcbs 1).timesliceCfg := by
  have heval : ((exec (step .default 0x20000000) board (secondDispatch ++ [.pendsv 0x20001000])).map
      fun s => (s.k.current, (s.k.tcbs 1).timesliceCfg,
        (exec (servedStep .default 0x20000000) (s, false) [.tick, .pendsv 0x20002000]).isSome,
        decide (Along (servedStep .default 0x20000000)
          (fun q a => Undisturbed .default 1 q.1 a ∧ LeavesUnqueued .default 1 q.1 a) (s, false)
          [.tick, .pendsv 0x20002000]))) = some (some 1, 2, true, true) := by
    decide +kernel
  obtain ⟨s, hs, hv⟩ := Option.map_eq_some_iff.mp heval
  obtain ⟨hcur, hcfg, hsome, hstay⟩ := by simpa only [Prod.mk.injEq, decide_eq_true_eq] using hv
  obtain ⟨q, hq⟩ := Option.isSome_iff_exists.mp hsome
  obtain ⟨hleft, hticks⟩ := roundRobin_quantum (c := 1) (by decide) (by decide) hs
    (by decide +kernel) (by rw [hcfg]; decide)
  exact ⟨s, hs, hcur, hleft _ _ rfl, hticks _ q hq hstay⟩

/-- Each of the two tasks uses up a quantum of one tick and is switched out. -/
def expiredRun : List Action :=
  twoTasks 1 ++ [.tick, .pendsv 0x20001000, .tick, .pendsv 0x20002000]

/-- **A quantum is not refilled by a switch.** Every switch is served before the next tick; the second
dispatch of the first task finds nothing left of its quantum of one tick, and the task sees two more
ticks, undisturbed, although the second task is waiting in the ready queue. -/
theorem quantum_not_refilled :
    ∃ s q, exec (servedStep .default 0x20000000) (board, false) expiredRun = some (s, false) ∧
      s.k.current = some 0 ∧ (s.k.tcbs 0).timesliceCfg = 1 ∧ (s.k.tcbs 0).sliceLeft = 0 ∧
      exec (servedStep .default 0x20000000) (s, false) [.tick, .tick] = some q ∧
      Along (servedStep .default 0x20000000) (fun q a => Undisturbed .default 0 q.1 a) (s, false)
        [.tick, .tick] ∧
      q.1.k.current = some 0 ∧ (s.k.tcbs 0).timesliceCfg < [Action.tick, .tick].count .tick := by
  have heval : ((exec (servedStep .default 0x20000000) (board, false) expiredRun).map fun p =>
      (p.2, p.1.k.current, (p.1.k.tcbs 0).timesliceCfg, (p.1.k.tcbs 0).sliceLeft,
        decide (((exec (servedStep .default 0x20000000) p [.tick, .tick]).map
            fun q => q.1.k.current) = some (some 0) ∧
          Along (servedStep .default 0x20000000) (fun q a => Undisturbed .default 0 q.1 a) p
            [.tick, .tick]))) = some (false, some 0, 1, 0, true) := by
    decide +kernel
  obtain ⟨⟨s, w⟩, hs, hv⟩ := Option.map_eq_some_iff.mp heval
  obtain ⟨rfl, hcur, hcfg, hleft, hstay, halong⟩ := by
    simpa only [Prod.mk.injEq, decide_eq_true_eq] using hv
  obtain ⟨q, hq, hcur'⟩ := Option.map_eq_some_iff.mp hstay
  exact ⟨s, q, hs, hcur, hcfg, hleft, hq, halong, hcur', by rw [hcfg]; decide⟩

end Results

end CortexM

end HardRT
