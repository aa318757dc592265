import HardRT.CortexM.System
import HardRT.System.ReadyOrder

/-! # Cooperative tasks on Cortex-M

A task without a time slice is meant to keep its turn within its class until it gives it up. On this
port every switch goes through `hrt__schedule`, which appends the outgoing task to its ready queue and
then takes the head of that queue: whatever the reason of the switch, a peer that is already queued goes
first.

* `peer_takes_over` — a tick that wakes a peer takes the CPU from a cooperative task.
* `TurnClean` — the steps in which a switch out of the task finds no peer queued, and the queues above
  its class hold ready tasks of their own priority.
* `turn_kept` — along such steps only tasks of higher priority are switched to before the task
  itself. -/

namespace HardRT

open Lib

namespace CortexM

/-! ## The side condition -/

/-- **The clean steps** of a stretch in which task `c` makes no call: when `hrt__schedule` runs out of
`c`, nobody else is queued in its class; and the queues above its class hold ready tasks of their own
priority. -/
def TurnClean (sz : Sizing) (c : ℕ) (s : Sys) : Action → Prop
  | .task _ => s.k.current ≠ some c
  | .pendsv _ =>
      (s.k.current = some c → ∀ id ∈ s.k.readyList sz (s.k.tcbs c).prio, id = c) ∧
      ∀ p < (s.k.tcbs c).prio, ∀ id ∈ s.k.readyList sz p,
        s.k.stateOf id = .ready ∧ (s.k.tcbs id).prio = p
  | _ => True

instance (sz : Sizing) (c : ℕ) (s : Sys) : DecidablePred (TurnClean sz c s)
  | .task _ => inferInstanceAs (Decidable (_ ≠ _))
  | .pendsv _ => inferInstanceAs (Decidable (_ ∧ _))
  | .main _ | .start | .isr _ | .tick => instDecidableTrue

/-! ## The invariant -/

/-- **Task `c` of priority `p` has the turn in its class**: it is ready, and it is current or at the
head of its ready queue. -/
structure Turn (sz : Sizing) (s : Sys) (c p : ℕ) : Prop where
  ids : IdsInv sz s
  started : s.k.current ≠ none
  ready : s.k.stateOf c = .ready
  prio : (s.k.tcbs c).prio = p
  turn : s.k.current = some c ∨ (s.k.readyList sz p).head? = some c

section Turn

variable {sz : Sizing} {idleStack : ℕ} {s s' : Sys} {c p : ℕ}

/-- A step that switches nobody appends to the queues, and leaves `c` ready. -/
theorem Turn.append (h : Turn sz s c p) (hp : p < sz.maxPrio) (hids : IdsInv sz s')
    (hcur : s'.k.current = s.k.current) {l : List (ℕ × ℕ)} (happ : Appends sz s.k s'.k l)
    (hst : s'.k.stateOf c = .ready) (hprio : (s'.k.tcbs c).prio = (s.k.tcbs c).prio) :
    Turn sz s' c p := by
  refine ⟨hids, hcur ▸ h.started, hst, hprio.trans h.prio, ?_⟩
  rw [hcur]
  exact h.turn.imp_right (happ.head? hp)

/-- **The queue of the class before the pick** has `c` at its head: `c` was there already, or it is the
outgoing task and nobody else is queued. -/
theorem Turn.saveOutgoing (h : Turn sz s c p) (hr : sz.Representable) (hp : p < sz.maxPrio) {oldSp : ℕ}
    (hzero : oldSp = 0 ↔ s.k.current = none)
    (halone : s.k.current = some c → ∀ id ∈ s.k.readyList sz p, id = c) :
    ((saveOutgoing sz oldSp { s.k with pend := false }).readyList sz p).head? = some c := by
  have hwf : ReadyWF sz { s.k with pend := false } := h.ids.known.ready.wf
  obtain ⟨t, ht⟩ := Option.ne_none_iff_exists'.mp h.started
  have hone := AppendsOne.saveOutgoing hwf hr oldSp (fun hst => h.ids.known.ready_lt hst) ht
  rcases h.turn with hc | hhead
  · obtain rfl : t = c := Option.some.inj (ht.symm.trans hc)
    -- the outgoing task is pushed, or the queue is full of its own entries
    have hne : (HardRT.saveOutgoing sz oldSp { s.k with pend := false }).readyList sz p ≠ [] := by
      have h0 : oldSp ≠ 0 := fun h0 => h.started (hzero.mp h0)
      have hprio : (({ s.k with pend := false } : Kernel).tcbs t).prio = p := h.prio
      rw [saveOutgoing_of_ready (k := { s.k with pend := false }) h0 ht h.ready, hprio]
      exact readyList_push_ne_nil (fun q hq => by rw [setSp_rq]; exact hwf q hq) hr hp t
    have hall : ∀ id ∈ (HardRT.saveOutgoing sz oldSp { s.k with pend := false }).readyList sz p,
        id = t := by
      intro id hid
      rcases hone with happ | happ
      · rw [happ.lists p hp, entriesAt_nil, List.append_nil] at hid
        exact halone hc id hid
      · rw [happ.lists p hp, entriesAt_cons, List.mem_append] at hid
        rcases hid with hid | hid
        · exact halone hc id hid
        · split_ifs at hid
          · simpa using hid
          · simp at hid
    obtain ⟨id, hid⟩ := Option.ne_none_iff_exists'.mp (mt List.head?_eq_none_iff.mp hne)
    rw [hid, hall id (List.mem_of_mem_head? hid)]
  · rcases hone with happ | happ
    · exact happ.head? hp hhead
    · exact happ.head? hp hhead

/-- **A switch**: `c` becomes current, or a ready task of higher priority does and `c` keeps its
turn. -/
theorem Turn.switch (h : Turn sz s c p) (hr : sz.Representable) (hp : p < sz.maxPrio) {oldSp : ℕ}
    (hclean : TurnClean sz c s (.pendsv oldSp))
    (hstep : step sz idleStack s (.pendsv oldSp) = some s') :
    Turn sz s' c p ∧ (s'.k.current = some c ∨
      ∃ u, s'.k.current = some u ∧ s'.k.stateOf u = .ready ∧ (s'.k.tcbs u).prio < p) := by
  have hids := h.ids.step hr hstep
  obtain ⟨-, hzero, rfl⟩ := step_pendsv hstep
  obtain ⟨halone, habove⟩ := hclean
  rw [h.prio] at halone habove
  have hwf : ReadyWF sz { s.k with pend := false } := h.ids.known.ready.wf
  have hhead := h.saveOutgoing hr hp hzero halone
  -- a switch changes no state and no priority
  obtain ⟨sp, rq, cur, e, hframe⟩ := hrtSchedule_frame sz oldSp { s.k with pend := false }
  have hst : ∀ j, (hrtSchedule sz oldSp { s.k with pend := false }).2.stateOf j = s.k.stateOf j :=
    fun j => by rw [hframe]; rfl
  have hprio : ∀ j, ((hrtSchedule sz oldSp { s.k with pend := false }).2.tcbs j).prio =
      (s.k.tcbs j).prio := fun j => by rw [hframe]
  have hsave := ReadyGrows.saveOutgoing hwf hr oldSp fun t _ hst => h.ids.known.ready_lt hst
  have hturn : ∀ u, (hrtSchedule sz oldSp { s.k with pend := false }).2.current = some u →
      (u = c ∨ ((hrtSchedule sz oldSp { s.k with pend := false }).2.readyList sz p).head? = some c) →
      Turn sz { s with k := (hrtSchedule sz oldSp { s.k with pend := false }).2 } c p := by
    intro u hu hor
    refine ⟨hids, fun hn => absurd (hu.symm.trans hn) (by simp), (hst c).trans h.ready,
      (hprio c).trans h.prio, hor.imp_left fun huc => ?_⟩
    exact huc ▸ hu
  rcases pickNextReady_spec hr hsave.wf with ⟨hempty, -⟩ | ⟨q, u, rest, hq, hpre, hl, heq⟩
  · rw [hempty p hp] at hhead
    exact absurd hhead (by simp)
  have hcur : (hrtSchedule sz oldSp { s.k with pend := false }).2.current = some u := by
    simp only [hrtSchedule, heq]
  rcases Nat.lt_trichotomy q p with hlt | rfl | hgt
  · -- somebody above the class is served
    have hentry : s.k.stateOf u = .ready ∧ (s.k.tcbs u).prio = q := by
      rcases hsave.mem q hq u (hl ▸ List.mem_cons_self) with hold | ⟨hready, hpr⟩
      · exact habove q hlt u hold
      · obtain ⟨sp', rq', e', hsf⟩ := saveOutgoing_frame sz oldSp { s.k with pend := false }
        rw [hsf] at hready hpr
        exact ⟨hready, hpr⟩
    refine ⟨hturn u hcur (Or.inr ?_), Or.inr ⟨u, hcur, (hst u).trans hentry.1, ?_⟩⟩
    · have hlist : (hrtSchedule sz oldSp { s.k with pend := false }).2.readyList sz p =
          (dropReady sz q (HardRT.saveOutgoing sz oldSp { s.k with pend := false })).readyList
            sz p := by
        simp only [hrtSchedule, heq]
        rfl
      rw [hlist, readyList_dropReady (hsave.wf q hq) hr hl, if_neg (Nat.ne_of_gt hlt)]
      exact hhead
    · exact (hprio u).trans_lt (hentry.2.trans_lt hlt)
  · obtain rfl : u = c := by
      rw [hl] at hhead
      exact Option.some.inj hhead
    exact ⟨hturn u hcur (Or.inl rfl), Or.inl hcur⟩
  · rw [hpre p hgt] at hhead
    exact absurd hhead (by simp)

/-- **Every clean step keeps the turn.** -/
theorem Turn.step (h : Turn sz s c p) (hr : sz.Representable) (hp : p < sz.maxPrio) {a : Action}
    (hclean : TurnClean sz c s a) (hstep : CortexM.step sz idleStack s a = some s') :
    Turn sz s' c p := by
  have hids := h.ids.step hr hstep
  cases a with
  | main call =>
      obtain ⟨hnone, -, -⟩ := step_main hstep
      exact absurd hnone h.started
  | start =>
      obtain ⟨hnone, -⟩ := step_start hstep
      exact absurd hnone h.started
  | task call =>
      obtain ⟨t, hcur, -, ⟨o, ho, rfl⟩ | ⟨x, hx, rfl⟩⟩ := step_task hstep
      · have hct : c ≠ t := fun hct => hclean (hct ▸ hcur)
        have hcont : s.conts t ≠ .none := by
          intro hn
          rw [hn] at ho
          exact absurd ho (by simp [nextAction])
        obtain ⟨l, happ⟩ := (h.ids.known.task_gains hr hcont (taskEffect ho)).exists
        obtain ⟨hst, hprio⟩ := ((taskEffect ho).tcb c).ready_of_ne hct h.ready
        exact h.append hp hids (taskEffect ho).current happ hst hprio
      · exact h.append hp hids rfl (.of_rq h.ids.known.ready.wf rfl) h.ready rfl
  | isr op =>
      obtain rfl := Option.some.inj hstep
      obtain ⟨l, happ⟩ := (h.ids.known.isr_gains hr op).exists
      exact h.append hp hids (isr_current sz s.k op) happ (isr_ready h.ready)
        (isr_config sz s.k op c).1
  | tick =>
      obtain rfl := Option.some.inj hstep
      obtain ⟨l, happ⟩ := Appends.tick h.ids.known.ready.wf hr
      exact h.append hp hids (hrtTickIsr_frame sz s.k).1 happ (hrtTickIsr_ready h.ready)
        (hrtTickIsr_config sz s.k c).2.1
  | pendsv oldSp => exact (h.switch hr hp hclean hstep).1

/-- **A cooperative task keeps its turn.** Let `c` be current and ready in a reachable state, and let
the system go on with `c` making no call, along clean steps. Then every switch makes `c` current again
or makes a ready task of strictly higher priority current; so `c` is switched to whenever no such task
is ready, and before any peer. -/
theorem turn_kept {cfg : Option KernelConfig} {objs : ObjectSpecs} {mem : Kernel}
    (hr : sz.Representable) {as : List Action}
    (hrun : exec (CortexM.step sz idleStack) (boot sz idleStack cfg objs mem) as = some s)
    (hcur : s.k.current = some c) (hst : s.k.stateOf c = .ready)
    (hp : (s.k.tcbs c).prio < sz.maxPrio) {bs : List Action} {m : Sys}
    (hrun' : exec (CortexM.step sz idleStack) s bs = some m)
    (hclean : Along (CortexM.step sz idleStack) (TurnClean sz c) s bs) {oldSp : ℕ}
    (hclean' : TurnClean sz c m (.pendsv oldSp))
    (hsw : CortexM.step sz idleStack m (.pendsv oldSp) = some s') :
    (s'.k.current = some c ∨ ∃ u, s'.k.current = some u ∧ s'.k.stateOf u = .ready ∧
      (s'.k.tcbs u).prio < (s.k.tcbs c).prio) ∧
    ((∀ u, s'.k.stateOf u = .ready → (s.k.tcbs c).prio ≤ (s'.k.tcbs u).prio) →
      s'.k.current = some c) := by
  have hids : IdsInv sz s := exec_invariant' (fun _ _ _ h hstep => h.step hr hstep)
    (IdsInv.boot sz idleStack cfg objs mem) hrun
  have hturn : Turn sz m c (s.k.tcbs c).prio :=
    exec_invariant (I := fun m => Turn sz m c (s.k.tcbs c).prio)
      (fun _ _ _ h ha hstep => h.step hr hp ha hstep)
      ⟨hids, by rw [hcur]; simp, hst, rfl, Or.inl hcur⟩ hclean hrun'
  have hnext := (hturn.switch hr hp hclean' hsw).2
  refine ⟨hnext, fun hnone => hnext.resolve_right ?_⟩
  rintro ⟨u, -, hu, hlt⟩
  exact absurd (hnone u hu) (Nat.not_le.mpr hlt)

end Turn

/-! ## Runs -/

/-- A task of priority 0 and a cooperative one of priority 1; the first goes to sleep. -/
def aboveAsleep : List Action :=
  [.main (.createTask ⟨1, 0, 0x20001000, 64, some ⟨0, 0⟩⟩),
    .main (.createTask ⟨1, 0, 0x20002000, 64, some ⟨1, 0⟩⟩), .start, .pendsv 0, .task (.sleep 1),
    .task .yield, .pendsv 0x20001080]

/-- The sleeper wakes, preempts, and goes to sleep again. -/
def aboveAwake : List Action :=
  [.tick, .pendsv 0x20002080, .task .yield, .pendsv 0x20001080, .task .yield, .task (.sleep 1),
    .task .yield]

/-- After the preemption the cooperative task is current again. -/
theorem turn_kept_preempted :
    ∃ s m s', exec (CortexM.step .default 0x20000000) board aboveAsleep = some s ∧
      s.k.current = some 1 ∧
      exec (CortexM.step .default 0x20000000) s aboveAwake = some m ∧ m.k.current = some 0 ∧
      CortexM.step .default 0x20000000 m (.pendsv 0x20001080) = some s' ∧
      (s'.k.current = some 1 ∨ ∃ u, s'.k.current = some u ∧ s'.k.stateOf u = .ready ∧
        (s'.k.tcbs u).prio < (s.k.tcbs 1).prio) := by
  have hr : Sizing.default.Representable := by decide
  have heval : ((exec (CortexM.step .default 0x20000000) board aboveAsleep).map fun s =>
      (decide (s.k.current = some 1 ∧ s.k.stateOf 1 = .ready ∧
          (s.k.tcbs 1).prio < Sizing.default.maxPrio ∧
          Along (CortexM.step .default 0x20000000) (TurnClean .default 1) s aboveAwake),
        (exec (CortexM.step .default 0x20000000) s aboveAwake).map fun m =>
          (decide (m.k.current = some 0 ∧ TurnClean .default 1 m (.pendsv 0x20001080)),
            (CortexM.step .default 0x20000000 m (.pendsv 0x20001080)).isSome))) =
      some (true, some (true, true)) := by
    decide +kernel
  obtain ⟨s, hs, hv⟩ := Option.map_eq_some_iff.mp heval
  obtain ⟨h1, h2⟩ := Prod.mk.inj hv
  obtain ⟨m, hm, h3⟩ := Option.map_eq_some_iff.mp h2
  obtain ⟨h4, h5⟩ := Prod.mk.inj h3
  obtain ⟨hcur, hst, hp, hclean⟩ := of_decide_eq_true h1
  obtain ⟨hcur', hclean'⟩ := of_decide_eq_true h4
  obtain ⟨s', hs'⟩ := Option.isSome_iff_exists.mp h5
  exact ⟨s, m, s', hs, hcur, hm, hcur', hs', (turn_kept hr hs hcur hst hp hm hclean hclean' hs').1⟩

/-- Two cooperative tasks of priority 1; the first goes to sleep and the second runs. -/
def peerAsleep : List Action :=
  [.main (.createTask ⟨1, 0, 0x20001000, 64, some ⟨1, 0⟩⟩),
    .main (.createTask ⟨1, 0, 0x20002000, 64, some ⟨1, 0⟩⟩), .start, .pendsv 0, .task (.sleep 1),
    .task .yield, .pendsv 0x20001080]

/-- **A peer takes the CPU from a cooperative task.** Task 1 is running, ready and without a time slice;
a tick wakes task 0 of the same priority, and the switch that follows makes task 0 current. -/
theorem peer_takes_over :
    ∃ s s', exec (CortexM.step .default 0x20000000) board peerAsleep = some s ∧
      s.k.current = some 1 ∧ s.k.stateOf 1 = .ready ∧ (s.k.tcbs 1).timesliceCfg = 0 ∧
      exec (CortexM.step .default 0x20000000) s [.tick, .pendsv 0x20002080] = some s' ∧
      s'.k.current = some 0 ∧ s'.k.stateOf 1 = .ready ∧ (s'.k.tcbs 0).prio = (s'.k.tcbs 1).prio := by
  have heval : ((exec (CortexM.step .default 0x20000000) board peerAsleep).map fun s =>
      (decide (s.k.current = some 1 ∧ s.k.stateOf 1 = .ready ∧ (s.k.tcbs 1).timesliceCfg = 0),
        (exec (CortexM.step .default 0x20000000) s [.tick, .pendsv 0x20002080]).map fun s' =>
          decide (s'.k.current = some 0 ∧ s'.k.stateOf 1 = .ready ∧
            (s'.k.tcbs 0).prio = (s'.k.tcbs 1).prio))) = some (true, some true) := by
    decide +kernel
  obtain ⟨s, hs, hv⟩ := Option.map_eq_some_iff.mp heval
  obtain ⟨h1, h2⟩ := Prod.mk.inj hv
  obtain ⟨s', hs', h3⟩ := Option.map_eq_some_iff.mp h2
  obtain ⟨hcur, hst, hcfg⟩ := of_decide_eq_true h1
  obtain ⟨hcur', hst', hprio⟩ := of_decide_eq_true h3
  exact ⟨s, s', hs, hcur, hst, hcfg, hs', hcur', hst', hprio⟩

end CortexM

end HardRT
