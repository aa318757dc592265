import HardRT.Posix.Pieces
import HardRT.System.ReadyBooks

/-! # The ready set on POSIX

On this port a task that gives up the CPU is already where it belongs when it swaps back to the loop:
`hrt_yield` has queued it, and a task that sleeps, parks or exits is not ready. The one place that can
queue it again is `hrt__on_scheduler_entry`, which rotates a ready task whose quantum is used up. A tick
between the state change and the swap can use it up.

* `tick_queues_twice` — a tick inside `hrt_yield` leaves two entries for the caller.
* `ReadyClean` — creations are in order and no tick uses up the quantum of a task on its way out.
* `readySet_at_head` — along such steps of the machine in pieces, with interrupts inside an unprotected
  body that spare it, the ready queues hold exactly the ready tasks whenever the loop is at its head. -/

namespace HardRT

open Lib

namespace Posix

/-! ## The side condition -/

/-- The next tick uses up the quantum of task `t`: it has one tick left, or it is made ready by this
very tick with a quantum of one. -/
def tickExpires (k : Kernel) (t : ℕ) : Prop :=
  k.policy.sliced = true ∧
    ((k.stateOf t = .ready ∧ (k.tcbs t).sliceLeft = 1) ∨
      (wakesAt k ((k.tick + 1) % 2 ^ 32) t ∧ (k.tcbs t).timesliceCfg = 1))

instance (k : Kernel) (t : ℕ) : Decidable (tickExpires k t) :=
  inferInstanceAs (Decidable (_ ∧ _))

/-- **The clean steps.** Creations are in order, and no tick uses up the quantum of a current task that
has given up the CPU and not yet swapped away. -/
def ReadyClean (sz : Sizing) (s : State) : Action → Prop
  | .main (.createTask a) => CreateOk sz s.sys.k a
  | .task c => ∀ t ∈ s.sys.k.current,
      s.sys.conts t = .user → ∀ a ∈ c.creates, CreateOk sz s.sys.k a
  | .tick _ => ∀ t ∈ s.sys.k.current, (s.sys.conts t).leaving = true → ¬ tickExpires s.sys.k t
  | _ => True

instance (sz : Sizing) (s : State) : DecidablePred (ReadyClean sz s)
  | .main (.createTask a) => inferInstanceAs (Decidable (CreateOk sz s.sys.k a))
  | .task _ | .tick _ => inferInstanceAs (Decidable (∀ _ ∈ _, _))
  | .main (.setPolicy _) | .main (.setDefaultTimeslice _) | .start | .loop | .finish | .isr _ =>
      instDecidableTrue

/-! ## One action of the task on the CPU -/

section Actions

variable {sz : Sizing} {port : Port} {k : Kernel} {t : ℕ} {call : Call} {c : Cont} {o : Outcome}

/-- What an action of the task on the CPU leaves: the books, without the task once it is on its way
out; a task that keeps the CPU is ready; and one that leaves while ready has a full quantum. -/
structure Leaves (sz : Sizing) (t : ℕ) (o : Outcome) : Prop where
  books : ReadyBooks sz o.k fun id => id = t ∧ o.cont.leaving = false
  ready : o.cont.leaving = false → o.k.stateOf t = .ready
  full : o.cont.leaving = true → o.k.stateOf t = .ready →
    (o.k.tcbs t).sliceLeft = (o.k.tcbs t).timesliceCfg

/-- The action keeps the CPU. -/
theorem Leaves.stays {k' : Kernel} {c' : Cont} {evs : List Event} {new : Option ℕ}
    (hb : ReadyBooks sz k' fun id => id = t) (hc : c'.leaving = false) (hst : k'.stateOf t = .ready) :
    Leaves sz t ⟨k', c', evs, new⟩ := by
  refine ⟨hb.congr fun id _ => ?_, fun _ => hst, fun hl => absurd (hl.symm.trans hc) (by simp)⟩
  simp [hc]

/-- The action takes the task off the ready ones. -/
theorem Leaves.gone {k' : Kernel} {a : After} {evs : List Event} {new : Option ℕ}
    (hb : ReadyBooks sz k' fun id => id = t) (hst : k'.stateOf t ≠ .ready) :
    Leaves sz t ⟨k', .pend a, evs, new⟩ := by
  refine ⟨hb.congr fun id hid => ?_, fun hl => ?_, fun _ hr => absurd hr hst⟩
  · refine iff_of_false (fun heq => hst (heq ▸ hid)) ?_
    simp [Cont.leaving]
  · exact absurd hl (by simp [Cont.leaving])

/-- **The body of `hrt_yield`** queues the ready caller, with a full quantum. -/
theorem Leaves.yieldBody {a : After} {evs : List Event} (h : ReadyBooks sz k fun id => id = t)
    (hr : sz.Representable) (hst : k.stateOf t = .ready) :
    Leaves sz t ⟨hrtYieldBody sz t k, .pend a, evs, none⟩ := by
  have hused : k.stateOf t ≠ .unused := by rw [hst]; simp
  have hset : ReadyBooks sz (k.modifyTcb t fun b => { b with sliceLeft := b.timesliceCfg })
      fun id => id = t := h.modify rfl hused rfl
  have hst' : (k.modifyTcb t fun b => { b with sliceLeft := b.timesliceCfg }).stateOf t = .ready := by
    simpa [Kernel.stateOf, Kernel.modifyTcb] using hst
  have hpush := hset.requeue hr hst' rfl
  have heq : hrtYieldBody sz t k =
      rqPush sz ((k.modifyTcb t fun b => { b with sliceLeft := b.timesliceCfg }).tcbs t).prio t
        (k.modifyTcb t fun b => { b with sliceLeft := b.timesliceCfg }) := by
    simp only [hrtYieldBody, if_pos hst]
  refine ⟨?_, fun hl => absurd hl (by simp [Cont.leaving]), fun _ _ => ?_⟩
  · show ReadyBooks sz (hrtYieldBody sz t k) _
    rw [heq]
    exact hpush.congr fun id _ => by simp [Cont.leaving]
  · show ((hrtYieldBody sz t k).tcbs t).sliceLeft = ((hrtYieldBody sz t k).tcbs t).timesliceCfg
    rw [heq, rqPush_tcbs]
    simp [Kernel.modifyTcb]

/-- The one action on the way out is the request. -/
theorem pend_of_leaving (hl : c.leaving = true) (ho : nextAction sz port t call k c = some o) :
    ∃ a, c = .pend a := by
  cases c with
  | pend a => exact ⟨a, rfl⟩
  | hop a => exact absurd ho (by simp [nextAction])
  | _ => exact absurd hl (by simp [Cont.leaving])

/-- **Every action of a ready task on the CPU.** -/
theorem action_leaves (h : ReadyBooks sz k fun id => id = t) (hr : sz.Representable)
    (hpart : BlockedPartition sz k) (hst : k.stateOf t = .ready) (hc : c.leaving = false)
    (hcreate : c = .user → ∀ a ∈ call.creates, CreateOk sz k a)
    (heff : TaskEffect sz port t k call c o) : Leaves sz t o := by
  have hused : k.stateOf t ≠ .unused := by rw [hst]; simp
  have hwake : ∀ {w : WaitQ} {id : ℕ} {k' : Kernel} {c' : Cont} {evs : List Event},
      Wakes sz w id k k' → c'.leaving = false → Leaves sz t ⟨k', c', evs, none⟩ := by
    intro w id k' c' evs hw hc'
    obtain ⟨hb, hst'⟩ := h.wake_other (fun _ hid => hid) hst hr hpart hw
    exact .stays hb hc' hst'
  cases heff with
  | @quiet _ c' k' evs hq _ hc' =>
      refine .stays (h.same hq.same) ?_ ((hq.same.stateOf t).trans hst)
      rcases hc' with rfl | ⟨hre, -⟩
      · rfl
      · cases c' <;> first | rfl | exact absurd hre (by simp [Cont.rechecks])
  | request => exact absurd hc (by simp [Cont.leaving])
  | yield _ => exact .yieldBody h hr hst
  | @sleep ms evs =>
      exact .gone (h.sleep rfl hused ms) (by simp [hrtSleepBody_eq])
  | delete _ _ => exact .gone (h.delete rfl hused) (by simp [hrtTaskDeleteBody])
  | park _ hp =>
      refine .gone (h.park rfl hused hp) ?_
      rw [hp.stateOf, if_pos rfl]
      simp
  | wake _ _ hw => exact hwake hw rfl
  | wakeOnRecheck _ hw => exact hwake hw rfl
  | @create a evs hca =>
      subst hca
      obtain ⟨hb, hst'⟩ := h.create_other (fun _ hid => hid) hst hr port (hcreate rfl a rfl)
      exact .stays hb rfl hst'
  | policy _ => exact .stays (h.of_eq rfl (fun _ => rfl) fun _ => rfl) rfl hst

end Actions

/-! ## The invariant -/

/-- Task `id` is on the CPU and has not given it up. -/
def OnCpu (s : State) (id : ℕ) : Prop :=
  s.mode = .running ∧ s.sys.k.current = some id ∧ (s.sys.conts id).leaving = false

/-- **The ready-set invariant**: the books are in order with the task on the CPU left out; the idle slot
is nobody's; the task on the CPU is ready; and a task on its way out is the current one and, if it is
ready again, has some of its quantum left. -/
structure ReadyInv (sz : Sizing) (s : State) : Prop where
  books : ReadyBooks sz s.sys.k (OnCpu s)
  idle : s.sys.k.stateOf sz.idleId = .unused
  idleCont : s.sys.conts sz.idleId = .none
  ready : ∀ t, OnCpu s t → s.sys.k.stateOf t = .ready
  out : ∀ t, (s.sys.conts t).leaving = true → s.mode = .running ∧ s.sys.k.current = some t ∧
    (s.sys.k.stateOf t = .ready → 0 < (s.sys.k.tcbs t).timesliceCfg → 0 < (s.sys.k.tcbs t).sliceLeft)

section Invariant

variable {sz : Sizing} {s s' : State}

/-- Under the invariant only live tasks run. -/
theorem ReadyInv.runsLive (h : ReadyInv sz s) : RunsLive s := by
  intro t hm hcur hcont
  have hl : (s.sys.conts t).leaving = false := by
    rcases hcont with hc | ⟨a, hc⟩ <;> rw [hc] <;> rfl
  rw [h.ready t ⟨hm, hcur, hl⟩]
  simp

/-- Under the invariant no deleted task runs. -/
theorem ReadyInv.livesOn (h : ReadyInv sz s) {t : ℕ} {c : Call} (hm : s.mode = .running)
    (hcur : s.sys.k.current = some t) : LivesOn s.sys (.task t c) := by
  by_cases hl : (s.sys.conts t).leaving = true
  · exact Or.inl hl
  · exact Or.inr (by rw [h.ready t ⟨hm, hcur, Bool.eq_false_of_not_eq_true hl⟩]; simp)

/-- A step that leaves the control blocks, the ready queues and who is on the CPU alone. -/
theorem ReadyInv.of_sched (h : ReadyInv sz s) (hconts : s'.sys.conts = s.sys.conts)
    (htcbs : s'.sys.k.tcbs = s.sys.k.tcbs) (hrq : s'.sys.k.rq = s.sys.k.rq)
    (hcur : s'.sys.k.current = s.sys.k.current)
    (hm : s'.mode = .running ↔ s.mode = .running) : ReadyInv sz s' := by
  have hst : ∀ j, s'.sys.k.stateOf j = s.sys.k.stateOf j := fun j => by
    rw [Kernel.stateOf, htcbs]
    rfl
  have hon : ∀ id, OnCpu s' id ↔ OnCpu s id := fun id => by
    rw [OnCpu, OnCpu, hconts, hcur, hm]
  refine ⟨?_, (hst _).trans h.idle, hconts ▸ h.idleCont, fun t ht => ?_, fun t ht => ?_⟩
  · exact (h.books.of_eq hrq hst fun j => by rw [htcbs]).congr fun id _ => (hon id).symm
  · exact (hst t).trans (h.ready t ((hon t).mp ht))
  · rw [hconts] at ht
    obtain ⟨h1, h2, h3⟩ := h.out t ht
    rw [hst, htcbs, hcur]
    exact ⟨hm.mpr h1, h2, h3⟩

/-- **A creation by `main`**: nobody is on the CPU. -/
theorem ReadyInv.main (h : ReadyInv sz s) (hr : sz.Representable) (hm : s.mode = .boot) {c : MainCall}
    (hclean : ReadyClean sz s (.main c)) :
    ReadyInv sz { s with sys := s.sys.main sz .posix c } := by
  cases c with
  | setPolicy p => exact h.of_sched rfl rfl rfl rfl Iff.rfl
  | setDefaultTimeslice n => exact h.of_sched rfl rfl rfl rfl Iff.rfl
  | createTask a =>
      have hok : CreateOk sz s.sys.k a := hclean
      have hnrun : ¬ s.mode = .running := by rw [hm]; simp
      have hnidle := hok.1.create_ne .posix
      refine ⟨?_, ?_, ?_, fun t ht => absurd ht.1 hnrun, fun t ht => ?_⟩
      · refine (h.books.create hr .posix hok fun id _ hon => hnrun hon.1).congr fun id _ => ?_
        exact iff_of_false (fun hon => hnrun hon.1) fun hon => hnrun hon.1
      · show (hrtCreateTask sz .posix a s.sys.k).2.stateOf _ = _
        rw [hrtCreateTask_stateOf, if_neg hnidle]
        exact h.idle
      · show s.sys.spawned (hrtCreateTask sz .posix a s.sys.k).1 sz.idleId = .none
        exact Sys.spawned_eq_none.mpr ⟨h.idleCont, hnidle⟩
      · exact absurd (h.out t (Sys.spawned_leaving ht)).1 hnrun

/-- **An action of the running task.** -/
theorem ReadyInv.task (h : ReadyInv sz s) (hr : sz.Representable) (hinv : PartInv sz s.sys) {t : ℕ}
    (hm : s.mode = .running) (hcur : s.sys.k.current = some t) {c : Call}
    (hclean : ReadyClean sz s (.task c)) {o : Outcome}
    (ho : nextAction sz .posix t c s.sys.k (s.sys.conts t) = some o) :
    ReadyInv sz ⟨s.sys.apply t o, .running⟩ := by
  have heff := taskEffect ho
  have hne : t ≠ sz.idleId := by
    rintro rfl
    rw [h.idleCont] at ho
    exact absurd ho (by simp [nextAction])
  have hk : o.k.current = some t := heff.current.trans hcur
  -- nobody else is on its way out
  have hothers : ∀ u, u ≠ t → (s.sys.spawned o.spawn u).leaving = false := by
    intro u hu
    by_contra hl
    have hl' := Sys.spawned_leaving (Bool.eq_true_of_not_eq_false hl)
    exact hu (Option.some.inj ((h.out u hl').2.1.symm.trans hcur))
  have hspawn : o.spawn ≠ some sz.idleId := by
    intro hid
    obtain ⟨a, hu, rfl, hnew⟩ := heff.spawn_eq hid
    exact (hclean t hcur hu a rfl).1.create_ne _ hnew
  have hidle : o.k.stateOf sz.idleId = .unused :=
    hinv.part.task_unused hr heff (Ne.symm hne) h.idle hspawn
  have hidleCont : (s.sys.apply t o).conts sz.idleId = .none := by
    rw [Sys.apply_conts_of_ne s.sys (Ne.symm hne)]
    exact Sys.spawned_eq_none.mpr ⟨h.idleCont, hspawn⟩
  have hon : ∀ id, OnCpu ⟨s.sys.apply t o, .running⟩ id ↔ id = t ∧ o.cont.leaving = false := by
    intro id
    show _ ∧ o.k.current = some id ∧ _ ↔ _
    rw [hk]
    constructor
    · rintro ⟨-, hid, hl⟩
      obtain rfl : t = id := Option.some.inj hid
      rw [Sys.apply_conts_self] at hl
      exact ⟨rfl, hl⟩
    · rintro ⟨rfl, hl⟩
      rw [Sys.apply_conts_self]
      exact ⟨rfl, rfl, hl⟩
  -- only the acting task can be on its way out
  have hself : ∀ u, ((s.sys.apply t o).conts u).leaving = true → u = t ∧ o.cont.leaving = true := by
    intro u hl
    by_cases hu : u = t
    · rw [hu, Sys.apply_conts_self] at hl
      exact ⟨hu, hl⟩
    · rw [Sys.apply_conts_of_ne s.sys hu] at hl
      exact absurd (hl.symm.trans (hothers u hu)) (by simp)
  cases hl : (s.sys.conts t).leaving with
  | true =>
      -- the request on the way out: neither control blocks nor queues change
      obtain ⟨a, ha⟩ := pend_of_leaving hl ho
      rw [ha] at ho
      obtain rfl := Option.some.inj ho
      have hbooks : ReadyBooks sz s.sys.k.hrtPendContextSwitch (OnCpu s) :=
        h.books.of_eq rfl (fun _ => rfl) fun _ => rfl
      refine ⟨?_, hidle, hidleCont, fun u hu => ?_, fun u hu => ?_⟩
      · refine hbooks.congr fun id _ => ?_
        rw [hon]
        refine iff_of_false (fun hrun => ?_) fun hrun => absurd hrun.2 (by simp [Cont.leaving])
        obtain rfl : t = id := Option.some.inj (hcur.symm.trans hrun.2.1)
        exact absurd (hl.symm.trans hrun.2.2) (by simp)
      · exact absurd ((hon u).mp hu).2 (by simp [Cont.leaving])
      · obtain ⟨rfl, -⟩ := hself u hu
        exact ⟨rfl, hk, (h.out u hl).2.2⟩
  | false =>
      have hst := h.ready t ⟨hm, hcur, hl⟩
      have hbooks : ReadyBooks sz s.sys.k fun id => id = t := by
        refine h.books.congr fun id _ => ?_
        constructor
        · rintro ⟨-, hid, -⟩
          exact Option.some.inj (hid.symm.trans hcur)
        · rintro rfl
          exact ⟨hm, hcur, hl⟩
      have hleaves := action_leaves hbooks hr hinv.part hst hl
        (hclean t hcur) heff
      refine ⟨hleaves.books.congr fun id _ => (hon id).symm, hidle, hidleCont, fun u hu => ?_,
        fun u hu => ?_⟩
      · obtain ⟨rfl, hl'⟩ := (hon u).mp hu
        exact hleaves.ready hl'
      · obtain ⟨rfl, hl'⟩ := hself u hu
        refine ⟨rfl, hk, fun hready hpos => ?_⟩
        show 0 < (o.k.tcbs u).sliceLeft
        rw [hleaves.full hl' hready]
        exact hpos

/-- On the return to the loop `hrt__on_scheduler_entry` finds some quantum left and does nothing. -/
theorem ReadyInv.entry_eq (h : ReadyInv sz s) {t : ℕ} (hcur : s.sys.k.current = some t) {a : After}
    (ha : s.sys.conts t = .hop a) : hrtOnSchedulerEntry sz s.sys.k = s.sys.k := by
  rw [hrtOnSchedulerEntry, hcur]
  refine if_neg fun hcond => ?_
  obtain ⟨hst, -, hcfg, hleft⟩ := hcond
  exact absurd hleft ((h.out t (by rw [ha]; rfl)).2.2 hst hcfg).ne'

/-- **The return to the loop.** -/
theorem ReadyInv.hop (h : ReadyInv sz s) {t : ℕ} (hcur : s.sys.k.current = some t) {a : After}
    (ha : s.sys.conts t = .hop a) :
    ReadyInv sz ⟨{ s.sys.land t a with k := hrtOnSchedulerEntry sz s.sys.k }, .head⟩ := by
  have hl : (s.sys.conts t).leaving = true := by rw [ha]; rfl
  have hnot : ∀ id, ¬ OnCpu s id := by
    rintro id ⟨-, hid, hl'⟩
    obtain rfl : t = id := Option.some.inj (hcur.symm.trans hid)
    exact absurd (hl.symm.trans hl') (by simp)
  rw [h.entry_eq hcur ha]
  refine ⟨h.books.congr fun id _ => iff_of_false (hnot id) fun hon => absurd hon.1 (by simp), h.idle,
    ?_, fun u hu => absurd hu.1 (by simp), fun u hu => ?_⟩
  · have hne : sz.idleId ≠ t := by
      rintro rfl
      rw [h.idleCont] at ha
      exact absurd ha (by simp)
    exact (Sys.land_conts_of_ne s.sys hne a).trans h.idleCont
  · have hu' : ((s.sys.land t a).conts u).leaving = true := hu
    by_cases hut : u = t
    · rw [hut, Sys.land_conts_self] at hu'
      exact absurd hu' (by simp [Cont.leaving])
    · rw [Sys.land_conts_of_ne s.sys hut] at hu'
      exact absurd (Option.some.inj ((h.out u hu').2.1.symm.trans hcur)) hut

/-- **The swap to a task**: the pick takes a ready task off the queues, or finds them empty. -/
theorem ReadyInv.loop (h : ReadyInv sz s) (hr : sz.Representable)
    (hstep : Posix.step sz s .loop = some s') : ReadyInv sz s' := by
  -- no task is on the CPU or on its way out while the loop runs
  have hnot : s.mode ≠ .running → ∀ id, ¬ OnCpu s id := fun hm id hon => hm hon.1
  have hin : s.mode ≠ .running → ∀ id, (s.sys.conts id).leaving = false := fun hm id =>
    Bool.eq_false_of_not_eq_true fun hl => hm (h.out id hl).1
  rcases step_loop hstep with ⟨-, -, rfl⟩ | ⟨hm, rfl⟩ | ⟨hm, hidle, rfl⟩ | ⟨hm, hne, rfl⟩
  · exact h
  · exact h.of_sched rfl rfl rfl rfl (by simp [hm])
  · have hm' : s.mode ≠ .running := by rw [hm]; simp
    have hbooks : ReadyBooks sz s.sys.k fun _ => False :=
      h.books.congr fun id _ => iff_of_false (hnot hm' id) not_false
    rcases hbooks.pick hr with ⟨-, heq⟩ | ⟨id, hid, hfst, -⟩
    · rw [heq]
      exact h.of_sched rfl rfl rfl rfl (by simp [hm])
    · -- a ready task is not the idle slot, so the loop throws nobody away
      rw [← hfst, hidle, h.idle] at hid
      exact absurd hid.1 (by simp)
  · have hm' : s.mode ≠ .running := by rw [hm]; simp
    have hbooks : ReadyBooks sz s.sys.k fun _ => False :=
      h.books.congr fun id _ => iff_of_false (hnot hm' id) not_false
    have hst : ∀ j, (hrtPickNextReady sz s.sys.k).2.stateOf j = s.sys.k.stateOf j :=
      fun j => Interleave.SchedOp.run_stateOf sz s.sys.k .pick j
    rcases hbooks.pick hr with ⟨-, heq⟩ | ⟨id, hid, hfst, hpick⟩
    · rw [heq] at hne
      exact absurd rfl hne
    · have hon : ∀ j, OnCpu ⟨{ s.sys with k := { (hrtPickNextReady sz s.sys.k).2 with
          current := some (hrtPickNextReady sz s.sys.k).1 } }, .running⟩ j ↔ j = id := by
        intro j
        show _ ∧ some (hrtPickNextReady sz s.sys.k).1 = some j ∧ _ ↔ _
        rw [hfst]
        constructor
        · rintro ⟨-, hj, -⟩
          exact (Option.some.inj hj).symm
        · rintro rfl
          exact ⟨rfl, rfl, hin hm' j⟩
      have hswap : ReadyBooks sz { (hrtPickNextReady sz s.sys.k).2 with
          current := some (hrtPickNextReady sz s.sys.k).1 } fun j => j = id :=
        (hpick.congr fun j _ => or_iff_left not_false).of_eq rfl (fun _ => rfl) fun _ => rfl
      refine ⟨hswap.congr fun j _ => (hon j).symm, (hst _).trans h.idle, h.idleCont, fun t ht => ?_,
        fun t ht => ?_⟩
      · rw [(hon t).mp ht]
        exact (hst id).trans hid.1
      · exact absurd (ht.symm.trans (hin hm' t)) (by simp)

/-- **An ISR**: the task it wakes was blocked, so it is not on the CPU. -/
theorem ReadyInv.isr (h : ReadyInv sz s) (hr : sz.Representable) (hinv : PartInv sz s.sys) (op : Isr) :
    ReadyInv sz { s with sys := s.sys.isr sz op } := by
  have hcur := isr_current sz s.sys.k op
  have hon : ∀ id, OnCpu { s with sys := s.sys.isr sz op } id ↔ OnCpu s id := fun id => by
    show _ ∧ (isrAction sz s.sys.k op).2.1.current = some id ∧ _ ↔ _
    rw [hcur]
    rfl
  rcases isrEffect sz s.sys.k op with hq | ⟨id, k', hw, heq⟩
  · exact h.of_sched rfl hq.same.tcbs hq.same.rq hq.same.current Iff.rfl
  · have hb := hinv.part.blocked_of_wakes hr hw
    have hid : ¬ OnCpu s id := by
      intro hrun
      rw [h.ready id hrun] at hb
      exact absurd hb (by simp)
    have hbooks : ReadyBooks sz (isrAction sz s.sys.k op).2.1 (OnCpu s) := by
      rw [heq]
      exact (h.books.wake hr hw hb hid).of_eq rfl (fun _ => rfl) fun _ => rfl
    refine ⟨hbooks.congr fun j _ => (hon j).symm, hinv.part.isr_unused hr op h.idle, h.idleCont,
      fun t ht => ?_, fun t ht => ?_⟩
    · exact isr_ready (h.ready t ((hon t).mp ht))
    · obtain ⟨h1, h2, h3⟩ := h.out t ht
      refine ⟨h1, hcur.trans h2, fun hst hpos => ?_⟩
      have hst' : ((isrAction sz s.sys.k op).2.1.tcbs t).state = .ready := hst
      show 0 < ((isrAction sz s.sys.k op).2.1.tcbs t).sliceLeft
      have hpos' : 0 < ((isrAction sz s.sys.k op).2.1.tcbs t).timesliceCfg := hpos
      rcases isr_tcbs sz s.sys.k op t with hs | hs
      · rw [hs] at hst' hpos' ⊢
        exact h3 hst' hpos'
      · rw [hs] at hpos' ⊢
        exact hpos'

/-- **A tick** that does not use up the quantum of a task on its way out. -/
theorem ReadyInv.tick (h : ReadyInv sz s) (hr : sz.Representable) (alarm : Bool)
    (hclean : ReadyClean sz s (.tick alarm)) :
    ReadyInv sz { s with sys := { s.sys with k := tickHandler sz alarm s.sys.k } } := by
  have hcur := tickHandler_current sz alarm s.sys.k
  have htcbs := tickHandler_tcbs sz alarm s.sys.k
  have hon : ∀ id,
      OnCpu { s with sys := { s.sys with k := tickHandler sz alarm s.sys.k } } id ↔ OnCpu s id :=
    fun id => by
      show _ ∧ (tickHandler sz alarm s.sys.k).current = some id ∧ _ ↔ _
      rw [hcur]
      rfl
  have hbooks := h.books.tick hr fun id hrun hw =>
    absurd ((h.ready id hrun).symm.trans hw.1) (by simp)
  refine ⟨?_, ?_, h.idleCont, fun t ht => ?_, fun t ht => ?_⟩
  · refine (hbooks.of_eq (tickHandler_rq sz alarm s.sys.k) (tickHandler_stateOf sz alarm s.sys.k)
      fun j => by rw [htcbs]).congr fun j _ => (hon j).symm
  · exact (tickHandler_stateOf sz alarm s.sys.k _).trans
      ((hrtTickIsr_unused_iff sz s.sys.k _).mpr h.idle)
  · exact (tickHandler_stateOf sz alarm s.sys.k t).trans (hrtTickIsr_ready (h.ready t ((hon t).mp ht)))
  · obtain ⟨h1, h2, h3⟩ := h.out t ht
    refine ⟨h1, hcur.trans h2, fun hst hpos => ?_⟩
    have hne := hclean t h2 ht
    have hst' : ((tickHandler sz alarm s.sys.k).tcbs t).state = .ready := hst
    show 0 < ((tickHandler sz alarm s.sys.k).tcbs t).sliceLeft
    have hpos' : 0 < ((tickHandler sz alarm s.sys.k).tcbs t).timesliceCfg := hpos
    rw [htcbs] at hst' hpos' ⊢
    obtain ⟨b, hb, htcb | ⟨-, hbst, hsl, hleft, htcb, -⟩⟩ := hrtTickIsr_tcbs sz s.sys.k t
    · rw [htcb] at hst' hpos' ⊢
      rcases hb with rfl | ⟨-, rfl⟩
      · exact h3 hst' hpos'
      · exact hpos'
    · -- charged: the quantum was not at its last tick
      rw [htcb]
      have h1 : b.sliceLeft ≠ 1 := by
        intro h1
        rcases hb with rfl | ⟨hw, rfl⟩
        · exact hne ⟨hsl, Or.inl ⟨hbst, h1⟩⟩
        · exact hne ⟨hsl, Or.inr ⟨hw, h1⟩⟩
      show 0 < b.sliceLeft - 1
      omega

/-- **Every clean step keeps the invariant.** -/
theorem ReadyInv.step (h : ReadyInv sz s) (hr : sz.Representable) (hinv : PartInv sz s.sys) {a : Action}
    (hclean : ReadyClean sz s a) (hstep : Posix.step sz s a = some s') : ReadyInv sz s' := by
  cases a with
  | main c =>
      obtain ⟨hm, rfl⟩ := step_main hstep
      exact h.main hr hm hclean
  | start =>
      obtain ⟨hm, rfl⟩ := step_start hstep
      exact h.of_sched rfl rfl rfl rfl (by simp [hm])
  | loop => exact h.loop hr hstep
  | task c =>
      obtain ⟨t, hm, hcur, ⟨o, ho, rfl⟩ | ⟨x, hx, ⟨ht, rfl⟩ | ⟨-, rfl⟩⟩⟩ := step_task hstep
      · exact h.task hr hinv hm hcur hclean ho
      · rw [ht, h.idleCont] at hx
        exact absurd hx (by simp)
      · exact h.hop hcur hx
  | finish =>
      -- the task on the CPU is ready, so its function has not ended
      obtain ⟨t, hm, hcur, hx, -⟩ := step_finish hstep
      exact absurd hx.2.1 (h.runsLive t hm hcur (Or.inl hx.1)).2
  | isr op =>
      obtain rfl := Option.some.inj hstep
      exact h.isr hr hinv op
  | tick alarm =>
      obtain rfl := Option.some.inj hstep
      exact h.tick hr alarm hclean

/-- After boot the invariant holds. -/
theorem ReadyInv.boot (sz : Sizing) (cfg : Option KernelConfig) (objs : ObjectSpecs) (mem : Kernel) :
    ReadyInv sz (boot sz cfg objs mem) where
  books := ReadyBooks.boot sz .posix cfg objs mem _
  idle := stateOf_hrtInit sz _ .posix cfg _
  idleCont := rfl
  ready _ hon := absurd hon.1 (by simp)
  out _ hl := absurd hl (by simp [Sys.boot, Cont.leaving])

/-- **Along clean steps** the ready-set invariant and the blocked partition hold in every state. -/
theorem readyInv_of_run {cfg : Option KernelConfig} {objs : ObjectSpecs} {mem : Kernel}
    (hr : sz.Representable) {as : List Action}
    (hrun : exec (Posix.step sz) (Posix.boot sz cfg objs mem) as = some s)
    (hclean : Along (Posix.step sz) (ReadyClean sz) (Posix.boot sz cfg objs mem) as) :
    ReadyInv sz s ∧ PartInv sz s.sys := by
  refine exec_invariant (I := fun s => ReadyInv sz s ∧ PartInv sz s.sys) ?_
    ⟨ReadyInv.boot sz cfg objs mem, PartInv.boot sz _ cfg objs mem⟩ hclean hrun
  rintro s a s' ⟨h, hinv⟩ ha hstep
  exact ⟨h.step hr hinv ha hstep, step_partInv hr h.runsLive hinv hstep⟩

/-- **A run of clean steps is a run of the interleaving machine** in which parked tasks wait and deleted
tasks are gone, along any further condition `P` that the running task meets. -/
theorem refines_interleave_of_clean {cfg : Option KernelConfig} {objs : ObjectSpecs} {mem : Kernel}
    (hr : sz.Representable) {P : Sys → Interleave.Action → Prop}
    (hfree : ∀ s b, (∀ t c, b ≠ .task t c) → P s b) {as : List Action}
    (hrun : exec (Posix.step sz) (Posix.boot sz cfg objs mem) as = some s)
    (hclean : Along (Posix.step sz) (ReadyClean sz) (Posix.boot sz cfg objs mem) as)
    (hP : Along (Posix.step sz)
      (fun s a => ∀ t c, a = .task c → s.sys.k.current = some t → P s.sys (.task t c))
      (Posix.boot sz cfg objs mem) as) :
    ∃ bs, exec (Interleave.step sz .posix) (Posix.boot sz cfg objs mem).sys bs = some s.sys ∧
      Along (Interleave.step sz .posix) (fun s b => WaitsParked s b ∧ LivesOn s b ∧ P s b)
        (Posix.boot sz cfg objs mem).sys bs := by
  refine (exec_refines (f := State.sys) (I := fun s => ReadyInv sz s ∧ PartInv sz s.sys) ?_
    ⟨ReadyInv.boot sz cfg objs mem, PartInv.boot sz _ cfg objs mem⟩ (hclean.and hP) hrun).2
  rintro s a s' ⟨h, hinv⟩ ⟨ha, haP⟩ hstep
  refine ⟨⟨h.step hr hinv ha hstep, step_partInv hr h.runsLive hinv hstep⟩, ?_⟩
  refine step_interleave_along (fun s b hb => ?_) (fun t c hac hm hcur _ => ?_) h.runsLive hstep
  · exact ⟨.of_not_task hb, .of_not_task hb, hfree s b hb⟩
  · refine ⟨.of_not_blocked fun a ha => ?_, h.livesOn hm hcur, haP t c hac hcur⟩
    exact (h.runsLive t hm hcur (Or.inr ⟨a, ha⟩)).1

end Invariant

/-! ## The result -/

section Results

variable {sz : Sizing} {cfg : Option KernelConfig} {objs : ObjectSpecs} {mem : Kernel}
  {as : List Action} {s : State}

/-- **The ready set at the loop head**, in every run of clean steps of the atomic machine. -/
theorem queuesExactly_at_head (hr : sz.Representable)
    (hrun : exec (step sz) (boot sz cfg objs mem) as = some s)
    (hclean : Along (step sz) (ReadyClean sz) (boot sz cfg objs mem) as) (hm : s.mode = .head) :
    QueuesExactly sz s.sys.k fun id => s.sys.k.stateOf id = .ready := by
  have hbooks := (readyInv_of_run hr hrun hclean).1.books
  have hall : ReadyBooks sz s.sys.k fun _ => False := by
    refine hbooks.congr fun id _ => iff_of_false (fun hon => ?_) not_false
    exact absurd (hm.symm.trans hon.1) (by simp)
  simpa using hall.exactly

/-- **The ready set at the loop head.** In every run in pieces that is undisturbed and clean, whenever the
loop is at its head and no handler suspends it, a ready task occurs in the ready queues exactly once, in
the queue of its own priority, and any other id occurs in none. -/
theorem readySet_at_head (hr : sz.Representable) {bs : List (Sectioned.Action Action)}
    {x : Sectioned.State State Piece Unit}
    (hrun : exec (machine sz).step (Sectioned.closed (boot sz cfg objs mem)) bs = some x)
    (hclean : Along (machine sz).step
      (fun x b => (machine sz).Undisturbed x b ∧ (machine sz).Whole (ReadyClean sz) x b)
      (Sectioned.closed (boot sz cfg objs mem)) bs)
    (hm : x.base.mode = .head) (hh : x.handler = []) :
    QueuesExactly sz x.base.sys.k fun id => x.base.sys.k.stateOf id = .ready := by
  obtain ⟨as, has, hP⟩ := Sectioned.refines hrun hclean
  have hwhole : (machine sz).whole x = x.base := by
    rw [Sectioned.whole, here_eq_nil hrun hm, hh]
    rfl
  rw [hwhole] at has
  exact queuesExactly_at_head hr has hP hm

/-- Two tasks with a quantum of two: the first one runs and yields; a tick arrives inside the yield,
between the refill and `rq_push`, and the task goes back to the loop. -/
def yieldTickRun : List (Sectioned.Action Action) :=
  .act (.main (.createTask ⟨1, 0, 0x1000, 64, some ⟨1, 2⟩⟩)) :: List.replicate 7 .piece ++
    .act (.main (.createTask ⟨1, 0, 0x2000, 64, some ⟨1, 2⟩⟩)) :: List.replicate 7 .piece ++
    [.act .start, .act .loop, .act .loop, .act (.task .yield), .piece] ++
    .act (.tick true) :: List.replicate 13 .handlerPiece ++
    [.piece, .piece, .piece, .piece, .act (.task .yield), .act (.task .yield)]

/-- After `yieldTickRun` both tasks are queued once. -/
theorem readySet_at_head_yield :
    ∃ x, exec (machine .default).step (Sectioned.closed process) yieldTickRun = some x ∧
      x.base.mode = .head ∧ (x.base.sys.k.readyList .default 1).count 0 = 1 ∧
      (x.base.sys.k.readyList .default 1).count 1 = 1 := by
  have heval : ((exec (machine .default).step (Sectioned.closed process) yieldTickRun).map fun x =>
      (x.base.mode, x.handler,
        decide (x.base.sys.k.stateOf 0 = .ready ∧ x.base.sys.k.stateOf 1 = .ready),
        (x.base.sys.k.tcbs 0).prio, (x.base.sys.k.tcbs 1).prio)) = some (.head, [], true, 1, 1) := by
    decide +kernel
  obtain ⟨x, hx, hv⟩ := Option.map_eq_some_iff.mp heval
  obtain ⟨hm, hh, ⟨hst0, hst1⟩, hp0, hp1⟩ : x.base.mode = .head ∧ x.handler = [] ∧
      (x.base.sys.k.stateOf 0 = .ready ∧ x.base.sys.k.stateOf 1 = .ready) ∧
      (x.base.sys.k.tcbs 0).prio = 1 ∧ (x.base.sys.k.tcbs 1).prio = 1 := by
    simpa only [Prod.mk.injEq, decide_eq_true_eq] using hv
  have hexact := readySet_at_head (by decide) hx (by decide +kernel) hm hh
  have hcount0 := ((hexact 0).1 hst0).2 1 (by decide)
  have hcount1 := ((hexact 1).1 hst1).2 1 (by decide)
  rw [hp0, if_pos rfl] at hcount0
  rw [hp1, if_pos rfl] at hcount1
  exact ⟨x, hx, hm, hcount0, hcount1⟩

/-- One task with a quantum of one yields, and a tick arrives before it swaps back to the loop. -/
def yieldExpiryRun : List Action :=
  [.main (.createTask ⟨1, 0, 0x1000, 64, some ⟨1, 1⟩⟩),
    .start, .loop, .loop, .task .yield, .tick true, .task .yield, .task .yield]

/-- **A tick inside `hrt_yield` queues the caller twice**: it uses up the quantum that `hrt_yield` has
just refilled, and `hrt__on_scheduler_entry` takes the task, which is queued already, for one to
rotate. -/
theorem tick_queues_twice :
    ∃ s, exec (step .default) process yieldExpiryRun = some s ∧ s.mode = .head ∧
      s.sys.k.readyList .default 1 = [0, 0] ∧
      ¬ QueuesExactly .default s.sys.k fun id => s.sys.k.stateOf id = .ready := by
  have heval : ((exec (step .default) process yieldExpiryRun).map fun s =>
      (s.mode, s.sys.k.readyList .default 1, s.sys.k.stateOf 0)) = some (.head, [0, 0], .ready) := by
    decide +kernel
  obtain ⟨s, hs, hv⟩ := Option.map_eq_some_iff.mp heval
  obtain ⟨hm, hlist, hst⟩ : s.mode = .head ∧ s.sys.k.readyList .default 1 = [0, 0] ∧
      s.sys.k.stateOf 0 = .ready := by
    simpa only [Prod.mk.injEq] using hv
  refine ⟨s, hs, hm, hlist, fun hexact => ?_⟩
  have hcount := ((hexact 0).1 hst).2 1 (by decide)
  rw [hlist] at hcount
  split_ifs at hcount <;> exact absurd hcount (by decide)

end Results

end Posix

end HardRT
