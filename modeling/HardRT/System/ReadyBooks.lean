import HardRT.System.Partition

/-! # Ready queues and task states

The books of the scheduler: the ready queues hold every ready task that is not on the CPU, once and in
the queue of its own priority. Who is on the CPU is a matter of the port and stays a parameter, `run`;
`ReadyBooks sz k run` is the invariant, and the lemmas say how each way of touching the scheduler
(`System.Effect`) moves it. -/

namespace HardRT

open Lib

/-- **The creation is in order**: it is refused, or it has a valid priority and does not come to the last
slot, the one the schedulers take for the idle task. -/
def CreateOk (sz : Sizing) (k : Kernel) (a : TaskArgs) : Prop :=
  SparesIdle sz k a ∧ (createdSlot sz k a ≠ none → a.prio < sz.maxPrio)

instance (sz : Sizing) (k : Kernel) (a : TaskArgs) : Decidable (CreateOk sz k a) :=
  inferInstanceAs (Decidable (_ ∧ _))

/-- **The books are in order**: the ready queues hold exactly the ready tasks other than those in
`run`; every task in use has a valid priority and is a slot of the table. -/
structure ReadyBooks (sz : Sizing) (k : Kernel) (run : ℕ → Prop) : Prop where
  set : ReadySet sz k fun id => k.stateOf id = .ready ∧ ¬ run id
  prio : ∀ id, k.stateOf id ≠ .unused → (k.tcbs id).prio < sz.maxPrio
  lt : ∀ id, k.stateOf id ≠ .unused → id < sz.maxTasks

/-- **The ready queues hold exactly the tasks in `Q`**, spelled out: a task in `Q` occurs once in the
queue of its own priority and in no other; any other id occurs in none. -/
def QueuesExactly (sz : Sizing) (k : Kernel) (Q : ℕ → Prop) : Prop :=
  ∀ id, (Q id → (k.tcbs id).prio < sz.maxPrio ∧
      ∀ p < sz.maxPrio, (k.readyList sz p).count id = if p = (k.tcbs id).prio then 1 else 0) ∧
    (¬ Q id → ∀ p < sz.maxPrio, id ∉ k.readyList sz p)

namespace ReadyBooks

variable {sz : Sizing} {k k' : Kernel} {run run' : ℕ → Prop}

/-- Only who among the ready tasks is on the CPU matters. -/
theorem congr (h : ReadyBooks sz k run)
    (hrun : ∀ id, k.stateOf id = .ready → (run id ↔ run' id)) : ReadyBooks sz k run' := by
  refine ⟨h.set.congr fun id => ?_, h.prio, h.lt⟩
  exact and_congr_right fun hid => not_congr (hrun id hid)

/-- The books are read off the queues, the states and the priorities. -/
theorem of_eq (h : ReadyBooks sz k run) (hrq : k'.rq = k.rq)
    (hst : ∀ id, k'.stateOf id = k.stateOf id)
    (hprio : ∀ id, (k'.tcbs id).prio = (k.tcbs id).prio) : ReadyBooks sz k' run := by
  refine ⟨?_, fun id hid => ?_, fun id hid => h.lt id (hst id ▸ hid)⟩
  · refine (h.set.of_eq hrq fun id _ => hprio id).congr fun id => ?_
    rw [hst id]
  · rw [hprio id]
    exact h.prio id (hst id ▸ hid)

/-- A change of anything the scheduler does not read. -/
theorem same (h : ReadyBooks sz k run) (hs : SameSched k k') : ReadyBooks sz k' run :=
  h.of_eq hs.rq hs.stateOf fun id => by rw [hs.tcbs]

/-- **A used task on the CPU changes its control block**, whatever its state becomes. -/
theorem modify (h : ReadyBooks sz k run) {t : ℕ} (ht : run t) (hused : k.stateOf t ≠ .unused)
    {f : Tcb → Tcb} (hf : (f (k.tcbs t)).prio = (k.tcbs t).prio) :
    ReadyBooks sz (k.modifyTcb t f) run := by
  have hprio : ∀ id, ((k.modifyTcb t f).tcbs id).prio = (k.tcbs id).prio := by
    intro id
    by_cases hid : id = t
    · subst hid; simpa [Kernel.modifyTcb] using hf
    · simp [Kernel.modifyTcb, hid]
  have hst : ∀ id, id ≠ t → (k.modifyTcb t f).stateOf id = k.stateOf id := by
    intro id hid
    simp [Kernel.stateOf, Kernel.modifyTcb, hid]
  have hset : ReadySet sz (k.modifyTcb t f) fun id => k.stateOf id = .ready ∧ ¬ run id :=
    h.set.of_eq rfl fun id _ => hprio id
  refine ⟨hset.congr fun id => ?_, fun id hid => ?_, fun id hid => ?_⟩
  · by_cases hidt : id = t
    · subst hidt
      exact iff_of_false (fun hq => hq.2 ht) fun hq => hq.2 ht
    · rw [hst id hidt]
  · rw [hprio id]
    by_cases hidt : id = t
    · exact hidt ▸ h.prio t hused
    · exact h.prio id (hst id hidt ▸ hid)
  · by_cases hidt : id = t
    · exact hidt ▸ h.lt t hused
    · exact h.lt id (hst id hidt ▸ hid)

/-- **A task on the CPU goes to sleep.** -/
theorem sleep (h : ReadyBooks sz k run) {t : ℕ} (ht : run t) (hused : k.stateOf t ≠ .unused)
    (ms : ℕ) : ReadyBooks sz (hrtSleepBody t ms k) run := by
  rw [hrtSleepBody_eq]
  exact h.modify ht hused rfl

/-- **A task on the CPU deletes itself.** -/
theorem delete (h : ReadyBooks sz k run) {t : ℕ} (ht : run t) (hused : k.stateOf t ≠ .unused) :
    ReadyBooks sz (hrtTaskDeleteBody t k) run := by
  unfold hrtTaskDeleteBody Kernel.setState
  exact h.modify ht hused rfl

/-- **A task on the CPU parks.** -/
theorem park (h : ReadyBooks sz k run) {t : ℕ} (ht : run t) (hused : k.stateOf t ≠ .unused)
    {w : WaitQ} (hp : Parks sz t w k k') : ReadyBooks sz k' run := by
  obtain ⟨k₁, hs, -, rfl⟩ := hp
  exact (h.same hs).modify ht (by rwa [hs.stateOf]) rfl

/-- **A control block is written to a slot that is not ready**, with a valid priority; nobody is queued,
so the slot counts among those left out. -/
theorem install (h : ReadyBooks sz k run) {id : ℕ} (hlt : id < sz.maxTasks)
    (hnr : k.stateOf id ≠ .ready) {b : Tcb} (hp : b.prio < sz.maxPrio) (hrq : k'.rq = k.rq)
    (htcbs : k'.tcbs = Function.update k.tcbs id b) :
    ReadyBooks sz k' fun j => j = id ∨ run j := by
  have hother : ∀ j, j ≠ id → k'.tcbs j = k.tcbs j := fun j hj => by
    rw [htcbs, Function.update_of_ne hj]
  have hst : ∀ j, j ≠ id → k'.stateOf j = k.stateOf j := fun j hj => by
    rw [Kernel.stateOf, hother j hj]
    rfl
  have hset : ReadySet sz k' fun j => k.stateOf j = .ready ∧ ¬ run j := by
    refine h.set.of_eq hrq fun j hj => ?_
    rw [hother j fun hji => hnr (hji ▸ hj.1)]
  refine ⟨hset.congr fun j => ?_, fun j hj => ?_, fun j hj => ?_⟩
  · by_cases hj : j = id
    · subst hj
      simp [hnr]
    · rw [hst j hj]
      simp [hj]
  · by_cases hji : j = id
    · rw [hji, htcbs, Function.update_self]
      exact hp
    · rw [hother j hji]
      exact h.prio j (hst j hji ▸ hj)
  · by_cases hji : j = id
    · exact hji ▸ hlt
    · exact h.lt j (hst j hji ▸ hj)

/-- **A ready task on the CPU is pushed** and counts as queued from then on. -/
theorem requeue (h : ReadyBooks sz k run) (hr : sz.Representable) {t : ℕ}
    (hst : k.stateOf t = .ready) (ht : run t) :
    ReadyBooks sz (rqPush sz (k.tcbs t).prio t k) fun id => run id ∧ id ≠ t := by
  have hused : k.stateOf t ≠ .unused := by rw [hst]; simp
  have hpush := h.set.push hr (h.lt t hused) (fun hq => hq.2 ht) (h.prio t hused)
  have hst' : ∀ j, (rqPush sz (k.tcbs t).prio t k).stateOf j = k.stateOf j := by
    intro j
    rw [Kernel.stateOf, rqPush_tcbs]
    rfl
  refine ⟨hpush.congr fun j => ?_, fun j hj => ?_, fun j hj => ?_⟩
  · rw [hst' j]
    by_cases hj : j = t
    · subst hj
      simp [hst]
    · simp [hj]
  · rw [rqPush_tcbs]
    exact h.prio j (hst' j ▸ hj)
  · exact h.lt j (hst' j ▸ hj)

/-- **A slot that is not ready gets a ready control block and is pushed**: from then on it is queued
like any other. -/
theorem enlist (h : ReadyBooks sz k run) (hr : sz.Representable) {id : ℕ} (hlt : id < sz.maxTasks)
    (hnr : k.stateOf id ≠ .ready) (hid : ¬ run id) {b : Tcb} (hb : b.state = .ready)
    (hp : b.prio < sz.maxPrio) (hrq : k'.rq = k.rq) (htcbs : k'.tcbs = Function.update k.tcbs id b) :
    ReadyBooks sz (rqPush sz b.prio id k') run := by
  have hself : k'.tcbs id = b := by rw [htcbs, Function.update_self]
  have hst : k'.stateOf id = .ready := by rw [Kernel.stateOf, hself, hb]
  have hpush := (h.install hlt hnr hp hrq htcbs).requeue hr hst (Or.inl rfl)
  rw [hself] at hpush
  refine hpush.congr fun j _ => ⟨fun hj => hj.1.resolve_left hj.2, fun hj => ⟨Or.inr hj, ?_⟩⟩
  rintro rfl
  exact hid hj

/-- **`hrt__make_ready`** on a task that was not ready and is not on the CPU. -/
theorem makeReady (h : ReadyBooks sz k run) (hr : sz.Representable) {id : ℕ}
    (hnr : k.stateOf id ≠ .ready) (hused : k.stateOf id ≠ .unused) (hid : ¬ run id) :
    ReadyBooks sz (hrtMakeReady sz id k) run := by
  have hprio : ((markReady id k).tcbs id).prio = (k.tcbs id).refill.prio := by
    simp [markReady, Kernel.modifyTcb]
  unfold hrtMakeReady
  simp only [hprio]
  exact h.enlist hr (h.lt id hused) hnr hid (b := (k.tcbs id).refill) rfl (h.prio id hused) rfl rfl

/-- **Waking the head of a wait FIFO**, a blocked task that is not on the CPU. -/
theorem wake (h : ReadyBooks sz k run) (hr : sz.Representable) {w : WaitQ} {id : ℕ}
    (hw : Wakes sz w id k k') (hb : k.stateOf id = .blocked) (hid : ¬ run id) :
    ReadyBooks sz k' run := by
  obtain ⟨k₁, hs, -, -, rfl⟩ := hw
  refine (h.same hs).makeReady hr ?_ ?_ hid
  · rw [hs.stateOf, hb]
    simp
  · rw [hs.stateOf, hb]
    simp

/-- **One turn of the wake loop**: waking a due sleeper keeps the books and leaves the tasks on the CPU
as they are, asleep or awake. -/
theorem wakeOne (h : ReadyBooks sz k run) (hr : sz.Representable)
    (hrun : ∀ id, run id → ¬ wakesAt k k.tick id) {i : ℕ} (hwakes : wakesAt k k.tick i) :
    ReadyBooks sz (hrtMakeReady sz i k) run ∧
      ∀ id, run id → ¬ wakesAt (hrtMakeReady sz i k) (hrtMakeReady sz i k).tick id := by
  have hi : ¬ run i := fun hi => hrun i hi hwakes
  refine ⟨h.makeReady hr ?_ ?_ hi, fun id hid hw => hrun id hid ?_⟩
  · rw [hwakes.1]
    simp
  · rw [hwakes.1]
    simp
  · have hne : id ≠ i := fun hne => hi (hne ▸ hid)
    obtain ⟨hst, hdue⟩ := hw
    rw [stateOf_hrtMakeReady, if_neg hne] at hst
    rw [hrtMakeReady_tick, hrtMakeReady_tcbs, Function.update_of_ne hne] at hdue
    exact ⟨hst, hdue⟩

/-- **A tick** that wakes no task on the CPU. -/
theorem tick (h : ReadyBooks sz k run) (hr : sz.Representable)
    (hrun : ∀ id, run id → ¬ wakesAt k ((k.tick + 1) % 2 ^ 32) id) :
    ReadyBooks sz (hrtTickIsr sz k) run := by
  have hloop : ReadyBooks sz (wakeSleepers sz (hrtIncTick k)).1 run ∧
      ∀ id, run id → ¬ wakesAt (wakeSleepers sz (hrtIncTick k)).1
        (wakeSleepers sz (hrtIncTick k)).1.tick id := by
    refine wakeSleepers_induction (fun s => ReadyBooks sz s.1 run ∧
      ∀ id, run id → ¬ wakesAt s.1 s.1.tick id) ⟨h.of_eq rfl (fun _ => rfl) fun _ => rfl, hrun⟩ ?_
    rintro s i ⟨hbooks, hnot⟩ - hwakes
    exact hbooks.wakeOne hr hnot hwakes
  have hcore : ReadyBooks sz (tickCore sz k) run := by
    refine hloop.1.of_eq ?_ (stateOf_chargeSlice sz _) fun id => ?_
    · obtain ⟨-, -, -, -, -, -, -, -, hrq⟩ := chargeSlice_frame sz (wakeSleepers sz (hrtIncTick k)).1
      exact hrq
    · obtain ⟨n, hn⟩ := chargeSlice_tcbs sz (wakeSleepers sz (hrtIncTick k)).1 id
      rw [tickCore, hn]
  rcases hrtTickIsr_cases sz k with heq | heq
  · rw [heq]
    exact hcore.of_eq rfl (fun _ => rfl) fun _ => rfl
  · rwa [heq]

/-- **Creation** that is in order, in a slot that is not on the CPU. -/
theorem create (h : ReadyBooks sz k run) (hr : sz.Representable) (port : Port) {a : TaskArgs}
    (hok : CreateOk sz k a) (hrun : ∀ id, (hrtCreateTask sz port a k).1 = some id → ¬ run id) :
    ReadyBooks sz (hrtCreateTask sz port a k).2 run := by
  rcases hrtCreateTask_cases sz port a k with ⟨e, he⟩ | ⟨id, sp, e, hlt, hun, he⟩
  · rw [he]
    exact h.of_eq rfl (fun _ => rfl) fun _ => rfl
  · have hid := hrun id (by rw [he])
    have hp := hok.2 (by rw [← hrtCreateTask_slot sz port, he]; simp)
    have hnr : k.stateOf id ≠ .ready := by rw [hun]; simp
    rw [he]
    exact h.enlist hr hlt hnr hid (b := a.readyTcb k sp) rfl hp rfl rfl

/-! ### The one ready task on the CPU acts -/

section Acting

variable {t : ℕ} (hrun : ∀ id, run id → id = t) (hst : k.stateOf t = .ready)

include hrun hst

/-- **It wakes another task**: it is not blocked, so it does not wake itself. -/
theorem wake_other (h : ReadyBooks sz k run) (hr : sz.Representable) (hpart : BlockedPartition sz k)
    {w : WaitQ} {id : ℕ} (hw : Wakes sz w id k k') : ReadyBooks sz k' run ∧ k'.stateOf t = .ready := by
  have hb := hpart.blocked_of_wakes hr hw
  have hne : t ≠ id := by
    rintro rfl
    rw [hst] at hb
    exact absurd hb (by simp)
  refine ⟨h.wake hr hw hb fun hid => hne (hrun id hid).symm, ?_⟩
  rw [hw.stateOf, if_neg hne]
  exact hst

/-- **It creates a task**: its own slot is in use, so it does not create itself. -/
theorem create_other (h : ReadyBooks sz k run) (hr : sz.Representable) (port : Port) {a : TaskArgs}
    (hok : CreateOk sz k a) : ReadyBooks sz (hrtCreateTask sz port a k).2 run ∧
      (hrtCreateTask sz port a k).2.stateOf t = .ready := by
  have hne : (hrtCreateTask sz port a k).1 ≠ some t := by
    intro hid
    rw [(hrtCreateTask_some hid).2] at hst
    exact absurd hst (by simp)
  refine ⟨h.create hr port hok fun id hid hon => hne (hrun id hon ▸ hid), ?_⟩
  rw [hrtCreateTask_stateOf, if_neg hne]
  exact hst

end Acting

/-- **A task outside the queues is marked ready and pushed**, and counts as queued from then on. -/
theorem enqueue (h : ReadyBooks sz k run) (hr : sz.Representable) {t : ℕ}
    (hused : k.stateOf t ≠ .unused) (ht : run t) :
    ReadyBooks sz (hrtMakeReady sz t k) fun id => run id ∧ id ≠ t :=
  (h.modify (f := fun b => { b with state := .ready, sliceLeft := b.timesliceCfg }) ht hused rfl).requeue
    hr (by simp) ht

/-- **A pick**: the task picked is ready and leaves the queues, or the queues are empty and the pick is
`HRT_IDLE_ID`. -/
theorem pick (h : ReadyBooks sz k run) (hr : sz.Representable) :
    ((∀ p < sz.maxPrio, k.readyList sz p = []) ∧ hrtPickNextReady sz k = (sz.idleId, k)) ∨
    ∃ id, (k.stateOf id = .ready ∧ ¬ run id) ∧ (hrtPickNextReady sz k).1 = id ∧
      ReadyBooks sz (hrtPickNextReady sz k).2 fun j => j = id ∨ run j := by
  rcases h.set.pick hr with hidle | ⟨p, id, -, hid, -, -, -, heq, hset⟩
  · exact Or.inl hidle
  · right
    refine ⟨id, hid, by rw [heq], ?_⟩
    rw [heq]
    refine ⟨hset.congr fun j => ?_, h.prio, h.lt⟩
    show (k.stateOf j = .ready ∧ ¬ run j) ∧ j ≠ id ↔ k.stateOf j = .ready ∧ ¬ (j = id ∨ run j)
    tauto

/-- **The outgoing half of `hrt__schedule`** queues the current task if it is ready. The tasks in `F`
are ready, not queued and not current. -/
theorem saveOutgoing {F : ℕ → Prop} (h : ReadyBooks sz k fun id => k.current = some id ∨ F id)
    (hr : sz.Representable) (hF : ∀ t, k.current = some t → ¬ F t) {oldSp : ℕ}
    (hsp : oldSp = 0 ↔ k.current = none) : ReadyBooks sz (saveOutgoing sz oldSp k) F := by
  cases hcur : k.current with
  | none =>
      rw [HardRT.saveOutgoing, if_pos (hsp.mpr hcur)]
      refine h.congr fun id _ => ?_
      rw [hcur]
      simp
  | some cur =>
      have h0 : oldSp ≠ 0 := fun h0 => absurd (hcur.symm.trans (hsp.mp h0)) (by simp)
      have hset : ReadyBooks sz (setSp cur oldSp k) fun id => k.current = some id ∨ F id := by
        refine h.of_eq (setSp_rq cur oldSp k) (stateOf_setSp cur oldSp k) fun id => ?_
        rw [setSp_tcbs]
        by_cases hid : id = cur
        · subst hid; simp
        · simp [hid]
      rw [HardRT.saveOutgoing, if_neg h0, hcur]
      by_cases hst : (setSp cur oldSp k).stateOf cur = .ready
      · simp only [if_pos hst]
        refine (hset.requeue hr hst (Or.inl hcur)).congr fun id _ => ?_
        constructor
        · rintro ⟨hid | hid, hne⟩
          · exact absurd (Option.some.inj (hcur.symm.trans hid)).symm hne
          · exact hid
        · exact fun hid => ⟨Or.inr hid, fun hic => hF cur hcur (hic ▸ hid)⟩
      · simp only [if_neg hst]
        refine hset.congr fun id hid => ⟨fun hor => hor.resolve_left fun hc => hst ?_, Or.inr⟩
        exact Option.some.inj (hcur.symm.trans hc) ▸ hid

/-- **A switch**: every ready task outside `F` is queued, then the one picked is not; if there is none,
the idle slot, which is nobody's, becomes current. -/
theorem schedule {F : ℕ → Prop} (h : ReadyBooks sz k fun id => k.current = some id ∨ F id)
    (hr : sz.Representable) (hF : ∀ t, k.current = some t → ¬ F t)
    (hidle : k.stateOf sz.idleId ≠ .ready) {oldSp : ℕ} (hsp : oldSp = 0 ↔ k.current = none) :
    ReadyBooks sz (hrtSchedule sz oldSp k).2
      (fun id => (hrtSchedule sz oldSp k).2.current = some id ∨ F id) ∧
    ∃ t, (hrtSchedule sz oldSp k).2.current = some t ∧
      ((k.stateOf t = .ready ∧ ¬ F t) ∨ t = sz.idleId) := by
  have hbooks := h.saveOutgoing hr hF hsp
  have hst : ∀ j, (HardRT.saveOutgoing sz oldSp k).stateOf j = k.stateOf j := by
    intro j
    obtain ⟨sp, rq, e, heq⟩ := saveOutgoing_frame sz oldSp k
    rw [heq]
    rfl
  rcases hbooks.pick hr with ⟨-, heq⟩ | ⟨id, hid, hfst, hpick⟩
  · have hrun : ReadyBooks sz (HardRT.saveOutgoing sz oldSp k)
        fun id => some sz.idleId = some id ∨ F id := by
      refine hbooks.congr fun id hid => ⟨Or.inr, fun hor => hor.resolve_left fun heq => hidle ?_⟩
      rw [Option.some.inj heq, ← hst]
      exact hid
    simp only [hrtSchedule, heq]
    exact ⟨hrun.of_eq rfl (fun _ => rfl) fun _ => rfl, sz.idleId, rfl, Or.inr rfl⟩
  · have hrun : ReadyBooks sz (hrtPickNextReady sz (HardRT.saveOutgoing sz oldSp k)).2
        fun j => some id = some j ∨ F j := by
      refine hpick.congr fun j _ => ?_
      rw [Option.some.injEq, eq_comm]
    simp only [hrtSchedule, hfst]
    rw [hst] at hid
    exact ⟨hrun.of_eq rfl (fun _ => rfl) fun _ => rfl, id, rfl, Or.inl hid⟩

/-- What the books say, queue by queue. -/
theorem exactly (h : ReadyBooks sz k run) :
    QueuesExactly sz k fun id => k.stateOf id = .ready ∧ ¬ run id := by
  refine fun id => ⟨fun hid => ⟨h.prio id ?_, fun p hp => ?_⟩, fun hid p hp hmem => ?_⟩
  · rw [hid.1]
    simp
  · split_ifs with hpe
    · refine List.count_eq_one_of_mem (h.set.nodup p hp) ?_
      exact (h.set.mem_iff p hp id).mpr ⟨hid, hpe.symm⟩
    · refine List.count_eq_zero_of_not_mem fun hmem => hpe ?_
      exact ((h.set.mem_iff p hp id).mp hmem).2.symm
  · exact hid ((h.set.mem_iff p hp id).mp hmem).1

/-- **After boot** the books are in order: no task exists and the queues are empty. -/
theorem boot (sz : Sizing) (port : Port) (cfg : Option KernelConfig) (objs : ObjectSpecs)
    (mem : Kernel) (run : ℕ → Prop) : ReadyBooks sz (Sys.boot sz port cfg objs mem).k run := by
  have hst : ∀ j, (Sys.boot sz port cfg objs mem).k.stateOf j = .unused :=
    fun j => stateOf_hrtInit sz _ port cfg j
  have hrq : (Sys.boot sz port cfg objs mem).k.rq = fun _ => ⟨fun _ => 0, 0, 0, 0⟩ :=
    (hrtInit_frame sz _ port cfg).1
  have hlist : ∀ p, (Sys.boot sz port cfg objs mem).k.readyList sz p = [] := by
    intro p
    rw [Kernel.readyList, hrq]
    exact RingBuffer.toList_zero _ _ _ _
  refine ⟨⟨fun p _ => ?_, fun p _ => ?_, fun p _ id => ?_, fun id hid => ?_⟩, fun id hid => ?_,
    fun id hid => ?_⟩
  · rw [hrq]
    exact RingBuffer.WF.zero sz.maxTasks_pos _
  · rw [hlist]
    exact List.nodup_nil
  · rw [hlist, hst]
    simp
  · rw [hst] at hid
    exact absurd hid.1 (by simp)
  · exact absurd (hst id) hid
  · exact absurd (hst id) hid

end ReadyBooks

end HardRT
