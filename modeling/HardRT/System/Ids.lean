import HardRT.System.Partition

/-! # The ids in circulation

Task ids travel through one-byte cells: ready queues, wait FIFOs. `KnownIds sz k A` says that every id
found there belongs to a set `A` of slots, those that a task was ever created in. Unlike the blocked
partition this needs no assumption on how tasks are switched, and it is what rules out that an id is
truncated on its way.

The idle slot is a slot of the table like any other. `SparesIdle` says that the next creation does not
come to it; as long as it stays out of circulation, a pick returns `HRT_IDLE_ID` for "nobody is ready"
only (`KnownIds.pick_idle_iff`). -/

namespace HardRT

open Lib

/-- **Every id in circulation is in `A`**, and `A` consists of slots of the table. -/
structure KnownIds (sz : Sizing) (k : Kernel) (A : ℕ → Prop) : Prop where
  lt : ∀ id, A id → id < sz.maxTasks
  used : ∀ id, k.stateOf id ≠ .unused → A id
  ready : QueuedAll sz k fun _ id => A id
  ring : ∀ w, (k.ring w).WF sz.maxTasks
  wait : ∀ w, ∀ id ∈ k.waiters sz w, A id

namespace KnownIds

variable {sz : Sizing} {k k' : Kernel} {A B : ℕ → Prop}

/-- The ready queues grew, the wait FIFOs stayed, and no unknown slot came into use. -/
theorem grown (h : KnownIds sz k A) (hg : ReadyGrows sz k k') (hring : k'.ring = k.ring)
    (hst : ∀ id, k'.stateOf id ≠ .unused → A id) : KnownIds sz k' A := by
  refine ⟨h.lt, hst, ?_, fun w => hring ▸ h.ring w, fun w id hid => ?_⟩
  · refine h.ready.grow hg (fun _ _ _ _ hid => hid) fun id hid => hst id ?_
    rw [hid]
    simp
  · rw [Kernel.waiters, hring] at hid
    exact h.wait w id hid

/-- Nothing new entered a queue and no free slot came into use. -/
theorem of_eq (h : KnownIds sz k A) (hrq : k'.rq = k.rq) (hring : k'.ring = k.ring)
    (hst : ∀ id, k'.stateOf id ≠ .unused → A id) : KnownIds sz k' A := by
  exact h.grown (.of_rq h.ready.wf hrq) hring hst

/-- A larger set of slots will do. -/
theorem mono (h : KnownIds sz k A) (hAB : ∀ id, A id → B id) (hB : ∀ id, B id → id < sz.maxTasks) :
    KnownIds sz k B where
  lt := hB
  used id hid := hAB id (h.used id hid)
  ready := ⟨h.ready.wf, fun p hp id hid => hAB id (h.ready.all p hp id hid)⟩
  ring := h.ring
  wait w id hid := hAB id (h.wait w id hid)

/-- A change of anything the scheduler does not read. -/
theorem quiet (h : KnownIds sz k A) (hq : Quiet k k') : KnownIds sz k' A := by
  refine h.of_eq hq.same.rq hq.ring fun id hid => h.used id ?_
  rwa [hq.same.stateOf] at hid

/-- A known task changes its state. -/
theorem modify (h : KnownIds sz k A) {t : ℕ} (ht : A t) (f : Tcb → Tcb) :
    KnownIds sz (k.modifyTcb t f) A := by
  refine h.of_eq rfl (Kernel.SameObjects.ring ⟨rfl, rfl, rfl⟩) fun id hid => ?_
  by_cases hidt : id = t
  · exact hidt ▸ ht
  · refine h.used id ?_
    simpa [Kernel.stateOf, Kernel.modifyTcb, hidt] using hid

/-- The task a waking makes ready is known. -/
theorem of_wakes (h : KnownIds sz k A) (hr : sz.Representable) {w : WaitQ} {id : ℕ}
    (hw : Wakes sz w id k k') : A id := by
  obtain ⟨rest, hl, -⟩ := hw.waiters hr (h.ring w)
  exact h.wait w id (hl ▸ List.mem_cons_self)

/-- A waking makes the ready queues grow. -/
theorem wake_grows (h : KnownIds sz k A) (hr : sz.Representable) {w : WaitQ} {id : ℕ}
    (hw : Wakes sz w id k k') : ReadyGrows sz k k' := by
  have hlt := h.lt id (h.of_wakes hr hw)
  obtain ⟨k₁, hs, -, -, rfl⟩ := hw
  have h₁ : ReadyGrows sz k k₁ := .of_rq h.ready.wf hs.rq
  refine h₁.trans (.makeReady h₁.wf hr hlt) fun j hj => ?_
  rw [stateOf_hrtMakeReady, hrtMakeReady_tcbs]
  by_cases hji : j = id
  · subst hji
    simp
  · simp [hji, hj]

/-- A waking. -/
theorem wake (h : KnownIds sz k A) (hr : sz.Representable) {w : WaitQ} {id : ℕ}
    (hw : Wakes sz w id k k') : KnownIds sz k' A := by
  have hid := h.of_wakes hr hw
  have hst : ∀ j, k'.stateOf j ≠ .unused → A j := by
    intro j hj
    by_cases hji : j = id
    · exact hji ▸ hid
    · rw [hw.stateOf, if_neg hji] at hj
      exact h.used j hj
  obtain ⟨rest, hl, hwait⟩ := hw.waiters hr (h.ring w)
  refine ⟨h.lt, hst, ?_, hw.ring_wf hr h.ring, fun v j hj => ?_⟩
  · refine h.ready.grow (h.wake_grows hr hw) (fun _ _ _ _ hj => hj) fun j hj => hst j ?_
    rw [hj]
    simp
  · rw [hwait] at hj
    by_cases hv : v = w
    · subst hv
      rw [Function.update_self] at hj
      exact h.wait v j (hl ▸ List.mem_cons_of_mem _ hj)
    · rw [Function.update_of_ne hv] at hj
      exact h.wait v j hj

/-- A parking. -/
theorem park (h : KnownIds sz k A) (hr : sz.Representable) {t : ℕ} (ht : A t) {w : WaitQ}
    (hp : Parks sz t w k k') : KnownIds sz k' A := by
  have hst : ∀ j, k'.stateOf j ≠ .unused → A j := by
    intro j hj
    by_cases hjt : j = t
    · exact hjt ▸ ht
    · rw [hp.stateOf, if_neg hjt] at hj
      exact h.used j hj
  refine ⟨h.lt, hst, ⟨fun p hp' => hp.rq ▸ h.ready.wf p hp', fun p hp' j hj => ?_⟩,
    hp.ring_wf hr h.ring, fun v j hj => ?_⟩
  · rw [Kernel.readyList_congr hp.rq] at hj
    exact h.ready.all p hp' j hj
  · obtain ⟨k₁, -, heq, rfl⟩ := hp
    rw [Kernel.waiters, Kernel.ring_setState, heq] at hj
    by_cases hv : v = w
    · subst hv
      rw [Function.update_self] at hj
      rcases RingBuffer.mem_toList_push (h.ring v) hr.lt hj with hold | rfl
      · exact h.wait v j hold
      · rw [hr.mod_eq (h.lt t ht)]
        exact ht
    · rw [Function.update_of_ne hv] at hj
      exact h.wait v j hj

/-- A yield of a known task. -/
theorem yieldBody (h : KnownIds sz k A) (hr : sz.Representable) {t : ℕ} (ht : A t) :
    KnownIds sz (hrtYieldBody sz t k) A := by
  refine h.grown (.yieldBody h.ready.wf hr (h.lt t ht)) (hrtYieldBody_ring sz t k) fun j hj => ?_
  rw [stateOf_hrtYieldBody] at hj
  exact h.used j hj

/-- A creation adds the slot it fills. -/
theorem create (h : KnownIds sz k A) (hr : sz.Representable) (port : Port) (a : TaskArgs) :
    KnownIds sz (hrtCreateTask sz port a k).2
      fun id => A id ∨ (hrtCreateTask sz port a k).1 = some id := by
  have hB : KnownIds sz k fun id => A id ∨ (hrtCreateTask sz port a k).1 = some id := by
    refine h.mono (fun id => Or.inl) fun id hid => ?_
    rcases hid with hid | hid
    · exact h.lt id hid
    · exact (hrtCreateTask_some hid).1
  refine hB.grown (.create h.ready.wf hr port a) (hrtCreateTask_objects sz port a k).ring ?_
  intro id hid
  rw [hrtCreateTask_stateOf] at hid
  by_cases hnew : (hrtCreateTask sz port a k).1 = some id
  · exact Or.inr hnew
  · exact Or.inl (h.used id (by rwa [if_neg hnew] at hid))

/-- A tick. -/
theorem tick (h : KnownIds sz k A) (hr : sz.Representable) : KnownIds sz (hrtTickIsr sz k) A := by
  refine h.grown (.tick h.ready.wf hr) (Interleave.tickIsr_objects sz k).ring fun id hid => ?_
  rcases hrtTickIsr_stateOf sz k id with hst | ⟨hst, -⟩
  · exact h.used id (hst ▸ hid)
  · exact h.used id (by rw [hst]; simp)

/-- **Any action of a known task** adds at most the slot it fills. -/
theorem task (h : KnownIds sz k A) (hr : sz.Representable) {port : Port} {t : ℕ} (ht : A t)
    {call : Call} {c : Cont} {o : Outcome} (heff : TaskEffect sz port t k call c o) :
    KnownIds sz o.k fun id => A id ∨ o.spawn = some id := by
  have hkeep : ∀ k' : Kernel, KnownIds sz k' A →
      KnownIds sz k' fun id => A id ∨ (none : Option ℕ) = some id :=
    fun k' hk' => hk'.mono (fun _ => Or.inl) fun id hid => by simpa using hid.elim (h.lt id) (by simp)
  cases heff with
  | quiet hq hc hc' => exact hkeep _ (h.quiet hq)
  | request => exact hkeep _ (h.of_eq rfl (by simp) h.used)
  | yield hc => exact hkeep _ (h.yieldBody hr ht)
  | @sleep ms evs =>
      refine hkeep (hrtSleepBody t ms k) ?_
      rw [hrtSleepBody_eq]
      exact h.modify ht _
  | delete hne hcall =>
      refine hkeep (hrtTaskDeleteBody t k) ?_
      unfold hrtTaskDeleteBody Kernel.setState
      exact h.modify ht _
  | park hc hp => exact hkeep _ (h.park hr ht hp)
  | wake hc hf hw => exact hkeep _ (h.wake hr hw)
  | wakeOnRecheck hc hw => exact hkeep _ (h.wake hr hw)
  | create hcall => exact h.create hr port _
  | policy hcall =>
      exact hkeep _ (h.of_eq rfl (Kernel.SameObjects.ring ⟨rfl, rfl, rfl⟩) h.used)

/-- **Any action of a known task** makes the ready queues grow. -/
theorem task_grows (h : KnownIds sz k A) (hr : sz.Representable) {port : Port} {t : ℕ} (ht : A t)
    {call : Call} {c : Cont} {o : Outcome} (heff : TaskEffect sz port t k call c o) :
    ReadyGrows sz k o.k := by
  have hwf := h.ready.wf
  cases heff with
  | quiet hq hc hc' => exact .of_rq hwf hq.same.rq
  | request => exact .of_rq hwf rfl
  | yield hc => exact .yieldBody hwf hr (h.lt t ht)
  | sleep => exact .of_rq hwf rfl
  | delete hne hcall => exact .of_rq hwf rfl
  | park hc hp => exact .of_rq hwf hp.rq
  | wake hc hf hw => exact h.wake_grows hr hw
  | wakeOnRecheck hc hw => exact h.wake_grows hr hw
  | create hcall => exact .create hwf hr port _
  | policy hcall => exact .of_rq hwf rfl

/-- Any operation of an ISR makes the ready queues grow. -/
theorem isr_grows (h : KnownIds sz k A) (hr : sz.Representable) (op : Isr) :
    ReadyGrows sz k (isrAction sz k op).2.1 := by
  rcases isrEffect sz k op with hq | ⟨id, k', hw, heq⟩
  · exact .of_rq h.ready.wf hq.same.rq
  · rw [heq]
    have hg := h.wake_grows hr hw
    exact hg.trans (.of_rq hg.wf rfl) fun j hj => ⟨hj, rfl⟩

/-- Any operation of an ISR. -/
theorem isr (h : KnownIds sz k A) (hr : sz.Representable) (op : Isr) :
    KnownIds sz (isrAction sz k op).2.1 A := by
  rcases isrEffect sz k op with hq | ⟨id, k', hw, heq⟩
  · exact h.quiet hq
  · rw [heq]
    have hk' := h.wake hr hw
    exact hk'.of_eq rfl (by simp) hk'.used

/-- A ready task is known, and so it is a slot of the table. -/
theorem ready_lt (h : KnownIds sz k A) {t : ℕ} (hst : k.stateOf t = .ready) : t < sz.maxTasks :=
  h.lt t (h.used t (by rw [hst]; simp))

/-- **A pick**: the task returned is known, or it is the idle slot. -/
theorem pick (h : KnownIds sz k A) (hr : sz.Representable) :
    KnownIds sz (hrtPickNextReady sz k).2 A ∧
    (A (hrtPickNextReady sz k).1 ∨ (hrtPickNextReady sz k).1 = sz.idleId) := by
  have hring : (hrtPickNextReady sz k).2.ring = k.ring :=
    (Interleave.SchedOp.run_objects sz k .pick).ring
  have hst : ∀ j, (hrtPickNextReady sz k).2.stateOf j = k.stateOf j :=
    fun j => Interleave.SchedOp.run_stateOf sz k .pick j
  rcases pick_entry hr h.ready.wf with ⟨-, heq⟩ | ⟨p, hp, -, hid, hwf, hsub⟩
  · rw [heq]
    exact ⟨h, Or.inr rfl⟩
  · refine ⟨h.grown (.of_subset hwf hsub) hring fun id hid => h.used id (hst id ▸ hid), Or.inl ?_⟩
    exact h.ready.all p hp _ hid

/-- The scheduler is entered from a known task. -/
theorem entry (h : KnownIds sz k A) (hr : sz.Representable)
    (hcur : ∀ t, k.current = some t → t < sz.maxTasks) :
    KnownIds sz (hrtOnSchedulerEntry sz k) A := by
  refine h.grown (.entry h.ready.wf hr hcur) (Interleave.SchedOp.run_objects sz k .entry).ring
    fun id hid => h.used id ?_
  rwa [show (hrtOnSchedulerEntry sz k).stateOf id = k.stateOf id from
    Interleave.SchedOp.run_stateOf sz k .entry id] at hid

/-- **A switch**: the task made current is known, or it is the idle slot. -/
theorem schedule (h : KnownIds sz k A) (hr : sz.Representable) (oldSp : ℕ) :
    KnownIds sz (hrtSchedule sz oldSp k).2 A ∧
    ∃ t, (hrtSchedule sz oldSp k).2.current = some t ∧ (A t ∨ t = sz.idleId) := by
  have hring : (hrtSchedule sz oldSp k).2.ring = k.ring :=
    (Interleave.SchedOp.run_objects sz k (.schedule oldSp)).ring
  have hst : ∀ j, (hrtSchedule sz oldSp k).2.stateOf j = k.stateOf j :=
    fun j => Interleave.SchedOp.run_stateOf sz k (.schedule oldSp) j
  obtain ⟨hg, hnext⟩ := schedule_entry hr h.ready.wf oldSp fun t _ hst => h.ready_lt hst
  refine ⟨h.grown hg hring fun id hid => h.used id (hst id ▸ hid), ?_⟩
  rcases hnext with ⟨-, hidle⟩ | ⟨p, id, hp, hcur, -, hid⟩
  · exact ⟨sz.idleId, hidle, Or.inr rfl⟩
  · refine ⟨id, hcur, Or.inl ?_⟩
    rcases hid with hid | ⟨hid, -⟩
    · exact h.ready.all p hp id hid
    · exact h.used id (by rw [hid]; simp)

/-- After boot nothing is in circulation. -/
theorem boot (sz : Sizing) (port : Port) (cfg : Option KernelConfig) (objs : ObjectSpecs)
    (mem : Kernel) (hA : ∀ id, A id → id < sz.maxTasks) :
    KnownIds sz (Sys.boot sz port cfg objs mem).k A := by
  have hpart := (PartInv.boot sz port cfg objs mem).part
  have hst : ∀ j, (Sys.boot sz port cfg objs mem).k.stateOf j = .unused :=
    fun j => stateOf_hrtInit sz _ port cfg j
  have hrq : (Sys.boot sz port cfg objs mem).k.rq = fun _ => ⟨fun _ => 0, 0, 0, 0⟩ :=
    (hrtInit_frame sz _ port cfg).1
  refine ⟨hA, fun id hid => absurd (hst id) hid, ⟨fun p _ => ?_, fun p _ id hid => ?_⟩, hpart.wf,
    fun w id hid => ?_⟩
  · rw [hrq]
    exact RingBuffer.WF.zero sz.maxTasks_pos _
  · rw [Kernel.readyList, hrq] at hid
    exact absurd hid (by simp)
  · have hb := hpart.blocked_of_mem hid
    rw [hst] at hb
    exact absurd hb (by simp)

/-! ## The slots with a context -/

section Contexts

variable {s : Sys}

/-- **An action of a task with a context**, in a system whose known slots are those with one. -/
theorem apply (h : KnownIds sz s.k fun id => s.conts id ≠ .none) (hr : sz.Representable)
    {port : Port} {t : ℕ} {call : Call} {o : Outcome}
    (ho : nextAction sz port t call s.k (s.conts t) = some o) :
    KnownIds sz (s.apply t o).k fun id => (s.apply t o).conts id ≠ .none := by
  have ht : s.conts t ≠ .none := by
    intro hn
    rw [hn] at ho
    exact absurd ho (by simp [nextAction])
  have heff := taskEffect ho
  refine (h.task hr ht heff).mono (fun id hid => ?_) fun id hid => ?_
  · by_cases hidt : id = t
    · rw [hidt, Sys.apply_conts_self]
      exact heff.cont_ne_none
    · rw [Sys.apply_conts_of_ne s hidt]
      exact Sys.spawned_ne_none.mpr hid
  · by_cases hidt : id = t
    · exact hidt ▸ h.lt t ht
    · rw [Sys.apply_conts_of_ne s hidt] at hid
      rcases Sys.spawned_ne_none.mp hid with hid | hid
      · exact h.lt id hid
      · exact heff.spawn_lt hid

/-- A call of `main`. -/
theorem main (h : KnownIds sz s.k fun id => s.conts id ≠ .none) (hr : sz.Representable) (port : Port)
    (c : MainCall) :
    KnownIds sz (s.main sz port c).k fun id => (s.main sz port c).conts id ≠ .none := by
  cases c with
  | createTask a =>
      have hnew := h.create hr port a
      refine hnew.mono (fun id hid => Sys.spawned_ne_none.mpr hid) fun id hid => ?_
      exact hnew.lt id (Sys.spawned_ne_none.mp hid)
  | setPolicy p => exact h.of_eq rfl (Kernel.SameObjects.ring ⟨rfl, rfl, rfl⟩) h.used
  | setDefaultTimeslice n => exact h.of_eq rfl (Kernel.SameObjects.ring ⟨rfl, rfl, rfl⟩) h.used

/-- The return from `hrt_port_yield_to_scheduler`. -/
theorem land (h : KnownIds sz s.k fun id => s.conts id ≠ .none) {t : ℕ} {a : After}
    (ht : s.conts t ≠ .none) :
    KnownIds sz (s.land t a).k fun id => (s.land t a).conts id ≠ .none := by
  have hiff : ∀ id, (s.land t a).conts id ≠ .none ↔ s.conts id ≠ .none := by
    intro id
    by_cases hidt : id = t
    · subst hidt
      rw [Sys.land_conts_self]
      simp [ht]
    · rw [Sys.land_conts_of_ne s hidt]
  exact h.mono (fun id hid => (hiff id).mpr hid) fun id hid => h.lt id ((hiff id).mp hid)

end Contexts

end KnownIds

/-! ## The idle slot -/

/-- Some slot other than the idle one is free, or the creation is refused. -/
def RoomBelowIdle (sz : Sizing) (k : Kernel) (a : TaskArgs) : Prop :=
  createdSlot sz k a ≠ none → ∃ i < sz.idleId, k.stateOf i = .unused

instance (sz : Sizing) (k : Kernel) (a : TaskArgs) : Decidable (RoomBelowIdle sz k a) :=
  inferInstanceAs (Decidable (_ → ∃ _ < _, _))

/-- The scan of `hrt_create_task` comes to the idle slot last. -/
theorem RoomBelowIdle.sparesIdle {sz : Sizing} {k : Kernel} {a : TaskArgs}
    (h : RoomBelowIdle sz k a) : SparesIdle sz k a := by
  intro hslot
  obtain ⟨i, hi, hst⟩ := h (by simp [hslot])
  have hbefore := (List.find?_range_eq_some.mp (firstUnused_of_createdSlot hslot)).2.2 i hi
  exact absurd hst (by simpa using hbefore)

/-- **A pick tells idle from busy**: if the idle slot is not in circulation, `HRT_IDLE_ID` is returned
exactly when every ready queue is empty. -/
theorem KnownIds.pick_idle_iff {sz : Sizing} {k : Kernel} {A : ℕ → Prop} (h : KnownIds sz k A)
    (hr : sz.Representable) (hidle : ¬ A sz.idleId) :
    (hrtPickNextReady sz k).1 = sz.idleId ↔ ∀ p < sz.maxPrio, k.readyList sz p = [] := by
  constructor
  · intro hpick
    rcases pick_entry hr h.ready.wf with ⟨hempty, -⟩ | ⟨p, hp, -, hmem, -⟩
    · exact hempty
    · rw [hpick] at hmem
      exact absurd (h.ready.all p hp _ hmem) hidle
  · intro hempty
    rcases pick_entry hr h.ready.wf with ⟨-, heq⟩ | ⟨p, hp, -, hmem, -⟩
    · rw [heq]
    · rw [hempty p hp] at hmem
      exact absurd hmem List.not_mem_nil

/-! ## Contexts are never taken away -/

namespace Sys

variable {sz : Sizing} {port : Port} {s : Sys} {t u : ℕ}

/-- An action of a task leaves every context in place. -/
theorem apply_conts_ne_none {call : Call} {o : Outcome}
    (ho : nextAction sz port t call s.k (s.conts t) = some o) (hu : s.conts u ≠ .none) :
    (s.apply t o).conts u ≠ .none := by
  by_cases hut : u = t
  · rw [hut, apply_conts_self]
    exact (taskEffect ho).cont_ne_none
  · rw [apply_conts_of_ne s hut]
    exact spawned_ne_none.mpr (Or.inl hu)

/-- So does the return from `hrt_port_yield_to_scheduler`. -/
theorem land_conts_ne_none {a : After} (hu : s.conts u ≠ .none) : (s.land t a).conts u ≠ .none := by
  by_cases hut : u = t
  · rw [hut, land_conts_self]
    simp
  · rwa [land_conts_of_ne s hut]

/-- So does a call of `main`. -/
theorem main_conts_ne_none (c : MainCall) (hu : s.conts u ≠ .none) :
    (s.main sz port c).conts u ≠ .none := by
  cases c with
  | createTask a => exact spawned_ne_none.mpr (Or.inl hu)
  | setPolicy p => exact hu
  | setDefaultTimeslice n => exact hu

/-- A call of `main` makes nobody current. -/
theorem main_current (sz : Sizing) (port : Port) (s : Sys) (c : MainCall) :
    (s.main sz port c).k.current = s.k.current := by
  cases c with
  | createTask a => exact (hrtCreateTask_frame sz port a s.k).1
  | setPolicy p => rfl
  | setDefaultTimeslice n => rfl

end Sys

end HardRT
