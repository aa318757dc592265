import HardRT.Lib.Partition
import HardRT.System.Interleave

/-! # Blocked tasks and wait FIFOs

A task is blocked exactly while it is in a wait FIFO, and then it is in one FIFO only, once. The
invariant `BlockedPartition` says so of a kernel state; `BlockedPartition.park` and
`BlockedPartition.wake` are the two ways it moves, and `PartInv` adds what the tasks' continuations must
satisfy for it to be kept by every step of every machine over `Sys`. -/

namespace HardRT

open Lib

/-- **The wait FIFOs partition the blocked tasks**, and their rings are well formed. -/
structure BlockedPartition (sz : Sizing) (k : Kernel) : Prop where
  wf : ∀ w, (k.ring w).WF sz.maxTasks
  part : Partitioned (k.waiters sz) fun id => k.stateOf id = .blocked
  lt : ∀ id, k.stateOf id = .blocked → id < sz.maxTasks

/-- Replacing one ring replaces one list of waiters. -/
theorem waiters_of_ring {sz : Sizing} {k k' : Kernel} {w : WaitQ} {r : RingBuffer ℕ}
    (h : k'.ring = Function.update k.ring w r) :
    k'.waiters sz = Function.update (k.waiters sz) w (r.toList sz.maxTasks) := by
  funext v
  by_cases hv : v = w
  · subst hv; simp [Kernel.waiters, h]
  · simp [Kernel.waiters, h, hv]

/-- A waking takes the head off one well-formed FIFO. -/
theorem Wakes.waiters {sz : Sizing} {k k' : Kernel} {w : WaitQ} {id : ℕ} (hw : Wakes sz w id k k')
    (hr : sz.Representable) (hwf : (k.ring w).WF sz.maxTasks) :
    ∃ rest, k.waiters sz w = id :: rest ∧
      k'.waiters sz = Function.update (k.waiters sz) w rest := by
  obtain ⟨k₁, -, hpop, hring, rfl⟩ := hw
  refine ⟨((k.ring w).pop 256 sz.maxTasks).2.toList sz.maxTasks,
    RingBuffer.toList_of_pop_some hwf hr.lt.le hpop, ?_⟩
  have hring' : (hrtMakeReady sz id k₁).ring =
      Function.update k.ring w ((k.ring w).pop 256 sz.maxTasks).2 := by
    rw [hrtMakeReady_ring, hring]
  exact waiters_of_ring hring'

/-- A waking keeps every FIFO well formed. -/
theorem Wakes.ring_wf {sz : Sizing} {k k' : Kernel} {w : WaitQ} {id : ℕ} (hw : Wakes sz w id k k')
    (hr : sz.Representable) (hwf : ∀ v, (k.ring v).WF sz.maxTasks) (v : WaitQ) :
    (k'.ring v).WF sz.maxTasks := by
  obtain ⟨k₁, -, -, hring, rfl⟩ := hw
  rw [hrtMakeReady_ring, hring]
  by_cases hv : v = w
  · subst hv
    rw [Function.update_self]
    exact (hwf v).pop hr.lt.le
  · rw [Function.update_of_ne hv]
    exact hwf v

/-- A parking keeps every FIFO well formed. -/
theorem Parks.ring_wf {sz : Sizing} {k k' : Kernel} {w : WaitQ} {t : ℕ} (hp : Parks sz t w k k')
    (hr : sz.Representable) (hwf : ∀ v, (k.ring v).WF sz.maxTasks) (v : WaitQ) :
    (k'.ring v).WF sz.maxTasks := by
  obtain ⟨k₁, -, hring, rfl⟩ := hp
  rw [Kernel.ring_setState, hring]
  by_cases hv : v = w
  · subst hv
    rw [Function.update_self]
    exact (hwf v).push hr.lt _
  · rw [Function.update_of_ne hv]
    exact hwf v

/-- Task `t` can be parked anywhere: it is a slot of the table and no wait FIFO holds it or is full. -/
structure Parkable (sz : Sizing) (t : ℕ) (k : Kernel) : Prop where
  lt : t < sz.maxTasks
  room : ∀ w, (k.ring w).count < sz.maxTasks
  fresh : ∀ w, t ∉ k.waiters sz w

/-- Pushing such a task appends it. -/
theorem Parkable.toList_push {sz : Sizing} {t : ℕ} {k : Kernel} (h : Parkable sz t k)
    (hr : sz.Representable) {w : WaitQ} (hwf : (k.ring w).WF sz.maxTasks) :
    ((k.ring w).push 256 sz.maxTasks (t % 256)).toList sz.maxTasks = k.waiters sz w ++ [t] := by
  rw [RingBuffer.toList_push_of_lt hwf hr.lt (h.room w), hr.mod_eq h.lt]
  rfl

namespace BlockedPartition

variable {sz : Sizing} {k k' : Kernel}

/-- The invariant reads the rings and who is blocked, nothing else. -/
theorem of_states (h : BlockedPartition sz k) (hring : k'.ring = k.ring)
    (hst : ∀ j, k'.stateOf j = .blocked ↔ k.stateOf j = .blocked) : BlockedPartition sz k' := by
  have hw : k'.waiters sz = k.waiters sz := by
    funext w
    rw [Kernel.waiters, hring]
    rfl
  refine ⟨fun w => hring ▸ h.wf w, ?_, fun j hj => h.lt j ((hst j).mp hj)⟩
  rw [hw]
  exact h.part.congr fun j => (hst j).symm

/-- A waiter is blocked. -/
theorem blocked_of_mem (h : BlockedPartition sz k) {w : WaitQ} {id : ℕ} (hid : id ∈ k.waiters sz w) :
    k.stateOf id = .blocked :=
  (h.part.mem_iff id).mpr ⟨w, hid⟩

/-- **No wait FIFO is full while some task is not blocked**, so parking it succeeds. -/
theorem count_lt (h : BlockedPartition sz k) {t : ℕ} (ht : t < sz.maxTasks)
    (hb : k.stateOf t ≠ .blocked) (w : WaitQ) : (k.ring w).count < sz.maxTasks := by
  rw [← RingBuffer.length_toList sz.maxTasks (k.ring w)]
  refine length_lt_of_notMem (h.part.nodup w) (fun j hj => h.lt j (h.blocked_of_mem hj)) ht ?_
  exact fun hj => hb (h.blocked_of_mem hj)

/-- A task that is not blocked can be parked. -/
theorem parkable (h : BlockedPartition sz k) {t : ℕ} (ht : t < sz.maxTasks)
    (hb : k.stateOf t ≠ .blocked) : Parkable sz t k :=
  ⟨ht, h.count_lt ht hb, fun _ hw => hb (h.blocked_of_mem hw)⟩

/-- The FIFO a task parks on grows by that task at its end; the others stay. -/
theorem waiters_park (h : BlockedPartition sz k) (hr : sz.Representable) {t : ℕ}
    (ht : t < sz.maxTasks) (hb : k.stateOf t ≠ .blocked) {w : WaitQ} (hp : Parks sz t w k k') :
    k'.waiters sz = Function.update (k.waiters sz) w (k.waiters sz w ++ [t]) := by
  obtain ⟨k₁, -, hring, rfl⟩ := hp
  have hring' : (k₁.setState t .blocked).ring =
      Function.update k.ring w ((k.ring w).push 256 sz.maxTasks (t % 256)) := by
    rw [Kernel.ring_setState, hring]
  rw [waiters_of_ring hring', (h.parkable ht hb).toList_push hr (h.wf w)]

/-- **Parking** a task that is not blocked keeps the partition. -/
theorem park (h : BlockedPartition sz k) (hr : sz.Representable) {t : ℕ} (ht : t < sz.maxTasks)
    (hb : k.stateOf t ≠ .blocked) {w : WaitQ} (hp : Parks sz t w k k') : BlockedPartition sz k' := by
  have hwait := h.waiters_park hr ht hb hp
  have hwf := hp.ring_wf hr h.wf
  obtain ⟨k₁, hs, hring, rfl⟩ := hp
  have hst : ∀ j, (k₁.setState t .blocked).stateOf j = .blocked ↔
      (j = t ∨ k.stateOf j = .blocked) := by
    intro j
    rw [Kernel.stateOf_setState, hs.stateOf]
    by_cases hj : j = t <;> simp [hj]
  refine ⟨hwf, ?_, fun j hj => ?_⟩
  · rw [hwait]
    exact (h.part.push hb w).congr fun j => (hst j).symm
  · rcases (hst j).mp hj with rfl | hj
    · exact ht
    · exact h.lt j hj

/-- The FIFO a waiter is popped from loses its head, which is that waiter; the others stay. -/
theorem waiters_wake (h : BlockedPartition sz k) (hr : sz.Representable) {w : WaitQ} {id : ℕ}
    (hw : Wakes sz w id k k') :
    ∃ rest, k.waiters sz w = id :: rest ∧
      k'.waiters sz = Function.update (k.waiters sz) w rest :=
  hw.waiters hr (h.wf w)

/-- **The head of a FIFO is blocked.** -/
theorem blocked_of_pop (h : BlockedPartition sz k) (hr : sz.Representable) {w : WaitQ} {id : ℕ}
    (hpop : ((k.ring w).pop 256 sz.maxTasks).1 = some id) : k.stateOf id = .blocked := by
  have hhead := (RingBuffer.pop_spec (h.wf w) hr.lt.le).1
  obtain ⟨rest, hl⟩ := List.head?_eq_some_iff.mp (hhead.symm.trans hpop)
  exact h.blocked_of_mem (w := w) (by rw [Kernel.waiters, hl]; exact List.mem_cons_self)

/-- **The task a waking makes ready was blocked.** -/
theorem blocked_of_wakes (h : BlockedPartition sz k) (hr : sz.Representable) {w : WaitQ} {id : ℕ}
    (hw : Wakes sz w id k k') : k.stateOf id = .blocked := by
  obtain ⟨rest, hl, -⟩ := h.waiters_wake hr hw
  exact h.blocked_of_mem (hl ▸ List.mem_cons_self)

/-- **Waking** the head of a FIFO keeps the partition. -/
theorem wake (h : BlockedPartition sz k) (hr : sz.Representable) {w : WaitQ} {id : ℕ}
    (hw : Wakes sz w id k k') : BlockedPartition sz k' := by
  have hst : ∀ j, k'.stateOf j = .blocked ↔ (k.stateOf j = .blocked ∧ j ≠ id) := by
    intro j
    rw [hw.stateOf]
    by_cases hj : j = id <;> simp [hj]
  obtain ⟨rest, hl, hwait⟩ := h.waiters_wake hr hw
  refine ⟨hw.ring_wf hr h.wf, ?_, fun j hj => h.lt j ((hst j).mp hj).1⟩
  · rw [hwait]
    exact (h.part.pop hl).congr fun j => (hst j).symm

end BlockedPartition

/-! ## The partition along the steps of a system -/

/-- **The partition, with what the continuations contribute**: only slots of the table have code, and
a task about to enter the second critical section of a blocking call is not blocked. -/
structure PartInv (sz : Sizing) (s : Sys) : Prop where
  part : BlockedPartition sz s.k
  lt : ∀ t, s.conts t ≠ .none → t < sz.maxTasks
  recheck : ∀ t, (s.conts t).rechecks = true → s.k.stateOf t ≠ .blocked

/-- A task about to enter a second critical section can be parked. -/
theorem PartInv.parkable {sz : Sizing} {s : Sys} (h : PartInv sz s) (t : ℕ)
    (hre : (s.conts t).rechecks = true) : Parkable sz t s.k := by
  refine h.part.parkable (h.lt t fun hn => ?_) (h.recheck t hre)
  rw [hn] at hre
  exact absurd hre (by simp [Cont.rechecks])

section Steps

variable {sz : Sizing} {port : Port} {t : ℕ} {k : Kernel} {call : Call} {c : Cont} {o : Outcome}

/-- What one action of a task does to who is blocked: at most the task itself becomes blocked, and not
when it goes on to a second critical section. -/
theorem BlockedPartition.task (h : BlockedPartition sz k) (hr : sz.Representable)
    (ht : t < sz.maxTasks) (hact : c.issues = true → k.stateOf t ≠ .blocked)
    (hre : c.rechecks = true → k.stateOf t ≠ .blocked) (heff : TaskEffect sz port t k call c o) :
    BlockedPartition sz o.k ∧
    (∀ j, j ≠ t → o.k.stateOf j = .blocked → k.stateOf j = .blocked) ∧
    (o.cont.rechecks = true → o.k.stateOf t ≠ .blocked) := by
  -- actions that leave blocked tasks blocked and unblocked ones unblocked
  have hsame : ∀ k' : Kernel, k'.ring = k.ring →
      (∀ j, k'.stateOf j = .blocked ↔ k.stateOf j = .blocked) →
      BlockedPartition sz k' ∧ (∀ j, j ≠ t → k'.stateOf j = .blocked → k.stateOf j = .blocked) :=
    fun k' hring hst => ⟨h.of_states hring hst, fun j _ hj => (hst j).mp hj⟩
  cases heff with
  | @quiet c c' k' evs hq hc hc' =>
      obtain ⟨h1, h2⟩ := hsame _ hq.ring fun j => by rw [hq.same.stateOf]
      refine ⟨h1, h2, fun hre' => ?_⟩
      show k'.stateOf t ≠ .blocked
      rw [hq.same.stateOf]
      rcases hc' with rfl | ⟨-, hiss⟩
      · exact absurd hre' (by simp [Cont.rechecks])
      · exact hact hiss
  | request =>
      obtain ⟨h1, h2⟩ := hsame k.hrtPendContextSwitch (by simp) fun j => Iff.rfl
      exact ⟨h1, h2, fun hre' => absurd hre' (by simp [Cont.rechecks])⟩
  | yield hc =>
      obtain ⟨h1, h2⟩ := hsame (hrtYieldBody sz t k) (hrtYieldBody_ring sz t k)
        fun j => by rw [stateOf_hrtYieldBody]
      exact ⟨h1, h2, fun hre' => absurd hre' (by simp [Cont.rechecks])⟩
  | @sleep ms evs =>
      have hb := hact rfl
      obtain ⟨h1, h2⟩ := hsame (hrtSleepBody t ms k) (by simp [hrtSleepBody_eq]) fun j => by
        by_cases hj : j = t
        · subst hj; simp [hrtSleepBody_eq, hb]
        · simp [hrtSleepBody_eq, hj]
      exact ⟨h1, h2, fun hre' => absurd hre' (by simp [Cont.rechecks])⟩
  | delete hne hcall =>
      have hb := hact rfl
      obtain ⟨h1, h2⟩ := hsame (hrtTaskDeleteBody t k) (by simp [hrtTaskDeleteBody]) fun j => by
        by_cases hj : j = t
        · subst hj; simp [hrtTaskDeleteBody, hb]
        · simp [hrtTaskDeleteBody, hj]
      exact ⟨h1, h2, fun hre' => absurd hre' (by simp [Cont.rechecks])⟩
  | park hc hp =>
      have hb := hre (Cont.rechecks_of_parksIn hc)
      refine ⟨h.park hr ht hb hp, fun j hj hjb => ?_, fun hre' => absurd hre' (by simp [Cont.rechecks])⟩
      rwa [hp.stateOf, if_neg hj] at hjb
  | wake hc hf hw =>
      exact ⟨h.wake hr hw, fun j _ hjb => hw.stateOf_of_ne (by simp) hjb,
        fun hre' => absurd hre' (by simp [Cont.rechecks])⟩
  | wakeOnRecheck hc hw =>
      exact ⟨h.wake hr hw, fun j _ hjb => hw.stateOf_of_ne (by simp) hjb,
        fun hre' => absurd hre' (by simp [Cont.rechecks])⟩
  | @create a evs hcall =>
      obtain ⟨h1, h2⟩ := hsame _ (hrtCreateTask_objects sz port a k).ring
        (hrtCreateTask_blocked_iff sz port a k)
      exact ⟨h1, h2, fun hre' => absurd hre' (by simp [Cont.rechecks])⟩
  | @policy p evs hcall =>
      obtain ⟨h1, h2⟩ := hsame { k with policy := p }
        (Kernel.SameObjects.ring ⟨rfl, rfl, rfl⟩) fun j => Iff.rfl
      exact ⟨h1, h2, fun hre' => absurd hre' (by simp [Cont.rechecks])⟩

/-- A waking leaves the control block of a task that is not blocked alone: the task it wakes was. -/
theorem BlockedPartition.wake_tcb (h : BlockedPartition sz k) (hr : sz.Representable) {w : WaitQ}
    {id j : ℕ} {k' : Kernel} (hw : Wakes sz w id k k') (hj : k.stateOf j ≠ .blocked) :
    k'.tcbs j = k.tcbs j := by
  have hid : j ≠ id := by
    rintro rfl
    exact hj (h.blocked_of_wakes hr hw)
  obtain ⟨k₁, hs, -, -, rfl⟩ := hw
  rw [hrtMakeReady_tcbs, hs.tcbs, Function.update_of_ne hid]

/-- **An action of another task** leaves the control block of a task that is not blocked alone, unless a
task is created in the slot. -/
theorem BlockedPartition.task_tcb (h : BlockedPartition sz k) (hr : sz.Representable)
    (heff : TaskEffect sz port t k call c o) {j : ℕ} (hne : j ≠ t) (hj : k.stateOf j ≠ .blocked)
    (hnew : o.spawn ≠ some j) : o.k.tcbs j = k.tcbs j := by
  cases heff with
  | quiet hq hc hc' => rw [hq.same.tcbs]
  | request => rfl
  | yield hc =>
      simp only [hrtYieldBody]
      split_ifs
      · rw [rqPush_tcbs]
        exact Function.update_of_ne hne _ _
      · rfl
  | sleep => exact hrtSleepBody_tcbs_of_ne t _ k hne
  | delete ht hcall => exact Function.update_of_ne hne _ _
  | park hc hp =>
      obtain ⟨k₁, hs, -, rfl⟩ := hp
      rw [← hs.tcbs]
      exact Function.update_of_ne hne _ _
  | wake hc hf hw => exact h.wake_tcb hr hw hj
  | wakeOnRecheck hc hw => exact h.wake_tcb hr hw hj
  | create hcall =>
      rcases hrtCreateTask_tcbs sz port _ k j with hs | ⟨-, hsome, -⟩
      · exact hs
      · exact absurd hsome hnew
  | policy hcall => rfl

/-- A free slot other than the acting task's stays free unless a task is created in it. -/
theorem BlockedPartition.task_unused (h : BlockedPartition sz k) (hr : sz.Representable)
    (heff : TaskEffect sz port t k call c o) {j : ℕ} (hne : j ≠ t) (hj : k.stateOf j = .unused)
    (hnew : o.spawn ≠ some j) : o.k.stateOf j = .unused := by
  rw [Kernel.stateOf, h.task_tcb hr heff hne (by rw [hj]; simp) hnew]
  exact hj

/-- **An ISR operation** leaves the control block of a task that is not blocked alone. -/
theorem BlockedPartition.isr_tcb (h : BlockedPartition sz k) (hr : sz.Representable) (op : Isr)
    {j : ℕ} (hj : k.stateOf j ≠ .blocked) : (isrAction sz k op).2.1.tcbs j = k.tcbs j := by
  rcases isrEffect sz k op with hq | ⟨id, k', hw, heq⟩
  · rw [hq.same.tcbs]
  · rw [heq]
    show k'.tcbs j = k.tcbs j
    exact h.wake_tcb hr hw hj

/-- An ISR operation leaves a free slot free. -/
theorem BlockedPartition.isr_unused (h : BlockedPartition sz k) (hr : sz.Representable) (op : Isr)
    {j : ℕ} (hj : k.stateOf j = .unused) : (isrAction sz k op).2.1.stateOf j = .unused := by
  rw [Kernel.stateOf, h.isr_tcb hr op (by rw [hj]; simp)]
  exact hj

/-- An ISR operation keeps the partition and blocks nobody. -/
theorem BlockedPartition.isr (h : BlockedPartition sz k) (hr : sz.Representable) (op : Isr) :
    BlockedPartition sz (isrAction sz k op).2.1 ∧
    ∀ j, (isrAction sz k op).2.1.stateOf j = .blocked → k.stateOf j = .blocked := by
  refine ⟨?_, fun j hj => isr_blocked hj⟩
  rcases isrEffect sz k op with hq | ⟨id, k', hw, heq⟩
  · exact h.of_states hq.ring fun j => by rw [hq.same.stateOf]
  · rw [heq]
    exact (h.wake hr hw).of_states (by simp) fun j => Iff.rfl

/-- The slot a task's action builds a context in is a slot of the table. -/
theorem TaskEffect.spawn_lt (heff : TaskEffect sz port t k call c o) {id : ℕ}
    (hid : o.spawn = some id) : id < sz.maxTasks := by
  obtain ⟨a, -, -, hnew⟩ := heff.spawn_eq hid
  exact (hrtCreateTask_some hnew).1

variable {s s' : Sys}

/-- Giving slot `id` a fresh context. -/
theorem PartInv.spawned_lt (h : PartInv sz s) {id : Option ℕ} (hid : ∀ i, id = some i → i < sz.maxTasks)
    (u : ℕ) (hu : s.spawned id u ≠ .none) : u < sz.maxTasks := by
  cases id with
  | none => exact h.lt u hu
  | some i =>
      by_cases hui : u = i
      · exact hui ▸ hid i rfl
      · rw [Sys.spawned, Function.update_of_ne hui] at hu
        exact h.lt u hu

/-- A fresh context is not inside a call. -/
theorem spawned_rechecks {id : Option ℕ} {u : ℕ} (hu : (s.spawned id u).rechecks = true) :
    (s.conts u).rechecks = true := by
  rcases s.spawned_cases id u with h | ⟨-, h⟩
  · rwa [h] at hu
  · rw [h] at hu
    exact absurd hu (by simp [Cont.rechecks])

/-- **An action of a task keeps the partition.** -/
theorem PartInv.task (h : PartInv sz s) (hr : sz.Representable) (hact : s.MayAct t)
    (ho : nextAction sz port t call s.k (s.conts t) = some o) : PartInv sz (s.apply t o) := by
  have heff := taskEffect ho
  have ht : t < sz.maxTasks := by
    refine h.lt t fun hn => ?_
    rw [hn] at ho
    exact absurd ho (by simp [nextAction])
  obtain ⟨hpart, hother, hself⟩ := h.part.task hr ht hact (h.recheck t) heff
  refine ⟨hpart, fun u hu => ?_, fun u hu => ?_⟩
  · by_cases hut : u = t
    · exact hut ▸ ht
    · rw [Sys.apply_conts_of_ne s hut] at hu
      exact h.spawned_lt (fun i hi => heff.spawn_lt hi) u hu
  · by_cases hut : u = t
    · subst hut
      rw [Sys.apply_conts_self] at hu
      exact hself hu
    · rw [Sys.apply_conts_of_ne s hut] at hu
      exact fun hb => h.recheck u (spawned_rechecks hu) (hother u hut hb)

/-- A change that neither touches a FIFO nor blocks or unblocks a task keeps the partition. -/
theorem PartInv.of_states (h : PartInv sz s) (id : Option ℕ)
    (hid : ∀ i, id = some i → i < sz.maxTasks) (hring : s'.k.ring = s.k.ring)
    (hst : ∀ j, s'.k.stateOf j = .blocked ↔ s.k.stateOf j = .blocked)
    (hconts : s'.conts = s.spawned id) : PartInv sz s' := by
  refine ⟨h.part.of_states hring hst, fun u hu => ?_, fun u hu hb => ?_⟩
  · rw [hconts] at hu
    exact h.spawned_lt hid u hu
  · rw [hconts] at hu
    exact h.recheck u (spawned_rechecks hu) ((hst u).mp hb)

/-- An ISR operation keeps the partition. -/
theorem PartInv.isr (h : PartInv sz s) (hr : sz.Representable) (op : Isr) :
    PartInv sz (s.isr sz op) := by
  obtain ⟨hpart, hblk⟩ := h.part.isr hr op
  exact ⟨hpart, h.lt, fun u hu hb => h.recheck u hu (hblk u hb)⟩

/-- A call of `main` keeps the partition. -/
theorem PartInv.main (h : PartInv sz s) (m : MainCall) : PartInv sz (s.main sz port m) := by
  cases m with
  | createTask a =>
      refine h.of_states (hrtCreateTask sz port a s.k).1 (fun i hi => ?_)
        (hrtCreateTask_objects sz port a s.k).ring (hrtCreateTask_blocked_iff sz port a s.k) rfl
      exact (hrtCreateTask_some hi).1
  | setPolicy p =>
      exact h.of_states none (by simp) (Kernel.SameObjects.ring ⟨rfl, rfl, rfl⟩)
        (fun j => Iff.rfl) rfl
  | setDefaultTimeslice n =>
      exact h.of_states none (by simp) (Kernel.SameObjects.ring ⟨rfl, rfl, rfl⟩)
        (fun j => Iff.rfl) rfl

/-- A tick keeps the partition. -/
theorem PartInv.tick (h : PartInv sz s) : PartInv sz (s.tickIsr sz) :=
  h.of_states none (by simp) (Interleave.tickIsr_objects sz s.k).ring
    (hrtTickIsr_blocked_iff sz s.k) rfl

/-- Making a task current keeps the partition. -/
theorem PartInv.setCurrent (h : PartInv sz s) (t : ℕ) : PartInv sz (s.setCurrent t) :=
  h.of_states none (by simp) (Kernel.SameObjects.ring ⟨rfl, rfl, rfl⟩) (fun j => Iff.rfl) rfl

/-- The return from `hrt_port_yield_to_scheduler` keeps the partition. -/
theorem PartInv.land (h : PartInv sz s) {t : ℕ} {a : After} (hc : s.conts t = .hop a) :
    PartInv sz (s.land t a) := by
  refine ⟨h.part, fun u hu => ?_, fun u hu => ?_⟩
  · by_cases hut : u = t
    · exact h.lt u (by rw [hut, hc]; simp)
    · rw [Sys.land_conts_of_ne s hut] at hu
      exact h.lt u hu
  · by_cases hut : u = t
    · rw [hut, Sys.land_conts_self] at hu
      exact absurd hu (by simp [Cont.rechecks])
    · rw [Sys.land_conts_of_ne s hut] at hu
      exact h.recheck u hu

/-- **Whoever executes is not blocked**: a task that enters an API function may act, one that is back
from the scheduler has waited to be made ready, and one inside a second critical section has not parked
yet. -/
theorem PartInv.not_blocked (h : PartInv sz s) {t : ℕ} {c : Call} (hact : s.MayAct t)
    (hwait : WaitsParked s (.task t c)) (hex : (s.conts t).executing = true) :
    s.k.stateOf t ≠ .blocked := by
  cases hc : s.conts t with
  | user => exact hact (by rw [hc]; rfl)
  | resumed a => exact hwait.not_blocked a hc
  | semTake i => exact h.recheck t (by rw [hc]; rfl)
  | mutexLock i => exact h.recheck t (by rw [hc]; rfl)
  | queueSend q item => exact h.recheck t (by rw [hc]; rfl)
  | queueRecv q => exact h.recheck t (by rw [hc]; rfl)
  | _ => rw [hc] at hex; exact absurd hex (by simp [Cont.executing])

/-- **Every step of the interleaving machine keeps the partition.** -/
theorem PartInv.step (hr : sz.Representable) {a : Interleave.Action} (h : PartInv sz s)
    (hstep : Interleave.step sz port s a = some s') : PartInv sz s' := by
  cases a with
  | main c => exact Option.some.inj hstep ▸ h.main c
  | isr op => exact Option.some.inj hstep ▸ h.isr hr op
  | tick => exact Option.some.inj hstep ▸ h.tick
  | sched op =>
      obtain rfl := Option.some.inj hstep
      exact h.of_states none (by simp) (Interleave.SchedOp.run_objects sz s.k op).ring
        (fun j => by rw [Interleave.SchedOp.run_stateOf]) rfl
  | task t c =>
      rcases Interleave.step_task hstep with ⟨o, hact, ho, rfl⟩ | ⟨x, hx, rfl⟩
      · exact (h.setCurrent t).task hr hact ho
      · exact (h.setCurrent t).land hx

end Steps

/-- The partition holds after boot: nobody is blocked and every FIFO is empty. -/
theorem PartInv.boot (sz : Sizing) (port : Port) (cfg : Option KernelConfig) (objs : ObjectSpecs)
    (mem : Kernel) : PartInv sz (Sys.boot sz port cfg objs mem) := by
  have hst : ∀ j, (Sys.boot sz port cfg objs mem).k.stateOf j = .unused :=
    fun j => stateOf_hrtInit sz _ port cfg j
  have hring : ∀ w, ∃ buf, (Sys.boot sz port cfg objs mem).k.ring w = ⟨buf, 0, 0, 0⟩ := by
    intro w
    cases w with
    | sem i =>
        show ∃ buf, ((objs.sem i).apply (mem.sems i)).waitq = _
        cases objs.sem i <;> exact ⟨_, rfl⟩
    | mutex i => exact ⟨_, rfl⟩
    | rx i => exact ⟨_, rfl⟩
    | tx i => exact ⟨_, rfl⟩
  refine ⟨⟨fun w => ?_, Partitioned.empty (fun w => ?_) fun j => ?_, fun j hj => ?_⟩, ?_, ?_⟩
  · obtain ⟨buf, hb⟩ := hring w
    rw [hb]
    exact RingBuffer.WF.zero sz.maxTasks_pos buf
  · obtain ⟨buf, hb⟩ := hring w
    rw [Kernel.waiters, hb]
    exact RingBuffer.toList_zero _ _ _ _
  · rw [hst]
    simp
  · rw [hst] at hj
    exact absurd hj (by simp)
  · intro t ht
    exact absurd rfl ht
  · intro t ht
    exact absurd ht (by simp [Sys.boot, Cont.rechecks])

end HardRT
