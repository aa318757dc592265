import HardRT.Protocol.MutexLock
import HardRT.Protocol.QueueChannel
import HardRT.Protocol.SemaphorePool
import HardRT.Spec.Kernel

/-! # The kernel implements its specification

The rings, registers and buffers of the kernel stand for the lists of `Spec.Kernel`, and every function
does to the one what the specification does to the other.

* `Kernel.abs` — the state a kernel stands for.
* `Kernel.Sound` — its data structures are in order: ring registers, ids in range, the bounds of the
  semaphores, the owner fields, the item buffers.
* `Refines sz k a` — both together; each operation of `Core` and `Sync` has a lemma that carries
  `Refines` across it, from `Refines.push` to `Refines.nextAction` and `Refines.isrAction`. -/

namespace HardRT

open Lib

/-! ## Rings of ids -/

/-- **A ring of task ids**: its registers are in order and what it holds are slots of the table. -/
structure IdRing (sz : Sizing) (r : RingBuffer ℕ) : Prop where
  wf : r.WF sz.maxTasks
  ids : ∀ id ∈ r.toList sz.maxTasks, id < sz.maxTasks

namespace IdRing

variable {sz : Sizing} {r : RingBuffer ℕ} {id : ℕ}

/-- A ring whose registers are zero, whatever its cells hold. -/
theorem zero (sz : Sizing) (buf : ℕ → ℕ) : IdRing sz ⟨buf, 0, 0, 0⟩ :=
  ⟨.zero sz.maxTasks_pos buf, fun id hid => absurd hid (by simp)⟩

/-- Storing in a ring with room. -/
theorem put (h : IdRing sz r) (hr : sz.Representable) (hid : id < sz.maxTasks)
    (hlt : r.count < sz.maxTasks) : IdRing sz (r.put 256 sz.maxTasks id) := by
  refine ⟨h.wf.put hr.lt hlt id, fun j hj => ?_⟩
  rw [RingBuffer.toList_put h.wf hr.lt hlt, List.mem_append, List.mem_singleton] at hj
  rcases hj with hj | rfl
  · exact h.ids j hj
  · exact hid

/-- **A push is an `enlist`.** -/
theorem push (h : IdRing sz r) (hr : sz.Representable) (hid : id < sz.maxTasks) :
    IdRing sz (r.push 256 sz.maxTasks id) ∧
    (r.push 256 sz.maxTasks id).toList sz.maxTasks = Spec.enlist sz id (r.toList sz.maxTasks) := by
  unfold RingBuffer.push Spec.enlist
  rw [RingBuffer.length_toList]
  by_cases hfull : sz.maxTasks ≤ r.count
  · rw [if_pos hfull, if_neg (Nat.not_lt.mpr hfull)]
    exact ⟨h, rfl⟩
  · have hlt := Nat.not_le.mp hfull
    rw [if_neg hfull, if_pos hlt]
    exact ⟨h.put hr hid hlt, RingBuffer.toList_put h.wf hr.lt hlt id⟩

/-- **A pop takes the head of the list**, if it has one. -/
theorem pop (h : IdRing sz r) (hr : sz.Representable) :
    (r.toList sz.maxTasks = [] ∧ r.pop 256 sz.maxTasks = (none, r)) ∨
    ∃ id r', r.pop 256 sz.maxTasks = (some id, r') ∧ IdRing sz r' ∧ id < sz.maxTasks ∧
      r.toList sz.maxTasks = id :: r'.toList sz.maxTasks := by
  by_cases hc : r.count = 0
  · exact Or.inl ⟨RingBuffer.toList_eq_nil_iff.mpr hc, if_pos hc⟩
  · have hlist := RingBuffer.toList_drop h.wf hr.lt.le hc
    refine Or.inr ⟨r.buf r.head, r.drop 256 sz.maxTasks, if_neg hc,
      ⟨h.wf.drop hr.lt.le hc, fun j hj => h.ids j ?_⟩, h.ids _ ?_, hlist⟩
    · rw [hlist]
      exact List.mem_cons_of_mem _ hj
    · rw [hlist]
      exact List.mem_cons_self

end IdRing

/-! ## The abstraction -/

/-- The mutex of the specification. -/
def Mutex.abs (sz : Sizing) (M : Mutex) : Spec.Mutex := ⟨M.ownerId, M.waitq.toList sz.maxTasks⟩

/-- The queue of the specification. -/
def Queue.abs (sz : Sizing) (Q : Queue) : Spec.Queue := { Q.channel sz with itemSize := Q.itemSize }

/-- **The state a kernel stands for.** -/
def Kernel.abs (sz : Sizing) (k : Kernel) : Spec.Kernel where
  tcbs := k.tcbs
  ready p := k.readyList sz p
  current := k.current
  tick := k.tick
  tickHz := k.tickHz
  policy := k.policy
  defaultSlice := k.defaultSlice
  error := k.error
  pend := k.pend
  sems i := (k.sems i).pool sz
  mutexes i := (k.mutexes i).abs sz
  queues i := (k.queues i).abs sz

section Abs

variable (sz : Sizing) (k : Kernel)

theorem Kernel.abs_setRq (p : ℕ) (r : RingBuffer ℕ) :
    (k.setRq p r).abs sz = (k.abs sz).setReady p (r.toList sz.maxTasks) := by
  have hupd : (k.setRq p r).readyList sz =
      Function.update (k.readyList sz) p (r.toList sz.maxTasks) := by
    funext q
    rw [Kernel.readyList_setRq, Function.update_apply]
  show { k.abs sz with ready := (k.setRq p r).readyList sz } = _
  rw [hupd]
  rfl

theorem Kernel.abs_setSem (i : ℕ) (S : Sem) :
    (k.setSem i S).abs sz = (k.abs sz).setSem i (S.pool sz) := by
  have hupd : (fun j => ((k.setSem i S).sems j).pool sz) =
      Function.update (fun j => (k.sems j).pool sz) i (S.pool sz) :=
    Function.comp_update (Sem.pool sz) k.sems i S
  show { k.abs sz with sems := fun j => ((k.setSem i S).sems j).pool sz } = _
  rw [hupd]
  rfl

theorem Kernel.abs_setMutex (i : ℕ) (M : Mutex) :
    (k.setMutex i M).abs sz = (k.abs sz).setMutex i (M.abs sz) := by
  have hupd : (fun j => ((k.setMutex i M).mutexes j).abs sz) =
      Function.update (fun j => (k.mutexes j).abs sz) i (M.abs sz) :=
    Function.comp_update (Mutex.abs sz) k.mutexes i M
  show { k.abs sz with mutexes := fun j => ((k.setMutex i M).mutexes j).abs sz } = _
  rw [hupd]
  rfl

theorem Kernel.abs_setQueue (i : ℕ) (Q : Queue) :
    (k.setQueue i Q).abs sz = (k.abs sz).setQueue i (Q.abs sz) := by
  have hupd : (fun j => ((k.setQueue i Q).queues j).abs sz) =
      Function.update (fun j => (k.queues j).abs sz) i (Q.abs sz) :=
    Function.comp_update (Queue.abs sz) k.queues i Q
  show { k.abs sz with queues := fun j => ((k.setQueue i Q).queues j).abs sz } = _
  rw [hupd]
  rfl

end Abs

/-! ## Soundness -/

/-- A semaphore in order. -/
structure Sem.Sound (sz : Sizing) (S : Sem) : Prop where
  wf : S.WF
  waitq : IdRing sz S.waitq

/-- A mutex in order: the owner, if there is one, is a slot of the task table. -/
structure Mutex.Sound (sz : Sizing) (M : Mutex) : Prop where
  wf : M.WF
  owner_lt : M.owner < sz.maxTasks
  waitq : IdRing sz M.waitq

/-- `HRT_MUTEX_NO_OWNER` is below every slot. -/
theorem noOwner_lt (n : ℕ) : noOwner < n := by
  simp only [noOwner]
  omega

/-- A message queue in order. -/
structure Queue.Sound (sz : Sizing) (Q : Queue) : Prop where
  wf : Q.WF
  rx : IdRing sz Q.rx
  tx : IdRing sz Q.tx

/-- **The data structures of a kernel are in order.** -/
structure Kernel.Sound (sz : Sizing) (k : Kernel) : Prop where
  ready : ∀ p < sz.maxPrio, IdRing sz (k.rq p)
  sems : ∀ i, (k.sems i).Sound sz
  mutexes : ∀ i, (k.mutexes i).Sound sz
  queues : ∀ i, (k.queues i).Sound sz
  current : ∀ t, k.current = some t → t < sz.maxTasks

/-- A property of all members of a family survives the replacement of one of them. -/
theorem forall_update {α : Type*} {P : α → Prop} {f : ℕ → α} (h : ∀ i, P (f i)) {i : ℕ} {x : α}
    (hx : P x) (j : ℕ) : P (Function.update f i x j) := by
  by_cases hj : j = i
  · rw [hj, Function.update_self]
    exact hx
  · rw [Function.update_of_ne hj]
    exact h j

/-- **The kernel stands for a state of the specification**, and is in order. -/
structure Refines (sz : Sizing) (k : Kernel) (a : Spec.Kernel) : Prop where
  sound : k.Sound sz
  abs : k.abs sz = a

namespace Refines

variable {sz : Sizing} {k : Kernel} {a : Spec.Kernel} {i id t : ℕ}

/-! ## Updates -/

theorem modifyTcb (h : Refines sz k a) (id : ℕ) (f : Tcb → Tcb) :
    Refines sz (k.modifyTcb id f) (a.modifyTcb id f) := by
  obtain ⟨hs, rfl⟩ := h
  exact ⟨⟨hs.ready, hs.sems, hs.mutexes, hs.queues, hs.current⟩, rfl⟩

theorem setState (h : Refines sz k a) (id : ℕ) (st : TaskState) :
    Refines sz (k.setState id st) (a.setState id st) := h.modifyTcb id _

theorem hrtError (h : Refines sz k a) (e : Err) : Refines sz (k.hrtError e) (a.latch e) := by
  obtain ⟨hs, rfl⟩ := h
  exact ⟨⟨hs.ready, hs.sems, hs.mutexes, hs.queues, hs.current⟩, rfl⟩

theorem hrtPendContextSwitch (h : Refines sz k a) :
    Refines sz k.hrtPendContextSwitch a.requestSwitch := by
  obtain ⟨hs, rfl⟩ := h
  exact ⟨⟨hs.ready, hs.sems, hs.mutexes, hs.queues, hs.current⟩, rfl⟩

theorem setRq (h : Refines sz k a) {p : ℕ} {r : RingBuffer ℕ} (hp : IdRing sz r) :
    Refines sz (k.setRq p r) (a.setReady p (r.toList sz.maxTasks)) := by
  obtain ⟨hs, rfl⟩ := h
  refine ⟨⟨fun q hq => ?_, hs.sems, hs.mutexes, hs.queues, hs.current⟩, Kernel.abs_setRq sz k p r⟩
  rw [Kernel.setRq_rq]
  split
  · exact hp
  · exact hs.ready q hq

theorem setSem (h : Refines sz k a) {S : Sem} (hS : S.Sound sz) :
    Refines sz (k.setSem i S) (a.setSem i (S.pool sz)) := by
  obtain ⟨hs, rfl⟩ := h
  exact ⟨⟨hs.ready, forall_update hs.sems hS, hs.mutexes, hs.queues, hs.current⟩,
    Kernel.abs_setSem sz k i S⟩

theorem setMutex (h : Refines sz k a) {M : Mutex} (hM : M.Sound sz) :
    Refines sz (k.setMutex i M) (a.setMutex i (M.abs sz)) := by
  obtain ⟨hs, rfl⟩ := h
  exact ⟨⟨hs.ready, hs.sems, forall_update hs.mutexes hM, hs.queues, hs.current⟩,
    Kernel.abs_setMutex sz k i M⟩

theorem setQueue (h : Refines sz k a) {Q : Queue} (hQ : Q.Sound sz) :
    Refines sz (k.setQueue i Q) (a.setQueue i (Q.abs sz)) := by
  obtain ⟨hs, rfl⟩ := h
  exact ⟨⟨hs.ready, hs.sems, hs.mutexes, forall_update hs.queues hQ, hs.current⟩,
    Kernel.abs_setQueue sz k i Q⟩

theorem setSp (h : Refines sz k a) (id sp : ℕ) :
    Refines sz (HardRT.setSp id sp k) (Spec.setSp id sp a) := by
  unfold HardRT.setSp Spec.setSp
  split
  · exact (h.hrtError _).modifyTcb id _
  · exact h.modifyTcb id _

/-! ## Tasks -/

/-- `rq_push`. -/
theorem push (h : Refines sz k a) (hr : sz.Representable) (hid : id < sz.maxTasks) (p : ℕ) :
    Refines sz (rqPush sz p id k) (Spec.push sz p id a) := by
  unfold rqPush Spec.push
  by_cases hp : sz.maxPrio ≤ p
  · rw [if_pos hp, if_neg (Nat.not_lt.mpr hp)]
    exact h.hrtError _
  · have hp' := Nat.not_le.mp hp
    have hlen : (a.ready p).length = (k.rq p).count := by
      rw [← h.abs]
      exact RingBuffer.length_toList _ _
    rw [if_neg hp, if_pos hp', hlen]
    by_cases hfull : sz.maxTasks ≤ (k.rq p).count
    · rw [if_pos hfull, if_neg (Nat.not_lt.mpr hfull)]
      exact h.hrtError _
    · have hlt := Nat.not_le.mp hfull
      have hring := h.sound.ready p hp'
      have hset := h.setRq (p := p) (hring.put hr hid hlt)
      rw [RingBuffer.toList_put hring.wf hr.lt hlt] at hset
      rw [if_neg hfull, if_pos hlt, hr.mod_eq hid, ← h.abs]
      rw [← h.abs] at hset
      exact hset

/-- The control blocks are the same on both sides. -/
theorem tcbs (h : Refines sz k a) : a.tcbs = k.tcbs := by rw [← h.abs]; rfl

/-- So are the states of the tasks. -/
theorem stateOf (h : Refines sz k a) (id : ℕ) : a.stateOf id = k.stateOf id := by
  rw [← h.abs]
  rfl

/-- `hrt__make_ready`. -/
theorem makeReady (h : Refines sz k a) (hr : sz.Representable) (hid : id < sz.maxTasks) :
    Refines sz (hrtMakeReady sz id k) (Spec.makeReady sz id a) := by
  have hp : ((k.modifyTcb id Tcb.refill).tcbs id).prio = (a.tcbs id).prio := by
    rw [h.tcbs]
    simp [Kernel.modifyTcb, Tcb.refill]
  have hpush := (h.modifyTcb id Tcb.refill).push hr hid (a.tcbs id).prio
  rw [← hp] at hpush
  rw [Spec.makeReady, ← hp]
  exact hpush

/-- The second half of filling a slot is `hrt__make_ready`. -/
theorem fillSlot_makeReady (sz : Sizing) (port : Port) (args : TaskArgs) (id : ℕ) (k : Kernel) :
    HardRT.fillSlot sz port args id k = hrtMakeReady sz id (clearAndFill port args id k) := rfl

/-- The creation of a task in a free slot. -/
theorem fillSlot (h : Refines sz k a) (hr : sz.Representable) (hid : id < sz.maxTasks) (port : Port)
    (args : TaskArgs) :
    Refines sz (HardRT.fillSlot sz port args id k) (Spec.fillSlot sz port args id a) := by
  have htcb : args.tcb k = Spec.newTcb args a := by
    rw [← h.abs]
    rfl
  rw [fillSlot_makeReady]
  unfold Spec.fillSlot clearAndFill
  rw [← htcb]
  have hnew := h.modifyTcb id fun _ => args.tcb k
  rcases port.prepareTaskStack args.stackWords args.nWords with e | sp
  · exact (hnew.hrtError e).makeReady hr hid
  · cases sp with
    | none => exact hnew.makeReady hr hid
    | some sp => exact (hnew.setSp id sp).makeReady hr hid

/-- `hrt_create_task`. -/
theorem createTask (h : Refines sz k a) (hr : sz.Representable) (port : Port) (args : TaskArgs) :
    (hrtCreateTask sz port args k).1 = (Spec.createTask sz port args a).1 ∧
    Refines sz (hrtCreateTask sz port args k).2 (Spec.createTask sz port args a).2 := by
  have hfirst : Spec.firstUnused sz a = HardRT.firstUnused sz k := by
    rw [← h.abs]
    rfl
  unfold hrtCreateTask Spec.createTask
  rw [hfirst]
  split
  · exact ⟨rfl, h.hrtError _⟩
  · cases hid : HardRT.firstUnused sz k with
    | none => exact ⟨rfl, h.hrtError _⟩
    | some id =>
        exact ⟨rfl, h.fillSlot hr (List.mem_range.mp (List.mem_of_find?_eq_some hid)) port args⟩

/-- `hrt_sleep`. -/
theorem sleep (h : Refines sz k a) (me ms : ℕ) :
    Refines sz (hrtSleepBody me ms k) (Spec.sleep me ms a) := by
  have hsleep := h.modifyTcb me fun t =>
    { t with wakeTick := (k.tick + hrtMsToTicks ms k.tickHz) % 2 ^ 32, state := .sleep }
  obtain ⟨hs, rfl⟩ := h
  rw [hrtSleepBody_eq]
  exact hsleep

/-- A ready task is rotated. -/
theorem rotate (h : Refines sz k a) (hr : sz.Representable) (hid : id < sz.maxTasks) :
    Refines sz (rqPush sz ((k.modifyTcb id fun t => { t with sliceLeft := t.timesliceCfg }).tcbs id).prio
      id (k.modifyTcb id fun t => { t with sliceLeft := t.timesliceCfg })) (Spec.rotate sz id a) := by
  have hp : ((k.modifyTcb id fun t => { t with sliceLeft := t.timesliceCfg }).tcbs id).prio =
      (a.tcbs id).prio := by
    rw [h.tcbs]
    simp [Kernel.modifyTcb]
  rw [hp]
  exact (h.modifyTcb id _).push hr hid _

/-- `hrt_yield`. -/
theorem yield (h : Refines sz k a) (hr : sz.Representable) (hid : id < sz.maxTasks) :
    Refines sz (hrtYieldBody sz id k) (Spec.yield sz id a) := by
  unfold hrtYieldBody Spec.yield
  rw [h.stateOf]
  split
  · exact h.rotate hr hid
  · exact h

/-! ## Scheduling -/

/-- `hrt__pick_next_ready`. -/
theorem pick (h : Refines sz k a) (hr : sz.Representable) :
    (hrtPickNextReady sz k).1 = (Spec.pick sz a).1 ∧
    Refines sz (hrtPickNextReady sz k).2 (Spec.pick sz a).2 ∧
    (hrtPickNextReady sz k).1 < sz.maxTasks := by
  have hready : a.ready = k.readyList sz := by
    rw [← h.abs]
    rfl
  unfold Spec.pick
  rw [hready]
  rcases pickNextReady_spec hr fun p hp => (h.sound.ready p hp).wf with
    ⟨hempty, heq⟩ | ⟨p, id, rest, hp, hpre, hl, heq⟩
  · have hfind : (List.range sz.maxPrio).find? (fun p => !(k.readyList sz p).isEmpty) = none := by
      rw [List.find?_eq_none]
      intro q hq
      simp [hempty q (List.mem_range.mp hq)]
    rw [heq, hfind]
    exact ⟨rfl, h, sz.idleId_lt⟩
  · have hfind : (List.range sz.maxPrio).find? (fun p => !(k.readyList sz p).isEmpty) = some p := by
      rw [List.find?_range_eq_some]
      exact ⟨by simp [hl], List.mem_range.mpr hp, fun q hq => by simp [hpre q hq]⟩
    have hring := h.sound.ready p hp
    rcases hring.pop hr with ⟨hnil, -⟩ | ⟨id', r', hpop, hr', hid, hlist⟩
    · exact absurd (hnil.symm.trans hl) (by simp)
    · -- the ring left is the one without its head
      have hcons := List.cons.inj (hlist.symm.trans hl)
      have hdrop : r' = (k.rq p).drop 256 sz.maxTasks := by
        rw [RingBuffer.pop, if_neg (count_ne_zero_of_cons hl), Prod.mk.injEq] at hpop
        exact hpop.2.symm
      have hset := h.setRq (p := p) hr'
      rw [hcons.2, hdrop] at hset
      rw [heq, hfind]
      simp only [hl]
      exact ⟨rfl, hset, hcons.1 ▸ hid⟩

/-- The outgoing half of `hrt__schedule`. -/
theorem saveOutgoing (h : Refines sz k a) (hr : sz.Representable) (oldSp : ℕ) :
    Refines sz (HardRT.saveOutgoing sz oldSp k) (Spec.saveOutgoing sz oldSp a) := by
  unfold HardRT.saveOutgoing Spec.saveOutgoing
  by_cases h0 : oldSp = 0
  · rw [if_pos h0, if_pos h0]
    exact h
  · have hcur : a.current = k.current := by rw [← h.abs]; rfl
    rw [if_neg h0, if_neg h0, hcur]
    cases hc : k.current with
    | none => exact h
    | some cur =>
        have hset := h.setSp cur oldSp
        unfold Spec.setSp at hset
        rw [if_neg h0] at hset
        simp only
        rw [hset.stateOf, hset.tcbs]
        split
        · exact hset.push hr (h.sound.current cur hc) _
        · exact hset

/-- `hrt__schedule`. -/
theorem schedule (h : Refines sz k a) (hr : sz.Representable) (oldSp : ℕ) :
    Refines sz (hrtSchedule sz oldSp k).2 (Spec.schedule sz oldSp a) := by
  obtain ⟨hfst, hsnd, hlt⟩ := (h.saveOutgoing hr oldSp).pick hr
  unfold hrtSchedule Spec.schedule
  simp only
  rw [← hfst, ← hsnd.abs]
  obtain ⟨hs, -⟩ := hsnd
  exact ⟨⟨hs.ready, hs.sems, hs.mutexes, hs.queues, fun t ht => Option.some.inj ht ▸ hlt⟩, rfl⟩

/-- `hrt__on_scheduler_entry`. -/
theorem schedulerEntry (h : Refines sz k a) (hr : sz.Representable) :
    Refines sz (hrtOnSchedulerEntry sz k) (Spec.schedulerEntry sz a) := by
  have hcur : a.current = k.current := by rw [← h.abs]; rfl
  have hpol : a.policy = k.policy := by rw [← h.abs]; rfl
  unfold hrtOnSchedulerEntry Spec.schedulerEntry
  rw [hcur]
  cases hc : k.current with
  | none => exact h
  | some cur =>
      simp only
      rw [h.stateOf, h.tcbs, hpol]
      split
      · exact h.rotate hr (h.sound.current cur hc)
      · exact h

/-! ## Ticks -/

/-- **The wake loop wakes those that are due at its start**: waking one task makes no other due or not
due. -/
theorem foldl_wakeOne (sz : Sizing) (is : List ℕ) (hnd : is.Nodup) (s : Kernel × Bool) :
    is.foldl (wakeOne sz) s =
      ((is.filter fun i => wakesAt s.1 s.1.tick i).foldl (fun k i => hrtMakeReady sz i k) s.1,
        s.2 || is.any fun i => wakesAt s.1 s.1.tick i) := by
  induction is generalizing s with
  | nil => simp
  | cons j is ih =>
      obtain ⟨hj, hnd'⟩ := List.nodup_cons.mp hnd
      rw [List.foldl_cons, ih hnd']
      by_cases hw : wakesAt s.1 s.1.tick j
      · -- the others are due exactly if they were
        have hsame : ∀ i ∈ is, (wakesAt (hrtMakeReady sz j s.1) (hrtMakeReady sz j s.1).tick i ↔
            wakesAt s.1 s.1.tick i) := by
          intro i hi
          have hij : i ≠ j := fun he => hj (he ▸ hi)
          rw [wakesAt, wakesAt, stateOf_hrtMakeReady, if_neg hij, hrtMakeReady_tcbs,
            Function.update_of_ne hij, hrtMakeReady_tick]
        have hfilter : (is.filter fun i =>
            wakesAt (hrtMakeReady sz j s.1) (hrtMakeReady sz j s.1).tick i) =
            is.filter fun i => wakesAt s.1 s.1.tick i :=
          List.filter_congr fun i hi => decide_eq_decide.mpr (hsame i hi)
        rw [wakeOne, if_pos hw]
        simp only
        rw [hfilter]
        simp [hw]
      · rw [wakeOne, if_neg hw]
        simp [hw]

/-- Tasks are made ready one after another. -/
theorem foldl_makeReady (hr : sz.Representable) {is : List ℕ} (his : ∀ i ∈ is, i < sz.maxTasks)
    (h : Refines sz k a) : Refines sz (is.foldl (fun k i => hrtMakeReady sz i k) k)
      (is.foldl (fun a i => Spec.makeReady sz i a) a) := by
  induction is generalizing k a with
  | nil => exact h
  | cons i is ih =>
      exact ih (fun j hj => his j (List.mem_cons_of_mem _ hj))
        (h.makeReady hr (his i List.mem_cons_self))

/-- The wake loop. -/
theorem wakeSleepers (h : Refines sz k a) (hr : sz.Representable) :
    Refines sz (HardRT.wakeSleepers sz k).1 (Spec.wakeDue sz a) ∧
    (HardRT.wakeSleepers sz k).2 = (List.range sz.maxTasks).any a.due := by
  have hdue : (fun i => decide (wakesAt k k.tick i)) = a.due := by
    rw [← h.abs]
    rfl
  unfold HardRT.wakeSleepers Spec.wakeDue
  rw [foldl_wakeOne sz _ List.nodup_range]
  simp only [hdue, Bool.false_or, and_true]
  exact h.foldl_makeReady hr fun i hi => List.mem_range.mp (List.mem_of_mem_filter hi)

/-- The charge for a tick. The current task is in the table. -/
theorem charge (h : Refines sz k a) :
    Refines sz (chargeSlice sz k).1 (Spec.charge a).1 ∧ (chargeSlice sz k).2 = (Spec.charge a).2 := by
  have hcur : a.current = k.current := by rw [← h.abs]; rfl
  have hpol : a.policy = k.policy := by rw [← h.abs]; rfl
  unfold chargeSlice Spec.charge
  rw [hcur]
  cases hc : k.current with
  | none => exact ⟨h.hrtError _, rfl⟩
  | some cur =>
      simp only
      rw [if_neg (Nat.not_le.mpr (h.sound.current cur hc)), h.stateOf, h.tcbs, hpol]
      split
      · exact ⟨h.modifyTcb cur fun t => { t with sliceLeft := t.sliceLeft - 1 }, rfl⟩
      · exact ⟨h, rfl⟩

/-- `hrt__tick_isr`. -/
theorem tickIsr (h : Refines sz k a) (hr : sz.Representable) :
    Refines sz (hrtTickIsr sz k) (Spec.tickIsr sz a) := by
  have hinc : Refines sz (hrtIncTick k) { a with tick := (a.tick + 1) % 2 ^ 32 } := by
    obtain ⟨hs, rfl⟩ := h
    exact ⟨⟨hs.ready, hs.sems, hs.mutexes, hs.queues, hs.current⟩, rfl⟩
  obtain ⟨hwake, hflag⟩ := hinc.wakeSleepers hr
  obtain ⟨hcharge, hflag'⟩ := hwake.charge
  unfold hrtTickIsr Spec.tickIsr
  simp only
  rw [hflag, hflag']
  split
  · exact hcharge.hrtPendContextSwitch
  · exact hcharge

/-! ## Semaphores -/

/-- The semaphore on the other side. -/
theorem sem (h : Refines sz k a) (i : ℕ) : a.sems i = (k.sems i).pool sz := by rw [← h.abs]; rfl

/-- The check of the count in `hrt_sem_try_take` and `hrt_sem_take`. -/
theorem semTryTake (h : Refines sz k a) (i : ℕ) :
    ((k.sems i).count = 0 ∧ Spec.semTryTake i a = none) ∨
    ∃ a', (k.sems i).count ≠ 0 ∧ Spec.semTryTake i a = some a' ∧
      Refines sz (k.setSem i { k.sems i with count := (k.sems i).count - 1 }) a' := by
  have hcount : (a.sems i).count = (k.sems i).count := by rw [h.sem]; rfl
  unfold Spec.semTryTake
  by_cases h0 : (k.sems i).count = 0
  · exact Or.inl ⟨h0, if_pos (hcount.trans h0)⟩
  · rw [if_neg (by rwa [hcount])]
    refine Or.inr ⟨_, h0, rfl, ?_⟩
    obtain ⟨hwf, hring⟩ := h.sound.sems i
    rw [h.sem]
    exact h.setSem ⟨⟨(Nat.sub_le _ _).trans hwf.count_le, hwf.max_pos, hwf.max_le⟩, hring⟩

/-- A task is parked at a semaphore. -/
theorem semPark (h : Refines sz k a) (hr : sz.Representable) (ht : t < sz.maxTasks) (i : ℕ) :
    Refines sz ((k.setSem i (semWaitqPush sz (t % 256) (k.sems i))).setState t .blocked)
      (Spec.semPark sz i t a) := by
  obtain ⟨hwf, hring⟩ := h.sound.sems i
  obtain ⟨hpush, hlist⟩ := hring.push hr ht
  have hset := h.setSem (i := i) (S := semWaitqPush sz t (k.sems i))
    ⟨⟨hwf.count_le, hwf.max_pos, hwf.max_le⟩, hpush⟩
  have hpool : (semWaitqPush sz t (k.sems i)).pool sz = { a.sems i with
      waiters := Spec.enlist sz t (a.sems i).waiters } := by
    rw [h.sem]
    exact congrArg (TokenPool.mk _ _) hlist
  rw [hpool] at hset
  rw [hr.mod_eq ht]
  exact hset.setState t .blocked

/-- `_give_common`. -/
theorem semGive (h : Refines sz k a) (hr : sz.Representable) (i : ℕ) :
    (giveCommonCs sz i k).1 = (Spec.semGive sz i a).1 ∧
    Refines sz (giveCommonCs sz i k).2 (Spec.semGive sz i a).2 := by
  obtain ⟨hwf, hring⟩ := h.sound.sems i
  have hwait : (a.sems i).waiters = (k.sems i).waitq.toList sz.maxTasks := by rw [h.sem]; rfl
  unfold giveCommonCs semWaitqPop Spec.semGive
  rcases hring.pop hr with ⟨hnil, hpop⟩ | ⟨w, r', hpop, hr', hw, hlist⟩
  · -- nobody waits: the token is stored, or dropped
    rw [hwait, hnil, hpop]
    refine ⟨rfl, ?_⟩
    simp only
    rw [h.sem]
    show Refines sz (k.setSem i (if (k.sems i).count < (k.sems i).maxCount then _ else _))
      (if (k.sems i).count < (k.sems i).maxCount then _ else _)
    split
    · rename_i hlt
      have hle := hwf.max_le
      rw [Nat.mod_eq_of_lt (by omega)]
      exact h.setSem (S := { k.sems i with count := (k.sems i).count + 1 })
        ⟨⟨hlt, hwf.max_pos, hwf.max_le⟩, hring⟩
    · have hself : k.setSem i (k.sems i) = k := by
        rw [Kernel.setSem, Function.update_eq_self]
      rw [show ({ k.sems i with waitq := (k.sems i).waitq } : Sem) = k.sems i from rfl, hself]
      exact h
  · rw [hwait, hlist, hpop, h.sem]
    exact ⟨rfl, (h.setSem (S := { k.sems i with waitq := r' }) ⟨⟨hwf.count_le, hwf.max_pos, hwf.max_le⟩,
      hr'⟩).makeReady hr hw⟩

/-! ## Mutexes -/

/-- The mutex on the other side. -/
theorem mutex (h : Refines sz k a) (i : ℕ) : a.mutexes i = (k.mutexes i).abs sz := by rw [← h.abs]; rfl

/-- A mutex gets an owner. -/
theorem own (h : Refines sz k a) (i : ℕ) {t : ℕ} (ht : t < sz.maxTasks) :
    Refines sz (k.setMutex i { k.mutexes i with locked := true, owner := t })
      (a.setMutex i { a.mutexes i with owner := some t }) := by
  have hset := h.setMutex (i := i) (M := { k.mutexes i with locked := true, owner := t })
    ⟨Or.inr ⟨rfl, Int.natCast_nonneg t⟩, Int.ofNat_lt.mpr ht, (h.sound.mutexes i).waitq⟩
  have habs : Mutex.abs sz { k.mutexes i with locked := true, owner := t } =
      { a.mutexes i with owner := some t } := by
    rw [h.mutex]
    exact congrArg (Spec.Mutex.mk · _) (Mutex.ownerId_of_locked rfl rfl)
  rwa [habs] at hset

/-- **The owner field**: a mutex is free, or owned by the caller, or by another task. -/
theorem owner_cases (h : Refines sz k a) (i t : ℕ) :
    ((k.mutexes i).locked = false ∧ (a.mutexes i).owner = none) ∨
    ∃ o : ℕ, (k.mutexes i).locked = true ∧ (k.mutexes i).owner = o ∧
      (a.mutexes i).owner = some o ∧ ((k.mutexes i).owner = t ↔ o = t) := by
  rw [h.mutex]
  rcases (h.sound.mutexes i).wf with ⟨hl, -⟩ | ⟨hl, hpos⟩
  · exact Or.inl ⟨hl, Mutex.ownerId_of_free hl⟩
  · have ho : (k.mutexes i).owner = ((k.mutexes i).owner.toNat : ℤ) := (Int.toNat_of_nonneg hpos).symm
    refine Or.inr ⟨_, hl, ho, Mutex.ownerId_of_locked hl ho, ?_⟩
    omega

/-- `hrt_mutex_try_lock`. -/
theorem mutexTryLock (h : Refines sz k a) (ht : t < sz.maxTasks) (i : ℕ) :
    (hrtMutexTryLock sz i t k).1 = (if (Spec.mutexTryLock i t a).1 then 0 else -1) ∧
    Refines sz (hrtMutexTryLock sz i t k).2 (Spec.mutexTryLock i t a).2 := by
  unfold hrtMutexTryLock Spec.mutexTryLock
  rw [if_neg (Nat.not_le.mpr ht)]
  rcases h.owner_cases i t with ⟨hl, ho⟩ | ⟨o, hl, -, ho, hiff⟩
  · rw [if_pos hl, ho]
    exact ⟨rfl, h.own i ht⟩
  · rw [if_neg (by simp [hl]), ho]
    simp only [hiff]
    split
    · exact ⟨rfl, h.hrtError _⟩
    · exact ⟨rfl, h⟩

/-- The second critical section of `hrt_mutex_lock`. -/
theorem mutexLock (h : Refines sz k a) (hr : sz.Representable) (ht : t < sz.maxTasks) (i : ℕ) :
    (hrtMutexLockCs sz i t k).1 = (Spec.mutexLock sz i t a).1 ∧
    Refines sz (hrtMutexLockCs sz i t k).2 (Spec.mutexLock sz i t a).2 := by
  unfold hrtMutexLockCs Spec.mutexLock
  rcases h.owner_cases i t with ⟨hl, ho⟩ | ⟨o, hl, -, ho, hiff⟩
  · rw [if_pos hl, ho]
    exact ⟨rfl, h.own i ht⟩
  · rw [if_neg (by simp [hl]), ho]
    simp only [hiff]
    split
    · exact ⟨rfl, h.hrtError _⟩
    · obtain ⟨hwf, howner, hring⟩ := h.sound.mutexes i
      obtain ⟨hpush, hlist⟩ := hring.push hr ht
      have hset := h.setMutex (i := i) (M := mutexWaitqPush sz t (k.mutexes i))
        ⟨hwf, howner, hpush⟩
      have habs : (mutexWaitqPush sz t (k.mutexes i)).abs sz = { a.mutexes i with
          waiters := Spec.enlist sz t (a.mutexes i).waiters } := by
        rw [h.mutex]
        exact congrArg (Spec.Mutex.mk _) hlist
      rw [habs] at hset
      rw [hr.mod_eq ht]
      exact ⟨rfl, hset.setState t .blocked⟩

/-- `hrt_mutex_unlock`. -/
theorem mutexUnlock (h : Refines sz k a) (hr : sz.Representable) (ht : t < sz.maxTasks) (i : ℕ) :
    (hrtMutexUnlockCs sz i t k).1 = (Spec.mutexUnlock sz i t a).1 ∧
    Refines sz (hrtMutexUnlockCs sz i t k).2 (Spec.mutexUnlock sz i t a).2 := by
  unfold hrtMutexUnlockCs mutexWaitqPop Spec.mutexUnlock
  rw [if_neg (Nat.not_le.mpr ht)]
  rcases h.owner_cases i t with ⟨hl, ho⟩ | ⟨o, hl, -, ho, hiff⟩
  · rw [if_pos (Or.inl hl), ho, if_neg (by simp)]
    exact ⟨rfl, h.hrtError _⟩
  · by_cases hot : o = t
    · -- the caller is the owner
      rw [if_neg (by simp [hl, hiff, hot]), ho, if_pos (by rw [hot])]
      have hring := (h.sound.mutexes i).waitq
      have hwait : (a.mutexes i).waiters = (k.mutexes i).waitq.toList sz.maxTasks := by
        rw [h.mutex]
        rfl
      rcases hring.pop hr with ⟨hnil, hpop⟩ | ⟨w, r', hpop, hr', hw, hlist⟩
      · have hset := h.setMutex (i := i)
          (M := { k.mutexes i with locked := false, owner := noOwner })
          ⟨Or.inl ⟨rfl, rfl⟩, noOwner_lt sz.maxTasks, hring⟩
        have habs : Mutex.abs sz { k.mutexes i with locked := false, owner := noOwner } =
            ⟨none, []⟩ := by
          rw [Mutex.abs, hnil]
          rfl
        rw [habs] at hset
        rw [hwait, hnil, hpop]
        exact ⟨rfl, hset⟩
      · have hset := h.setMutex (i := i)
          (M := { k.mutexes i with locked := true, owner := w, waitq := r' })
          ⟨Or.inr ⟨rfl, Int.natCast_nonneg w⟩, Int.ofNat_lt.mpr hw, hr'⟩
        have habs : Mutex.abs sz { k.mutexes i with locked := true, owner := w, waitq := r' } =
            ⟨some w, r'.toList sz.maxTasks⟩ :=
          congrArg (Spec.Mutex.mk · _) (Mutex.ownerId_of_locked rfl rfl)
        rw [habs] at hset
        rw [hwait, hlist, hpop]
        exact ⟨rfl, hset.makeReady hr hw⟩
    · rw [if_pos (Or.inr (by rw [Ne, hiff]; exact hot)), ho, if_neg (by simp [hot])]
      exact ⟨rfl, h.hrtError _⟩

/-! ## Message queues -/

/-- The queue on the other side. -/
theorem queue (h : Refines sz k a) (i : ℕ) : a.queues i = (k.queues i).abs sz := by rw [← h.abs]; rfl

/-- Waking a receiver. -/
theorem wakeRx (h : Refines sz k a) (hr : sz.Representable) (i : ℕ) :
    (HardRT.wakeRx sz i k).1 = (Spec.wakeRx sz i a).1 ∧
    Refines sz (HardRT.wakeRx sz i k).2 (Spec.wakeRx sz i a).2 := by
  obtain ⟨hwf, hrx, htx⟩ := h.sound.queues i
  have hwait : (a.queues i).receivers = (k.queues i).rx.toList sz.maxTasks := by rw [h.queue]; rfl
  unfold HardRT.wakeRx wqPop Spec.wakeRx
  rcases hrx.pop hr with ⟨hnil, hpop⟩ | ⟨w, r', hpop, hr', hw, hlist⟩
  · rw [hwait, hnil, hpop]
    refine ⟨rfl, ?_⟩
    show Refines sz (k.setQueue i (k.queues i)) a
    rw [setQueue_self]
    exact h
  · rw [hwait, hlist, hpop, h.queue]
    exact ⟨rfl, (h.setQueue (Q := { k.queues i with rx := r' }) ⟨⟨hwf.items, hwf.capacity_lt⟩, hr',
      htx⟩).makeReady hr hw⟩

/-- Waking a sender. -/
theorem wakeTx (h : Refines sz k a) (hr : sz.Representable) (i : ℕ) :
    (HardRT.wakeTx sz i k).1 = (Spec.wakeTx sz i a).1 ∧
    Refines sz (HardRT.wakeTx sz i k).2 (Spec.wakeTx sz i a).2 := by
  obtain ⟨hwf, hrx, htx⟩ := h.sound.queues i
  have hwait : (a.queues i).senders = (k.queues i).tx.toList sz.maxTasks := by rw [h.queue]; rfl
  unfold HardRT.wakeTx wqPop Spec.wakeTx
  rcases htx.pop hr with ⟨hnil, hpop⟩ | ⟨w, r', hpop, hr', hw, hlist⟩
  · rw [hwait, hnil, hpop]
    refine ⟨rfl, ?_⟩
    show Refines sz (k.setQueue i (k.queues i)) a
    rw [setQueue_self]
    exact h
  · rw [hwait, hlist, hpop, h.queue]
    exact ⟨rfl, (h.setQueue (Q := { k.queues i with tx := r' }) ⟨⟨hwf.items, hwf.capacity_lt⟩, hrx,
      hr'⟩).makeReady hr hw⟩

/-- The critical section of `hrt_queue_try_send`. -/
theorem trySend (h : Refines sz k a) (hr : sz.Representable) (i : ℕ) (item : List UInt8) :
    ((k.queues i).capacity ≤ (k.queues i).count ∧ Spec.trySend sz i item a = none) ∨
    ∃ w k' a', (k.queues i).count < (k.queues i).capacity ∧
      HardRT.wakeRx sz i (k.setQueue i (enqueueCs item (k.queues i)).2) = (w, k') ∧
      Spec.trySend sz i item a = some (w, a') ∧ Refines sz k' a' := by
  obtain ⟨hwf, hrx, htx⟩ := h.sound.queues i
  have hlen : (a.queues i).items.length = (k.queues i).count := by
    rw [h.queue]
    exact Queue.length_contents _
  have hcap : (a.queues i).capacity = (k.queues i).capacity := by rw [h.queue]; rfl
  unfold Spec.trySend
  rw [hlen, hcap]
  by_cases hlt : (k.queues i).count < (k.queues i).capacity
  · -- the item is appended
    obtain ⟨hwf', hcont, -, hcap', hsize, hrx', htx'⟩ := hwf.enqueue hlt item
    have hset := h.setQueue (i := i) (Q := (enqueueCs item (k.queues i)).2)
      ⟨hwf', hrx' ▸ hrx, htx' ▸ htx⟩
    have habs : (enqueueCs item (k.queues i)).2.abs sz = { a.queues i with
        items := (a.queues i).items ++ [itemBytes (a.queues i).itemSize item] } := by
      rw [h.queue]
      simp only [Queue.abs, Queue.channel, hcont, hcap', hsize, hrx', htx']
    rw [habs] at hset
    obtain ⟨hfst, hsnd⟩ := hset.wakeRx hr i
    rw [if_pos hlt]
    exact Or.inr ⟨_, _, _, hlt, Prod.mk.eta.symm, congrArg some (Prod.ext hfst.symm rfl), hsnd⟩
  · exact Or.inl ⟨Nat.not_lt.mp hlt, if_neg hlt⟩

/-- The critical section of `hrt_queue_try_recv`. -/
theorem tryRecv (h : Refines sz k a) (hr : sz.Representable) (i : ℕ) :
    ((k.queues i).count = 0 ∧ Spec.tryRecv sz i a = none) ∨
    ∃ bytes w k' a', (k.queues i).count ≠ 0 ∧ (dequeueCs (k.queues i)).2.1 = bytes ∧
      HardRT.wakeTx sz i (k.setQueue i (dequeueCs (k.queues i)).2.2) = (w, k') ∧
      Spec.tryRecv sz i a = some (bytes, w, a') ∧ Refines sz k' a' := by
  obtain ⟨hwf, hrx, htx⟩ := h.sound.queues i
  have hitems : (a.queues i).items = (k.queues i).contents := by rw [h.queue]; rfl
  unfold Spec.tryRecv
  rw [hitems]
  by_cases hc : (k.queues i).count = 0
  · have hnil : (k.queues i).contents = [] := by
      rw [← List.length_eq_zero_iff, Queue.length_contents]
      exact hc
    rw [hnil]
    exact Or.inl ⟨hc, rfl⟩
  · -- the head is removed
    obtain ⟨hwf', hcont, -, hcap', hsize, hrx', htx'⟩ := hwf.dequeue hc
    have hset := h.setQueue (i := i) (Q := (dequeueCs (k.queues i)).2.2)
      ⟨hwf', hrx' ▸ hrx, htx' ▸ htx⟩
    have habs : (dequeueCs (k.queues i)).2.2.abs sz = { a.queues i with
        items := (dequeueCs (k.queues i)).2.2.contents } := by
      rw [h.queue]
      simp only [Queue.abs, Queue.channel, hcap', hsize, hrx', htx']
    rw [habs] at hset
    obtain ⟨hfst, hsnd⟩ := hset.wakeTx hr i
    rw [hcont]
    exact Or.inr ⟨_, _, _, _, hc, rfl, Prod.mk.eta.symm,
      congrArg (fun w => some (_, w)) (Prod.ext hfst.symm rfl), hsnd⟩

/-- A task is parked at a queue. -/
theorem parkTx (h : Refines sz k a) (hr : sz.Representable) (ht : t < sz.maxTasks) (i : ℕ) :
    Refines sz ((k.setQueue i { k.queues i with tx := wqPush sz (t % 256) (k.queues i).tx }).setState t
      .blocked) (Spec.parkTx sz i t a) := by
  obtain ⟨hwf, hrx, htx⟩ := h.sound.queues i
  obtain ⟨hpush, hlist⟩ := htx.push hr ht
  have hset := h.setQueue (i := i) (Q := { k.queues i with tx := wqPush sz t (k.queues i).tx })
    ⟨⟨hwf.items, hwf.capacity_lt⟩, hrx, hpush⟩
  have habs : Queue.abs sz { k.queues i with tx := wqPush sz t (k.queues i).tx } = { a.queues i with
      senders := Spec.enlist sz t (a.queues i).senders } := by
    rw [h.queue]
    simp only [Queue.abs, Queue.channel, wqPush, hlist]
    rfl
  rw [habs] at hset
  rw [hr.mod_eq ht]
  exact hset.setState t .blocked

theorem parkRx (h : Refines sz k a) (hr : sz.Representable) (ht : t < sz.maxTasks) (i : ℕ) :
    Refines sz ((k.setQueue i { k.queues i with rx := wqPush sz (t % 256) (k.queues i).rx }).setState t
      .blocked) (Spec.parkRx sz i t a) := by
  obtain ⟨hwf, hrx, htx⟩ := h.sound.queues i
  obtain ⟨hpush, hlist⟩ := hrx.push hr ht
  have hset := h.setQueue (i := i) (Q := { k.queues i with rx := wqPush sz t (k.queues i).rx })
    ⟨⟨hwf.items, hwf.capacity_lt⟩, hpush, htx⟩
  have habs : Queue.abs sz { k.queues i with rx := wqPush sz t (k.queues i).rx } = { a.queues i with
      receivers := Spec.enlist sz t (a.queues i).receivers } := by
    rw [h.queue]
    simp only [Queue.abs, Queue.channel, wqPush, hlist]
    rfl
  rw [habs] at hset
  rw [hr.mod_eq ht]
  exact hset.setState t .blocked

end Refines

end HardRT
