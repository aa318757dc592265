import HardRT.System.Effect

/-! # The kernel's unprotected code in pieces

`hrt_yield`, `hrt_sleep` and `hrt_create_task` change the kernel outside of critical sections, and so
does `hrt__tick_isr`. An interrupt may arrive between any two of their stores. Here these bodies are
lists of pieces, each of them one store or a few that no interrupt can tell apart; `rq_push` is its
checks and its three updates.

* `Piece.run` — what one piece does, and what it leaves to do before the rest.
* `yieldPieces`, `sleepPieces`, `createPieces`, `tickPieces` — the bodies; `complete_bodyPieces` and
  `complete_tickPieces` say that a body run to its end is the atomic function.
* `Piece.SparedByTick`, `Piece.SparedByIsr` — the interrupts that commute with a piece: those that do not
  come near the ready queue that the piece updates. -/

namespace HardRT

open Lib

/-! ## The updates of `rq_push` -/

/-- `q->q[q->tail] = id`. -/
def storeId (id : ℕ) (r : RingBuffer ℕ) : RingBuffer ℕ := { r with buf := Function.update r.buf r.tail id }

/-- `q->tail = (q->tail + 1) % HARDRT_MAX_TASKS`. -/
def advanceTail (n : ℕ) (r : RingBuffer ℕ) : RingBuffer ℕ := { r with tail := (r.tail + 1) % n % 256 }

/-- `q->count++`. -/
def incCount (r : RingBuffer ℕ) : RingBuffer ℕ := { r with count := (r.count + 1) % 256 }

/-! ## The pieces -/

/-- One piece of a body. -/
inductive Piece
  /-- `t->slice_left = t->timeslice_cfg`. -/
  | refill (id : ℕ)
  /-- `t->state = HRT_READY`. -/
  | ready (id : ℕ)
  /-- The call `rq_push(t->prio, id)`, with its checks. -/
  | push (id : ℕ)
  /-- `q->q[q->tail] = id`. -/
  | store (p id : ℕ)
  /-- `q->tail = …`. -/
  | tail (p : ℕ)
  /-- `q->count++`. -/
  | count (p : ℕ)
  /-- `t->wake_tick = g_tick + ticks`. -/
  | wakeTick (me ms : ℕ)
  /-- `t->state = HRT_SLEEP`. -/
  | asleep (me : ℕ)
  /-- `hrt_create_task` from `memset` to `hrt_port_prepare_task_stack`. The slot is neither asleep nor
  queued meanwhile, so that no interrupt looks at it. -/
  | fill (a : TaskArgs) (id : ℕ)
  /-- `hrt__inc_tick`. -/
  | incTick
  /-- The wake loop of `hrt__tick_isr` at the first of the slots still to be looked at; the flag is
  `triggerPendSV`. -/
  | wake (is : List ℕ) (trigger : Bool)
  /-- The quantum accounting of `hrt__tick_isr`. -/
  | charge (trigger : Bool)
  /-- `hrt__pend_context_switch`. -/
  | pend
  deriving DecidableEq, Repr

/-- The end of `hrt__tick_isr`, after the wake loop. -/
def finishTick (sz : Sizing) (w : Kernel × Bool) : Kernel :=
  let c := chargeSlice sz w.1
  if w.2 || c.2 then c.1.hrtPendContextSwitch else c.1

namespace Piece

/-- **One piece**: the kernel after it, and the pieces that it puts before those still to come. -/
def run (sz : Sizing) (port : Port) : Piece → Kernel → Kernel × List Piece
  | .refill id, k => (k.modifyTcb id fun t => { t with sliceLeft := t.timesliceCfg }, [])
  | .ready id, k => (k.setState id .ready, [])
  | .push id, k =>
      let p := (k.tcbs id).prio
      -- the checks are made once; the updates that follow do not repeat them
      if sz.maxPrio ≤ p then (k.hrtError .invalidPrio, [])
      else if sz.maxTasks ≤ (k.rq p).count then (k.hrtError .rqOverflow, [])
      else (k, [.store p id, .tail p, .count p])
  | .store p id, k => (k.setRq p (storeId (id % 256) (k.rq p)), [])
  | .tail p, k => (k.setRq p (advanceTail sz.maxTasks (k.rq p)), [])
  | .count p, k => (k.setRq p (incCount (k.rq p)), [])
  | .wakeTick me ms, k => (storeWakeTick me ms k, [])
  | .asleep me, k => (storeSleep me k, [])
  | .fill a id, k => (clearAndFill port a id k, [])
  | .incTick, k => (hrtIncTick k, [])
  | .wake [] trigger, k => (k, [.charge trigger])
  | .wake (i :: is) trigger, k =>
      -- `hrt__make_ready` of a due sleeper, before the next slot is looked at
      if wakesAt k k.tick i then (k, [.ready i, .refill i, .push i, .wake is true])
      else (k, [.wake is trigger])
  | .charge trigger, k =>
      let c := chargeSlice sz k
      (c.1, if trigger || c.2 then [.pend] else [])
  | .pend, k => (k.hrtPendContextSwitch, [])

/-- **A piece with all that it brings.** -/
def effect (sz : Sizing) (port : Port) : Piece → Kernel → Kernel
  | .push id, k => rqPush sz (k.tcbs id).prio id k
  | .wake is trigger, k => finishTick sz (is.foldl (wakeOne sz) (k, trigger))
  | .charge trigger, k => finishTick sz (k, trigger)
  | c, k => (c.run sz port k).1

end Piece

/-- The kernel after the pieces `ps`. -/
def completePieces (sz : Sizing) (port : Port) (ps : List Piece) (k : Kernel) : Kernel :=
  ps.foldl (fun k c => c.effect sz port k) k

section Complete

variable {sz : Sizing} {port : Port}

theorem completePieces_append (ps qs : List Piece) (k : Kernel) :
    completePieces sz port (ps ++ qs) k = completePieces sz port qs (completePieces sz port ps k) :=
  List.foldl_append

/-- The three updates are the put of an accepted push. -/
theorem complete_updates (p id : ℕ) (k : Kernel) :
    completePieces sz port [.store p id, .tail p, .count p] k =
      k.setRq p ((k.rq p).put 256 sz.maxTasks (id % 256)) := by
  simp [completePieces, Piece.effect, Piece.run, Kernel.setRq, storeId, advanceTail, incCount,
    RingBuffer.put]

/-- `hrt__make_ready` in pieces. -/
theorem complete_makeReady (id : ℕ) (k : Kernel) :
    completePieces sz port [.ready id, .refill id, .push id] k = hrtMakeReady sz id k := by
  simp [completePieces, Piece.effect, Piece.run, hrtMakeReady, markReady, Tcb.refill, Kernel.setState,
    Kernel.modifyTcb]

/-- **A piece and what it brings** have the effect of the piece. -/
theorem complete_run (c : Piece) (k : Kernel) :
    completePieces sz port (c.run sz port k).2 (c.run sz port k).1 = c.effect sz port k := by
  cases c with
  | push id =>
      simp only [Piece.run, Piece.effect, rqPush]
      split_ifs
      · rfl
      · rfl
      · exact complete_updates _ _ _
  | wake is trigger =>
      cases is with
      | nil => rfl
      | cons i is =>
          simp only [Piece.run, Piece.effect, List.foldl_cons, wakeOne]
          split_ifs
          · show completePieces sz port ([.ready i, .refill i, .push i] ++ [.wake is true]) k = _
            rw [completePieces_append, complete_makeReady]
            rfl
          · rfl
  | charge trigger =>
      simp only [Piece.run, Piece.effect, finishTick]
      split_ifs <;> rfl
  | _ => rfl

end Complete

/-! ## The bodies -/

/-- `hrt_yield` from the state test to the reschedule request; the test has been made. -/
def yieldPieces (me : ℕ) (k : Kernel) : List Piece :=
  if k.stateOf me = .ready then [.refill me, .push me] else []

/-- `hrt_sleep` up to the reschedule request. -/
def sleepPieces (me ms : ℕ) : List Piece := [.wakeTick me ms, .asleep me]

/-- `hrt_create_task` once the arguments have been checked and the slot has been found. -/
def createPieces (sz : Sizing) (a : TaskArgs) (k : Kernel) : List Piece :=
  (createdSlot sz k a).elim [] fun id => [.fill a id, .ready id, .refill id, .push id]

/-- `hrt__tick_isr`. -/
def tickPieces (sz : Sizing) : List Piece := [.incTick, .wake (List.range sz.maxTasks) false]

/-- The unprotected part of the next action of task `t`; empty if there is none. -/
def bodyPieces (sz : Sizing) (t : ℕ) (c : Call) (k : Kernel) : Cont → List Piece
  | .user =>
      match c with
      | .yield => yieldPieces t k
      | .sleep ms => sleepPieces t ms
      | .createTask a => createPieces sz a k
      | _ => []
  | .yield _ => yieldPieces t k
  | _ => []

section Bodies

variable {sz : Sizing} {port : Port} {k : Kernel}

/-- **`hrt_yield` in pieces.** -/
theorem complete_yieldPieces (me : ℕ) :
    completePieces sz port (yieldPieces me k) k = hrtYieldBody sz me k := by
  unfold yieldPieces hrtYieldBody
  split_ifs <;> rfl

/-- **`hrt_create_task` in pieces**, if it comes to a slot. -/
theorem complete_createPieces {a : TaskArgs} (hne : createPieces sz a k ≠ []) :
    completePieces sz port (createPieces sz a k) k = (hrtCreateTask sz port a k).2 := by
  unfold createPieces at hne ⊢
  cases hslot : createdSlot sz k a with
  | none => simp [hslot] at hne
  | some id =>
      -- the call is not refused, and `id` is the slot that it fills
      obtain ⟨hvalid, hfirst⟩ : a.Valid ∧ firstUnused sz k = some id := by
        unfold createdSlot at hslot
        split_ifs at hslot with hv
        exact ⟨hv, hslot⟩
      have hargs : ¬ (a.fn = 0 ∨ a.stackWords = 0 ∨ a.nWords < 64) := by
        rintro (h | h | h)
        · exact hvalid.1 h
        · exact hvalid.2.1 h
        · exact absurd hvalid.2.2 (by omega)
      rw [hrtCreateTask, if_neg hargs, hfirst]
      show completePieces sz port [.ready id, .refill id, .push id] (clearAndFill port a id k) = _
      rw [complete_makeReady]
      rfl

/-- **The unprotected part of an action, run to its end**, is all that the action does to the kernel. -/
theorem complete_bodyPieces {t : ℕ} {c : Call} {cont : Cont} {o : Outcome}
    (ho : nextAction sz port t c k cont = some o) (hne : bodyPieces sz t c k cont ≠ []) :
    completePieces sz port (bodyPieces sz t c k cont) k = o.k := by
  cases cont with
  | user =>
      obtain rfl := Option.some.inj ho
      cases c with
      | yield => exact complete_yieldPieces t
      | sleep ms => rfl
      | createTask a => exact complete_createPieces hne
      | _ => exact absurd rfl hne
  | yield a =>
      obtain rfl := Option.some.inj ho
      exact complete_yieldPieces t
  | _ => exact absurd rfl hne

/-- **`hrt__tick_isr` in pieces.** -/
theorem complete_tickPieces : completePieces sz port (tickPieces sz) k = hrtTickIsr sz k := rfl

end Bodies

/-! ## Changes that the scheduler does not see -/

/-- **A change that the scheduler does not see** except in the ready queues where `hit` holds: the control
blocks, the clock and the other queues are as before, and writing to them commutes with the change. -/
structure Unseen (hit : ℕ → Prop) (T : Kernel → Kernel) : Prop where
  tcbs : ∀ k, (T k).tcbs = k.tcbs
  current : ∀ k, (T k).current = k.current
  tick : ∀ k, (T k).tick = k.tick
  tickHz : ∀ k, (T k).tickHz = k.tickHz
  policy : ∀ k, (T k).policy = k.policy
  defaultSlice : ∀ k, (T k).defaultSlice = k.defaultSlice
  rq : ∀ k p, ¬ hit p → (T k).rq p = k.rq p
  modifyTcb : ∀ k id f, T (k.modifyTcb id f) = (T k).modifyTcb id f
  setRq : ∀ k p r, ¬ hit p → T (k.setRq p r) = (T k).setRq p r
  hrtError : ∀ k e, T (k.hrtError e) = (T k).hrtError e
  pend : ∀ k, T k.hrtPendContextSwitch = (T k).hrtPendContextSwitch
  incTick : ∀ k, T (hrtIncTick k) = hrtIncTick (T k)

namespace Unseen

variable {sz : Sizing} {port : Port} {hit : ℕ → Prop} {T : Kernel → Kernel} {k : Kernel}

/-- Replacing a ready ring is seen in that ring only. -/
theorem ofRing (p : ℕ) (r : RingBuffer ℕ) : Unseen (· = p) (·.setRq p r) where
  tcbs _ := rfl
  current _ := rfl
  tick _ := rfl
  tickHz _ := rfl
  policy _ := rfl
  defaultSlice _ := rfl
  rq _ _ h := Function.update_of_ne h _ _
  modifyTcb _ _ _ := rfl
  setRq k q x h := by simp only [Kernel.setRq, Function.update_comm h]
  hrtError _ _ := rfl
  pend _ := rfl
  incTick _ := rfl

/-- Replacing kernel objects is not seen at all. -/
theorem ofObjects (sems : ℕ → Sem) (mutexes : ℕ → Mutex) (queues : ℕ → Queue) :
    Unseen (fun _ => False) fun k => { k with sems := sems, mutexes := mutexes, queues := queues } where
  tcbs _ := rfl
  current _ := rfl
  tick _ := rfl
  tickHz _ := rfl
  policy _ := rfl
  defaultSlice _ := rfl
  rq _ _ _ := rfl
  modifyTcb _ _ _ := rfl
  setRq _ _ _ _ := rfl
  hrtError _ _ := rfl
  pend _ := rfl
  incTick _ := rfl

/-- The states of the tasks. -/
theorem stateOf (h : Unseen hit T) (i : ℕ) : (T k).stateOf i = k.stateOf i := by
  rw [Kernel.stateOf, Kernel.stateOf, h.tcbs]

/-- A push to a queue that is not hit. -/
theorem rqPush (h : Unseen hit T) {p : ℕ} (hp : ¬ hit p) (id : ℕ) :
    T (rqPush sz p id k) = HardRT.rqPush sz p id (T k) := by
  unfold HardRT.rqPush
  rw [h.rq k p hp]
  split_ifs
  · exact h.hrtError k _
  · exact h.hrtError k _
  · exact h.setRq k p _ hp

/-- `hrt__make_ready` of a task whose queue is not hit. -/
theorem hrtMakeReady (h : Unseen hit T) (sz : Sizing) {id : ℕ} (hid : ¬ hit (k.tcbs id).prio) :
    T (hrtMakeReady sz id k) = HardRT.hrtMakeReady sz id (T k) := by
  have hmark : markReady id (T k) = T (markReady id k) := (h.modifyTcb k id _).symm
  have hprio : ((markReady id k).tcbs id).prio = (k.tcbs id).prio := by
    simp [markReady, Kernel.modifyTcb, Tcb.refill]
  simp only [HardRT.hrtMakeReady, hmark, h.tcbs]
  exact h.rqPush (hprio ▸ hid) id

/-- A due sleeper is due whatever has changed unseen. -/
theorem wakesAt (h : Unseen hit T) (now i : ℕ) : wakesAt (T k) now i ↔ HardRT.wakesAt k now i := by
  simp only [HardRT.wakesAt, h.stateOf, h.tcbs]

/-- The wake loop over slots none of which is woken at a queue that is hit. -/
theorem wakeLoop (h : Unseen hit T) (sz : Sizing) (is : List ℕ) :
    ∀ s : Kernel × Bool,
      (∀ i ∈ is, HardRT.wakesAt s.1 s.1.tick i → ¬ hit (s.1.tcbs i).prio) →
      is.foldl (wakeOne sz) (T s.1, s.2) =
        (T (is.foldl (wakeOne sz) s).1, (is.foldl (wakeOne sz) s).2) := by
  induction is with
  | nil => exact fun _ _ => rfl
  | cons i is ih =>
      intro s hoff
      have hone : wakeOne sz (T s.1, s.2) i = (T (wakeOne sz s i).1, (wakeOne sz s i).2) := by
        simp only [wakeOne, h.tick, h.wakesAt]
        split_ifs with hw
        · rw [h.hrtMakeReady sz (hoff i List.mem_cons_self hw)]
        · rfl
      rw [List.foldl_cons, List.foldl_cons, hone]
      refine ih _ fun j hj hwj => ?_
      -- a slot that is still due was due before, at the same priority
      unfold wakeOne at hwj ⊢
      split_ifs at hwj ⊢ with hw
      · by_cases hji : j = i
        · subst hji
          exact absurd hwj.1 (by simp)
        · simp only [HardRT.wakesAt, stateOf_hrtMakeReady, if_neg hji, hrtMakeReady_tcbs,
            Function.update_of_ne hji, hrtMakeReady_tick] at hwj ⊢
          exact hoff j (List.mem_cons_of_mem _ hj) hwj
      · exact hoff j (List.mem_cons_of_mem _ hj) hwj

/-- The quantum accounting. -/
theorem chargeSlice (h : Unseen hit T) :
    chargeSlice sz (T k) = (T (chargeSlice sz k).1, (HardRT.chargeSlice sz k).2) := by
  unfold HardRT.chargeSlice
  rw [h.current]
  cases k.current with
  | none => simp only [h.hrtError]
  | some cur =>
      simp only [h.stateOf, h.tcbs, h.policy]
      split_ifs
      · rw [h.hrtError]
      · rw [h.modifyTcb]
      · rfl

/-- The end of a tick. -/
theorem finishTick (h : Unseen hit T) (w : Kernel × Bool) :
    T (finishTick sz w) = HardRT.finishTick sz (T w.1, w.2) := by
  simp only [HardRT.finishTick, h.chargeSlice]
  split_ifs
  · exact h.pend _
  · rfl

/-- **A tick that wakes nobody at a queue that is hit.** -/
theorem hrtTickIsr (h : Unseen hit T) (hoff : ∀ i < sz.maxTasks,
      HardRT.wakesAt k ((k.tick + 1) % 2 ^ 32) i → ¬ hit (k.tcbs i).prio) :
    hrtTickIsr sz (T k) = T (hrtTickIsr sz k) := by
  have hloop := h.wakeLoop sz (List.range sz.maxTasks) (hrtIncTick k, false)
    fun i hi => hoff i (List.mem_range.mp hi)
  show HardRT.finishTick sz ((List.range sz.maxTasks).foldl (wakeOne sz) (hrtIncTick (T k), false)) = _
  rw [← h.incTick, hloop]
  exact (h.finishTick _).symm

/-- **A piece**, if no queue is hit. -/
theorem effect (h : Unseen (fun _ => False) T) (c : Piece) :
    c.effect sz port (T k) = T (c.effect sz port k) := by
  cases c with
  | refill id => simp only [Piece.effect, Piece.run, h.modifyTcb]
  | ready id => simp only [Piece.effect, Piece.run, Kernel.setState, h.modifyTcb]
  | push id =>
      simp only [Piece.effect, h.tcbs]
      exact (h.rqPush not_false id).symm
  | store p id =>
      simp only [Piece.effect, Piece.run, h.rq k p not_false]
      exact (h.setRq k p _ not_false).symm
  | tail p =>
      simp only [Piece.effect, Piece.run, h.rq k p not_false]
      exact (h.setRq k p _ not_false).symm
  | count p =>
      simp only [Piece.effect, Piece.run, h.rq k p not_false]
      exact (h.setRq k p _ not_false).symm
  | wakeTick me ms =>
      simp only [Piece.effect, Piece.run, storeWakeTick, h.tick, h.tickHz]
      exact (h.modifyTcb k me _).symm
  | asleep me => simp only [Piece.effect, Piece.run, storeSleep, Kernel.setState, h.modifyTcb]
  | fill a id =>
      have htcb : (T k).modifyTcb id (fun _ => a.tcb (T k)) = T (k.modifyTcb id fun _ => a.tcb k) := by
        simp only [TaskArgs.tcb, TaskArgs.slice, h.defaultSlice]
        exact (h.modifyTcb k id _).symm
      simp only [Piece.effect, Piece.run, clearAndFill, htcb]
      split
      · exact (h.hrtError _ _).symm
      · unfold setSp
        split_ifs
        · rw [← h.hrtError, ← h.modifyTcb]
        · rw [← h.modifyTcb]
      · rfl
  | incTick => exact (h.incTick k).symm
  | wake is trigger =>
      have hloop := h.wakeLoop sz is (k, trigger) fun _ _ _ => not_false
      simp only [Piece.effect]
      rw [hloop]
      exact (h.finishTick _).symm
  | charge trigger => exact (h.finishTick (k, trigger)).symm
  | pend => exact (h.pend k).symm

end Unseen

/-! ## ISR operations next to a piece -/

/-- The task that an ISR operation wakes, as its critical section reports it. -/
def isrWoken (sz : Sizing) (k : Kernel) : Isr → Option ℕ
  | .semGive i => (giveCommonCs sz i k).1
  | .queueTrySend q item => (hrtQueueTrySendFromIsrCs sz q item k).2.1
  | .queueTryRecv q => (hrtQueueTryRecvFromIsrCs sz q k).2.2.1

section Isr

variable {sz : Sizing} {port : Port} {k : Kernel} {op : Isr}

/-- A give that wakes nobody at the queue of priority `p` does not see that queue. -/
theorem giveCommonCs_setRq {i p : ℕ} (r : RingBuffer ℕ)
    (hoff : ∀ id ∈ (giveCommonCs sz i k).1, (k.tcbs id).prio ≠ p) :
    giveCommonCs sz i (k.setRq p r) =
      ((giveCommonCs sz i k).1, (giveCommonCs sz i k).2.setRq p r) := by
  unfold giveCommonCs at hoff ⊢
  rw [show (k.setRq p r).sems = k.sems from rfl]
  generalize semWaitqPop sz (k.sems i) = x at hoff ⊢
  obtain ⟨w, s⟩ := x
  cases w with
  | none => rfl
  | some w =>
      have hmake := (Unseen.ofRing p r).hrtMakeReady sz (k := k.setSem i s) (hoff w rfl)
      exact congrArg (Prod.mk (some w)) hmake.symm

/-- Waking a receiver that is not of priority `p` does not see the queue of that priority. -/
theorem wakeRx_setRq {q p : ℕ} (r : RingBuffer ℕ)
    (hoff : ∀ id ∈ (wakeRx sz q k).1, (k.tcbs id).prio ≠ p) :
    wakeRx sz q (k.setRq p r) = ((wakeRx sz q k).1, (wakeRx sz q k).2.setRq p r) := by
  unfold wakeRx at hoff ⊢
  rw [show (k.setRq p r).queues = k.queues from rfl]
  generalize wqPop sz (k.queues q).rx = x at hoff ⊢
  obtain ⟨w, x⟩ := x
  cases w with
  | none => rfl
  | some w =>
      have hmake := (Unseen.ofRing p r).hrtMakeReady sz
        (k := k.setQueue q { k.queues q with rx := x }) (hoff w rfl)
      exact congrArg (Prod.mk (some w)) hmake.symm

/-- Waking a sender that is not of priority `p` does not see the queue of that priority. -/
theorem wakeTx_setRq {q p : ℕ} (r : RingBuffer ℕ)
    (hoff : ∀ id ∈ (wakeTx sz q k).1, (k.tcbs id).prio ≠ p) :
    wakeTx sz q (k.setRq p r) = ((wakeTx sz q k).1, (wakeTx sz q k).2.setRq p r) := by
  unfold wakeTx at hoff ⊢
  rw [show (k.setRq p r).queues = k.queues from rfl]
  generalize wqPop sz (k.queues q).tx = x at hoff ⊢
  obtain ⟨w, x⟩ := x
  cases w with
  | none => rfl
  | some w =>
      have hmake := (Unseen.ofRing p r).hrtMakeReady sz
        (k := k.setQueue q { k.queues q with tx := x }) (hoff w rfl)
      exact congrArg (Prod.mk (some w)) hmake.symm

theorem pendIfWoken_setRq (w : Option ℕ) (p : ℕ) (r : RingBuffer ℕ) :
    pendIfWoken w (k.setRq p r) = (pendIfWoken w k).setRq p r := by
  cases w <;> rfl

/-- **An ISR operation that wakes nobody at the queue of priority `p`** does not see that queue. -/
theorem isrAction_setRq {p : ℕ} (r : RingBuffer ℕ)
    (hoff : ∀ id ∈ isrWoken sz k op, (k.tcbs id).prio ≠ p) :
    isrAction sz (k.setRq p r) op =
      ((isrAction sz k op).1, (isrAction sz k op).2.1.setRq p r, (isrAction sz k op).2.2) := by
  cases op with
  | semGive i =>
      simp only [isrAction, giveCommonCs_setRq r hoff, pendIfWoken_setRq]
      rfl
  | queueTrySend q item =>
      have hcs : hrtQueueTrySendFromIsrCs sz q item (k.setRq p r) =
          ((hrtQueueTrySendFromIsrCs sz q item k).1, (hrtQueueTrySendFromIsrCs sz q item k).2.1,
            (hrtQueueTrySendFromIsrCs sz q item k).2.2.setRq p r) := by
        simp only [isrWoken, hrtQueueTrySendFromIsrCs] at hoff ⊢
        rw [show (k.setRq p r).queues = k.queues from rfl]
        split_ifs at hoff ⊢
        · exact congrArg _ (wakeRx_setRq (k := k.setQueue q _) r hoff)
        · rfl
      simp only [isrAction, hcs, pendIfWoken_setRq]
      rfl
  | queueTryRecv q =>
      have hcs : hrtQueueTryRecvFromIsrCs sz q (k.setRq p r) =
          ((hrtQueueTryRecvFromIsrCs sz q k).1, (hrtQueueTryRecvFromIsrCs sz q k).2.1,
            (hrtQueueTryRecvFromIsrCs sz q k).2.2.1,
            (hrtQueueTryRecvFromIsrCs sz q k).2.2.2.setRq p r) := by
        simp only [isrWoken, hrtQueueTryRecvFromIsrCs] at hoff ⊢
        rw [show (k.setRq p r).queues = k.queues from rfl]
        split_ifs at hoff ⊢
        · have hwake := wakeTx_setRq (k := k.setQueue q (dequeueCs (k.queues q)).2.2) r hoff
          exact congrArg (fun x => (_, _, x)) hwake
        · rfl
      simp only [isrAction, hcs, pendIfWoken_setRq]

/-- **An ISR operation that wakes nobody** changes semaphores and message queues only, and looks at
nothing else. -/
theorem isrAction_quiet (hq : isrWoken sz k op = none) {k₂ : Kernel} (hsems : k₂.sems = k.sems)
    (hqueues : k₂.queues = k.queues) :
    isrAction sz k₂ op = ((isrAction sz k op).1,
      { k₂ with sems := (isrAction sz k op).2.1.sems, queues := (isrAction sz k op).2.1.queues },
      (isrAction sz k op).2.2) := by
  obtain ⟨tcbs, rq, current, tick, tickHz, policy, defaultSlice, error, pend, sems, mutexes, queues⟩ := k₂
  obtain rfl : sems = k.sems := hsems
  obtain rfl : queues = k.queues := hqueues
  cases op with
  | semGive i =>
      simp only [isrWoken, isrAction, giveCommonCs] at hq ⊢
      generalize semWaitqPop sz (k.sems i) = x at hq ⊢
      obtain ⟨w, s⟩ := x
      cases w with
      | none => rfl
      | some w => exact absurd hq (by simp)
  | queueTrySend q item =>
      simp only [isrWoken, isrAction, hrtQueueTrySendFromIsrCs] at hq ⊢
      split_ifs at hq ⊢
      · simp only [wakeRx, Kernel.setQueue, Function.update_self] at hq ⊢
        generalize wqPop sz (enqueueCs item (k.queues q)).2.rx = x at hq ⊢
        obtain ⟨w, x⟩ := x
        cases w with
        | none => rfl
        | some w => exact absurd hq (by simp)
      · rfl
  | queueTryRecv q =>
      simp only [isrWoken, isrAction, hrtQueueTryRecvFromIsrCs] at hq ⊢
      split_ifs at hq ⊢
      · simp only [wakeTx, Kernel.setQueue, Function.update_self] at hq ⊢
        generalize wqPop sz (dequeueCs (k.queues q)).2.2.tx = x at hq ⊢
        obtain ⟨w, x⟩ := x
        cases w with
        | none => rfl
        | some w => exact absurd hq (by simp)
      · rfl

end Isr

/-! ## Frames -/

section Frames

variable {sz : Sizing} {port : Port}

/-- The end of a tick makes nobody current. -/
theorem finishTick_current (w : Kernel × Bool) : (finishTick sz w).current = w.1.current := by
  have hcharge := (chargeSlice_frame sz w.1).1
  simp only [finishTick]
  split_ifs <;> exact hcharge

/-- **No piece makes a task current.** -/
theorem Piece.effect_current (sz : Sizing) (port : Port) (c : Piece) (k : Kernel) :
    (c.effect sz port k).current = k.current := by
  cases c with
  | push id => exact rqPush_current sz _ id k
  | fill a id =>
      obtain ⟨sp, e, heq, -⟩ := clearAndFill_spec port a id k
      show (clearAndFill port a id k).current = k.current
      rw [heq]
  | wake is trigger =>
      refine (finishTick_current _).trans ?_
      refine foldl_wakeOne_induction (fun s => s.1.current = k.current) rfl fun s i hs _ _ => ?_
      exact (hrtMakeReady_current sz i s.1).trans hs
  | charge trigger => exact finishTick_current (k, trigger)
  | _ => rfl

/-- No piece touches a kernel object. -/
theorem Piece.effect_objects (sz : Sizing) (port : Port) (c : Piece) (k : Kernel) :
    k.SameObjects (c.effect sz port k) := by
  have hself : c.effect sz port k = { c.effect sz port k with
      sems := k.sems, mutexes := k.mutexes, queues := k.queues } :=
    (Unseen.ofObjects k.sems k.mutexes k.queues).effect c
  constructor <;> rw [hself]

/-- No list of pieces touches a kernel object. -/
theorem completePieces_objects (sz : Sizing) (port : Port) (ps : List Piece) (k : Kernel) :
    k.SameObjects (completePieces sz port ps k) := by
  induction ps generalizing k with
  | nil => exact Kernel.SameObjects.refl k
  | cons c ps ih => exact (Piece.effect_objects sz port c k).trans (ih _)

/-- A push clears no error. -/
theorem rqPush_error_ne {k : Kernel} (h : k.error ≠ .none) (p id : ℕ) :
    (rqPush sz p id k).error ≠ .none := by
  unfold rqPush
  split_ifs
  · simp [Kernel.hrtError]
  · simp [Kernel.hrtError]
  · exact h

/-- The end of a tick clears no error. -/
theorem finishTick_error_ne {w : Kernel × Bool} (h : w.1.error ≠ .none) :
    (finishTick sz w).error ≠ .none := by
  have hcharge : (chargeSlice sz w.1).1.error ≠ .none := by
    unfold chargeSlice
    split
    · simp [Kernel.hrtError]
    · split_ifs
      · simp [Kernel.hrtError]
      · exact h
      · exact h
  simp only [finishTick]
  split_ifs <;> exact hcharge

/-- **No piece clears an error**, if a port that refuses a stack says why. -/
theorem Piece.effect_error_ne {k : Kernel}
    (hport : ∀ base words e, port.prepareTaskStack base words = .error e → e ≠ .none)
    (h : k.error ≠ .none) (c : Piece) : (c.effect sz port k).error ≠ .none := by
  cases c with
  | push id => exact rqPush_error_ne h _ id
  | fill a id =>
      show (clearAndFill port a id k).error ≠ .none
      unfold clearAndFill
      simp only
      split
      · exact hport _ _ _ ‹_›
      · unfold setSp
        split_ifs
        · simp [Kernel.hrtError, Kernel.modifyTcb]
        · exact h
      · exact h
  | wake is trigger =>
      refine finishTick_error_ne ?_
      refine foldl_wakeOne_induction (fun s => s.1.error ≠ .none) h fun s i hs _ _ => ?_
      exact rqPush_error_ne (k := markReady i s.1) hs _ i
  | charge trigger => exact finishTick_error_ne h
  | _ => exact h

/-- An error that the pieces leave unset was unset before them. -/
theorem error_of_completePieces {k : Kernel}
    (hport : ∀ base words e, port.prepareTaskStack base words = .error e → e ≠ .none)
    (ps : List Piece) (h : (completePieces sz port ps k).error = .none) : k.error = .none := by
  induction ps generalizing k with
  | nil => exact h
  | cons c ps ih =>
      by_contra hk
      exact c.effect_error_ne hport hk (ih h)

end Frames

/-! ## Interrupts that spare a piece -/

namespace Piece

/-- The ready queue that a piece of `rq_push` is about to update; a push that will be refused updates
none. -/
def ringOf (sz : Sizing) (k : Kernel) : Piece → Option ℕ
  | .push id => if RqAccepts sz k (k.tcbs id).prio then some (k.tcbs id).prio else none
  | .store p _ | .tail p | .count p => some p
  | _ => none

/-- How it updates the queue. -/
def onRing (sz : Sizing) : Piece → RingBuffer ℕ → RingBuffer ℕ
  | .push id, r => r.put 256 sz.maxTasks (id % 256)
  | .store _ id, r => storeId (id % 256) r
  | .tail _, r => advanceTail sz.maxTasks r
  | .count _, r => incCount r
  | _, r => r

/-- **A tick spares a piece** that updates a ready queue, if it wakes nobody of that priority. -/
def SparedByTick (sz : Sizing) (k : Kernel) (c : Piece) : Prop :=
  ∃ p, c.ringOf sz k = some p ∧
    ∀ i < sz.maxTasks, wakesAt k ((k.tick + 1) % 2 ^ 32) i → (k.tcbs i).prio ≠ p

/-- **An ISR operation spares a piece** if it wakes nobody, or if the piece updates a ready queue of
another priority than that of the woken task. -/
def SparedByIsr (sz : Sizing) (k : Kernel) (op : Isr) (c : Piece) : Prop :=
  isrWoken sz k op = none ∨
    ∃ p, c.ringOf sz k = some p ∧ ∀ id ∈ isrWoken sz k op, (k.tcbs id).prio ≠ p

instance (sz : Sizing) (k : Kernel) (c : Piece) : Decidable (c.SparedByTick sz k) :=
  match h : c.ringOf sz k with
  | none => isFalse (by simp [SparedByTick, h])
  | some p => decidable_of_iff
      (∀ i < sz.maxTasks, wakesAt k ((k.tick + 1) % 2 ^ 32) i → (k.tcbs i).prio ≠ p)
      (by simp [SparedByTick, h])

instance (sz : Sizing) (k : Kernel) (op : Isr) (c : Piece) : Decidable (c.SparedByIsr sz k op) :=
  match h : c.ringOf sz k with
  | none => decidable_of_iff (isrWoken sz k op = none) (by simp [SparedByIsr, h])
  | some p => decidable_of_iff
      (isrWoken sz k op = none ∨ ∀ id ∈ isrWoken sz k op, (k.tcbs id).prio ≠ p)
      (by simp [SparedByIsr, h])

section Spared

variable {sz : Sizing} {port : Port} {k : Kernel} {c : Piece} {p : ℕ}

/-- A piece of `rq_push` updates its queue and nothing else. -/
theorem effect_of_ringOf (port : Port) (h : c.ringOf sz k = some p) :
    c.effect sz port k = k.setRq p (c.onRing sz (k.rq p)) := by
  cases c with
  | push id =>
      simp only [ringOf] at h
      split_ifs at h with hacc
      obtain rfl := Option.some.inj h
      exact rqPush_of_accepts hacc id
  | store q id =>
      obtain rfl := Option.some.inj h
      rfl
  | tail q =>
      obtain rfl := Option.some.inj h
      rfl
  | count q =>
      obtain rfl := Option.some.inj h
      rfl
  | _ => exact absurd h (by simp [ringOf])

/-- Which queue it is depends on the priorities and on that queue. -/
theorem ringOf_congr {k' : Kernel} (hprio : ∀ id, (k'.tcbs id).prio = (k.tcbs id).prio)
    (hrq : k'.rq p = k.rq p) (h : c.ringOf sz k = some p) : c.ringOf sz k' = some p := by
  cases c with
  | push id =>
      simp only [ringOf] at h ⊢
      split_ifs at h with hacc
      obtain rfl := Option.some.inj h
      rw [hprio, if_pos]
      rwa [RqAccepts, hrq]
  | _ => exact h

/-- **What does not see the queue of priority `p` commutes with a piece that updates it.** -/
theorem commutes_of_ringOf (port : Port) {F : Kernel → Kernel}
    (hF : ∀ r, F (k.setRq p r) = (F k).setRq p r)
    (hprio : ∀ id, ((F k).tcbs id).prio = (k.tcbs id).prio) (h : c.ringOf sz k = some p) :
    c.effect sz port (F k) = F (c.effect sz port k) := by
  -- `F` does not write to the queue: it commutes with replacing the queue by itself
  have hrq : (F k).rq p = k.rq p := by
    have hself : k.setRq p (k.rq p) = k := by simp [Kernel.setRq]
    have hFk := hF (k.rq p)
    rw [hself] at hFk
    rw [hFk]
    simp [Kernel.setRq]
  rw [effect_of_ringOf port (ringOf_congr hprio hrq h), effect_of_ringOf port h, hF, hrq]

/-- **A tick commutes with the pieces that it spares.** -/
theorem SparedByTick.commutes (h : c.SparedByTick sz k) :
    c.effect sz port (hrtTickIsr sz k) = hrtTickIsr sz (c.effect sz port k) := by
  obtain ⟨p, hp, hoff⟩ := h
  refine commutes_of_ringOf port (fun r => ?_) (fun id => (hrtTickIsr_config sz k id).2.1) hp
  exact (Unseen.ofRing p r).hrtTickIsr hoff

/-- **An ISR operation commutes with the pieces that it spares.** -/
theorem SparedByIsr.commutes {op : Isr} (h : c.SparedByIsr sz k op) :
    isrAction sz (c.effect sz port k) op = ((isrAction sz k op).1,
      c.effect sz port (isrAction sz k op).2.1, (isrAction sz k op).2.2) := by
  rcases h with hq | ⟨p, hp, hoff⟩
  · -- nobody is woken: the piece does not see what the operation changes
    have hobj := effect_objects sz port c k
    have hself : (isrAction sz k op).2.1 = { k with
        sems := (isrAction sz k op).2.1.sems, mutexes := k.mutexes,
        queues := (isrAction sz k op).2.1.queues } :=
      congrArg (fun x => x.2.1) (isrAction_quiet hq rfl rfl)
    have heff : c.effect sz port (isrAction sz k op).2.1 = { c.effect sz port k with
        sems := (isrAction sz k op).2.1.sems, mutexes := k.mutexes,
        queues := (isrAction sz k op).2.1.queues } :=
      (congrArg (c.effect sz port) hself).trans ((Unseen.ofObjects _ _ _).effect c)
    rw [isrAction_quiet hq hobj.sems hobj.queues, heff, ← hobj.mutexes]
  · -- somebody is woken, at another queue than the one that the piece updates
    have hF : ∀ r, (isrAction sz (k.setRq p r) op).2.1 = (isrAction sz k op).2.1.setRq p r := fun r =>
      congrArg (fun x => x.2.1) (isrAction_setRq r hoff)
    have hcomm := commutes_of_ringOf port (F := fun k => (isrAction sz k op).2.1) hF
      (fun id => (isr_config sz k op id).1) hp
    have hring := isrAction_setRq (c.onRing sz (k.rq p)) hoff
    rw [← effect_of_ringOf port hp] at hring
    refine Prod.ext ?_ (Prod.ext hcomm.symm ?_)
    · rw [hring]
    · rw [hring]

end Spared

end Piece

end HardRT
