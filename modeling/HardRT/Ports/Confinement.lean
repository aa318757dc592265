import HardRT.Spec.Runs

/-! # The kernel writes within its arrays

The arrays of the source have fixed sizes and the machine does not check an index. In the model an array
is a function on all indices, so a store outside of it would be seen: no run makes one, on either port.

* `Confined sz k k'` — between `k` and `k'` no cell outside of an array has changed.
* `Confined.nextAction`, `Confined.isrAction`, `Confined.schedule`, `Confined.tickIsr` — the actions of
  tasks, interrupts and the scheduler keep within the arrays of a kernel that is in order.
* `runs_stay_in_bounds` — so does every run, from whatever memory. -/

namespace HardRT

open Lib

/-! ## Confined changes -/

/-- **No cell outside of an array has changed** from `k` to `k'`: the task table has `HARDRT_MAX_TASKS`
entries, there are `HARDRT_MAX_PRIO` ready queues, every ring has `HARDRT_MAX_TASKS` cells, and the
storage of a message queue has room for its capacity of items. -/
structure Confined (sz : Sizing) (k k' : Kernel) : Prop where
  tcbs : ∀ id, sz.maxTasks ≤ id → k'.tcbs id = k.tcbs id
  queues : ∀ p, sz.maxPrio ≤ p → k'.rq p = k.rq p
  ready : ∀ p n, sz.maxTasks ≤ n → (k'.rq p).buf n = (k.rq p).buf n
  waiting : ∀ w n, sz.maxTasks ≤ n → (k'.ring w).buf n = (k.ring w).buf n
  shape : ∀ q, (k'.queues q).capacity = (k.queues q).capacity ∧
    (k'.queues q).itemSize = (k.queues q).itemSize
  storage : ∀ q a, (k.queues q).capacity * (k.queues q).itemSize ≤ a →
    (k'.queues q).buf a = (k.queues q).buf a

namespace Confined

variable {sz : Sizing} {k k₁ k' : Kernel} {id i p t : ℕ}

/-- Only single variables have changed. -/
theorem same (htcbs : k'.tcbs = k.tcbs) (hrq : k'.rq = k.rq) (hobj : k.SameObjects k') :
    Confined sz k k' where
  tcbs id _ := by rw [htcbs]
  queues p _ := by rw [hrq]
  ready p n _ := by rw [hrq]
  waiting w n _ := by rw [hobj.ring]
  shape q := by rw [hobj.queues]; exact ⟨rfl, rfl⟩
  storage q a _ := by rw [hobj.queues]

/-- Nothing has changed. -/
theorem refl (sz : Sizing) (k : Kernel) : Confined sz k k := same rfl rfl ⟨rfl, rfl, rfl⟩

/-- **Changes compose**: the sizes of the message queues stay as they are, so their bounds do. -/
theorem trans (h : Confined sz k k₁) (h' : Confined sz k₁ k') : Confined sz k k' where
  tcbs id hid := (h'.tcbs id hid).trans (h.tcbs id hid)
  queues p hp := (h'.queues p hp).trans (h.queues p hp)
  ready p n hn := (h'.ready p n hn).trans (h.ready p n hn)
  waiting w n hn := (h'.waiting w n hn).trans (h.waiting w n hn)
  shape q := ⟨(h'.shape q).1.trans (h.shape q).1, (h'.shape q).2.trans (h.shape q).2⟩
  storage q a ha := by
    -- the bounds of the storage are the same at both ends of the first change
    have ha' : (k₁.queues q).capacity * (k₁.queues q).itemSize ≤ a := by
      rw [(h.shape q).1, (h.shape q).2]
      exact ha
    exact (h'.storage q a ha').trans (h.storage q a ha)

/-! ### Single stores -/

/-- A store to a control block of the table. -/
theorem modifyTcb (hid : id < sz.maxTasks) (f : Tcb → Tcb) : Confined sz k (k.modifyTcb id f) where
  tcbs j hj := Function.update_of_ne (by omega) _ _
  queues p _ := rfl
  ready p n _ := rfl
  waiting w n _ := by rw [Kernel.ring_modifyTcb]
  shape q := ⟨rfl, rfl⟩
  storage q a _ := rfl

/-- Latching an error stores to a variable of its own. -/
theorem hrtError (e : Err) : Confined sz k (k.hrtError e) := same rfl rfl ⟨rfl, rfl, rfl⟩

/-- So does requesting a switch. -/
theorem hrtPendContextSwitch : Confined sz k k.hrtPendContextSwitch := same rfl rfl ⟨rfl, rfl, rfl⟩

/-- A store to one of the ready queues. -/
theorem setRq (hp : p < sz.maxPrio) {r : RingBuffer ℕ}
    (hbuf : ∀ n, sz.maxTasks ≤ n → r.buf n = (k.rq p).buf n) : Confined sz k (k.setRq p r) where
  tcbs j _ := rfl
  queues q hq := Function.update_of_ne (by omega) _ _
  ready q n hn := by
    rw [Kernel.setRq_rq]
    split
    · rename_i hq
      rw [hq]
      exact hbuf n hn
    · rfl
  waiting w n _ := by cases w <;> rfl
  shape q := ⟨rfl, rfl⟩
  storage q a _ := rfl

/-- A store to a semaphore. -/
theorem setSem {S : Sem} (hbuf : ∀ n, sz.maxTasks ≤ n → S.waitq.buf n = (k.sems i).waitq.buf n) :
    Confined sz k (k.setSem i S) where
  tcbs j _ := rfl
  queues q _ := rfl
  ready q n _ := rfl
  waiting w n hn := by
    rw [Kernel.ring_setSem]
    by_cases hw : w = .sem i
    · rw [hw, Function.update_self]
      exact hbuf n hn
    · rw [Function.update_of_ne hw]
  shape q := ⟨rfl, rfl⟩
  storage q a _ := rfl

/-- A store to a mutex. -/
theorem setMutex {M : Mutex} (hbuf : ∀ n, sz.maxTasks ≤ n → M.waitq.buf n = (k.mutexes i).waitq.buf n) :
    Confined sz k (k.setMutex i M) where
  tcbs j _ := rfl
  queues q _ := rfl
  ready q n _ := rfl
  waiting w n hn := by
    rw [Kernel.ring_setMutex]
    by_cases hw : w = .mutex i
    · rw [hw, Function.update_self]
      exact hbuf n hn
    · rw [Function.update_of_ne hw]
  shape q := ⟨rfl, rfl⟩
  storage q a _ := rfl

/-- A message queue keeps within its storage and its two rings. -/
structure QueueStays (sz : Sizing) (Q Q' : Queue) : Prop where
  rx : ∀ n, sz.maxTasks ≤ n → Q'.rx.buf n = Q.rx.buf n
  tx : ∀ n, sz.maxTasks ≤ n → Q'.tx.buf n = Q.tx.buf n
  shape : Q'.capacity = Q.capacity ∧ Q'.itemSize = Q.itemSize
  storage : ∀ a, Q.capacity * Q.itemSize ≤ a → Q'.buf a = Q.buf a

/-- A store to a message queue. -/
theorem setQueue {Q : Queue} (hQ : QueueStays sz (k.queues i) Q) : Confined sz k (k.setQueue i Q) := by
  have hqueue : ∀ q, QueueStays sz (k.queues q) ((k.setQueue i Q).queues q) := by
    intro q
    show QueueStays sz (k.queues q) (Function.update k.queues i Q q)
    by_cases hq : q = i
    · subst hq
      rw [Function.update_self]
      exact hQ
    · rw [Function.update_of_ne hq]
      exact ⟨fun _ _ => rfl, fun _ _ => rfl, ⟨rfl, rfl⟩, fun _ _ => rfl⟩
  refine ⟨fun _ _ => rfl, fun _ _ => rfl, fun _ _ _ => rfl, fun w n hn => ?_,
    fun q => (hqueue q).shape, fun q => (hqueue q).storage⟩
  cases w with
  | sem j => rfl
  | mutex j => rfl
  | rx j => exact (hqueue j).rx n hn
  | tx j => exact (hqueue j).tx n hn

/-! ### Ready queues -/

/-- `rq_push` stores at a cell of a queue, or nowhere. -/
theorem rqPush (hwf : ReadyWF sz k) (p id : ℕ) : Confined sz k (HardRT.rqPush sz p id k) := by
  unfold HardRT.rqPush
  split
  · exact hrtError _
  · split
    · exact hrtError _
    · have hp : p < sz.maxPrio := by omega
      exact setRq hp fun n hn => (hwf p hp).put_buf hn _

/-- A store to a control block of the table, followed by a push. -/
theorem modifyPush (hwf : ReadyWF sz k) (hid : id < sz.maxTasks) (f : Tcb → Tcb) (p : ℕ) :
    Confined sz k (HardRT.rqPush sz p id (k.modifyTcb id f)) := by
  have hwf' : ReadyWF sz (k.modifyTcb id f) := hwf
  exact (modifyTcb hid f).trans (rqPush hwf' p id)

/-- `hrt__make_ready`. -/
theorem makeReady (hwf : ReadyWF sz k) (hid : id < sz.maxTasks) :
    Confined sz k (hrtMakeReady sz id k) := modifyPush hwf hid _ _

/-- `_set_sp` of a slot of the table. -/
theorem setSp (hid : id < sz.maxTasks) (sp : ℕ) : Confined sz k (HardRT.setSp id sp k) := by
  unfold HardRT.setSp
  split
  · exact (hrtError _).trans (modifyTcb hid _)
  · exact modifyTcb hid _

/-- `hrt__pick_next_ready` only moves registers. -/
theorem pick (sz : Sizing) (k : Kernel) : Confined sz k (hrtPickNextReady sz k).2 := by
  have hloop : ∀ (ps : List ℕ) (k : Kernel), (∀ p ∈ ps, p < sz.maxPrio) →
      Confined sz k (pickLoop sz ps k).2 := by
    intro ps
    induction ps with
    | nil => exact fun k _ => refl sz k
    | cons p ps ih =>
        intro k hps
        have hpop : Confined sz k (rqPop sz p k).2 :=
          setRq (hps p List.mem_cons_self) fun n _ => by rw [RingBuffer.pop_buf]
        simp only [pickLoop]
        rcases hp : rqPop sz p k with ⟨_ | id, k'⟩
        · rw [hp] at hpop
          exact hpop.trans (ih k' fun q hq => hps q (List.mem_cons_of_mem _ hq))
        · rw [hp] at hpop
          exact hpop
  exact hloop _ k fun p hp => List.mem_range.mp hp

/-! ### The core -/

/-- The ready queues of a kernel in order are well formed, also after stores to something else. -/
theorem readyWF (h : k.Sound sz) (hrq : k₁.rq = k.rq) : ReadyWF sz k₁ := by
  intro p hp
  rw [hrq]
  exact (h.ready p hp).wf

/-- `hrt_create_task` fills a slot of the table. -/
theorem createTask (h : k.Sound sz) (port : Port) (a : TaskArgs) :
    Confined sz k (hrtCreateTask sz port a k).2 := by
  unfold hrtCreateTask
  split
  · exact hrtError _
  · cases hfree : firstUnused sz k with
    | none => exact hrtError _
    | some id =>
        have hid := (firstUnused_spec hfree).1
        have hclear : Confined sz k (clearAndFill port a id k) := by
          unfold clearAndFill
          refine (modifyTcb hid fun _ => a.tcb k).trans ?_
          rcases port.prepareTaskStack a.stackWords a.nWords with e | _ | sp
          · exact hrtError e
          · exact refl _ _
          · exact setSp hid sp
        show Confined sz k (fillSlot sz port a id k)
        rw [fillSlot]
        exact hclear.trans (modifyPush (readyWF h (clearAndFill_rq port a id k)) hid _ _)

/-- `hrt_yield` of a task of the table. -/
theorem yieldBody (h : k.Sound sz) (ht : t < sz.maxTasks) : Confined sz k (hrtYieldBody sz t k) := by
  unfold hrtYieldBody
  split
  · exact modifyPush (readyWF h rfl) ht _ _
  · exact refl sz k

/-- `hrt_sleep` of a task of the table. -/
theorem sleepBody (ht : t < sz.maxTasks) (ms : ℕ) : Confined sz k (hrtSleepBody t ms k) := by
  rw [hrtSleepBody_eq]
  exact modifyTcb ht _

/-- `hrt_task_delete` of a task of the table. -/
theorem taskDeleteBody (ht : t < sz.maxTasks) : Confined sz k (hrtTaskDeleteBody t k) := by
  unfold hrtTaskDeleteBody
  exact modifyTcb ht _

/-- `hrt__on_scheduler_entry`. -/
theorem schedulerEntry (h : k.Sound sz) : Confined sz k (hrtOnSchedulerEntry sz k) := by
  unfold hrtOnSchedulerEntry
  cases hcur : k.current with
  | none => exact refl sz k
  | some cur =>
      have ht := h.current cur hcur
      simp only
      split
      · exact modifyPush (readyWF h rfl) ht _ _
      · exact refl sz k

/-- `hrt__schedule`. -/
theorem schedule (h : k.Sound sz) (oldSp : ℕ) : Confined sz k (hrtSchedule sz oldSp k).2 := by
  have hsave : Confined sz k (saveOutgoing sz oldSp k) := by
    unfold saveOutgoing
    split
    · exact refl sz k
    · cases hcur : k.current with
      | none => exact refl sz k
      | some cur =>
          have ht := h.current cur hcur
          have hset := setSp (k := k) ht oldSp
          simp only
          split
          · exact hset.trans (rqPush (readyWF h (setSp_rq _ _ _)) _ cur)
          · exact hset
  have hcurrent : Confined sz (hrtPickNextReady sz (saveOutgoing sz oldSp k)).2
      (hrtSchedule sz oldSp k).2 := same rfl rfl ⟨rfl, rfl, rfl⟩
  exact (hsave.trans (pick sz _)).trans hcurrent

/-- `hrt__tick_isr`. -/
theorem tickIsr (h : k.Sound sz) (hr : sz.Representable) : Confined sz k (hrtTickIsr sz k) := by
  have hinc : Confined sz k (hrtIncTick k) := same rfl rfl ⟨rfl, rfl, rfl⟩
  -- each task the loop wakes leaves the kernel in order for the next one
  have hwake : (wakeSleepers sz (hrtIncTick k)).1.Sound sz ∧
      Confined sz k (wakeSleepers sz (hrtIncTick k)).1 := by
    refine wakeSleepers_induction (fun s => s.1.Sound sz ∧ Confined sz k s.1)
      ⟨⟨h.ready, h.sems, h.mutexes, h.queues, h.current⟩, hinc⟩ ?_
    rintro s i ⟨hs, hconf⟩ hi -
    have href : Refines sz s.1 (s.1.abs sz) := ⟨hs, rfl⟩
    exact ⟨(href.makeReady hr hi).sound, hconf.trans (makeReady (readyWF hs rfl) hi)⟩
  have hcharge : ∀ {x : Kernel}, Confined sz x (chargeSlice sz x).1 := by
    intro x
    unfold chargeSlice
    split
    · exact hrtError _
    · split
      · exact hrtError _
      · rename_i cur _ hlt
        split
        · show Confined sz x (x.modifyTcb cur fun t => { t with sliceLeft := t.sliceLeft - 1 })
          exact modifyTcb (Nat.not_le.mp hlt) _
        · exact refl sz x
  have hboth := hwake.2.trans hcharge
  unfold hrtTickIsr
  simp only
  split
  · exact hboth.trans hrtPendContextSwitch
  · exact hboth

/-! ### Kernel objects -/

/-- A popped waiter is a task of the table. -/
theorem pop_lt {r : RingBuffer ℕ} (h : IdRing sz r) (hr : sz.Representable)
    (hp : (r.pop 256 sz.maxTasks).1 = some id) : id < sz.maxTasks := by
  rcases h.pop hr with ⟨-, hnone⟩ | ⟨j, r', hsome, -, hlt, -⟩
  · rw [hnone] at hp
    exact absurd hp (by simp)
  · rw [hsome] at hp
    exact Option.some.inj hp ▸ hlt

/-- The caller parks: its id goes into a ring, and its control block says so. -/
theorem parked (hset : Confined sz k k₁) (ht : t < sz.maxTasks) :
    Confined sz k (k₁.setState t .blocked) := hset.trans (modifyTcb ht _)

/-- `hrt_sem_try_take` decrements a count. -/
theorem semTryTake (i : ℕ) : Confined sz k (hrtSemTryTake i k).2 := by
  unfold hrtSemTryTake
  split
  · exact setSem fun _ _ => rfl
  · exact refl sz k

/-- The second critical section of `hrt_sem_take` parks the caller in the ring of the semaphore. -/
theorem semTakeCs (h : k.Sound sz) (ht : t < sz.maxTasks) (i : ℕ) :
    Confined sz k (hrtSemTakeCs sz i t k).2 := by
  unfold hrtSemTakeCs
  split
  · exact setSem fun _ _ => rfl
  · exact parked (setSem fun n hn => (h.sems i).waitq.wf.push_buf hn _) ht

/-- `_give_common`. -/
theorem give (h : k.Sound sz) (hr : sz.Representable) (i : ℕ) :
    Confined sz k (giveCommonCs sz i k).2 := by
  unfold giveCommonCs semWaitqPop
  have hbuf := RingBuffer.pop_buf 256 sz.maxTasks (k.sems i).waitq
  cases hp : ((k.sems i).waitq.pop 256 sz.maxTasks).1 with
  | some w =>
      have hset : Confined sz k
          (k.setSem i { k.sems i with waitq := ((k.sems i).waitq.pop 256 sz.maxTasks).2 }) :=
        setSem fun n _ => congrFun hbuf n
      exact hset.trans (makeReady (readyWF h rfl) (pop_lt (h.sems i).waitq hr hp))
  | none =>
      refine setSem fun n _ => ?_
      split <;> exact congrFun hbuf n

/-- `hrt_mutex_try_lock` only sets the lock and its owner. -/
theorem mutexTryLock (i t : ℕ) : Confined sz k (hrtMutexTryLock sz i t k).2 := by
  unfold hrtMutexTryLock
  split
  · exact hrtError _
  · split
    · exact setMutex fun _ _ => rfl
    · split
      · exact hrtError _
      · exact refl sz k

/-- The second critical section of `hrt_mutex_lock` parks the caller in the ring of the mutex. -/
theorem mutexLockCs (h : k.Sound sz) (ht : t < sz.maxTasks) (i : ℕ) :
    Confined sz k (hrtMutexLockCs sz i t k).2 := by
  unfold hrtMutexLockCs
  split
  · exact setMutex fun _ _ => rfl
  · split
    · exact hrtError _
    · exact parked (setMutex fun n hn => (h.mutexes i).waitq.wf.push_buf hn _) ht

/-- `hrt_mutex_unlock` makes at most the longest waiter ready. -/
theorem mutexUnlockCs (h : k.Sound sz) (hr : sz.Representable) (i t : ℕ) :
    Confined sz k (hrtMutexUnlockCs sz i t k).2 := by
  unfold hrtMutexUnlockCs mutexWaitqPop
  have hbuf := RingBuffer.pop_buf 256 sz.maxTasks (k.mutexes i).waitq
  split
  · exact hrtError _
  · split
    · exact hrtError _
    · cases hp : ((k.mutexes i).waitq.pop 256 sz.maxTasks).1 with
      | some w =>
          have hset : Confined sz k (k.setMutex i
              { waitq := ((k.mutexes i).waitq.pop 256 sz.maxTasks).2, locked := true, owner := w }) :=
            setMutex fun n _ => congrFun hbuf n
          exact hset.trans (makeReady (readyWF h rfl) (pop_lt (h.mutexes i).waitq hr hp))
      | none => exact setMutex fun n _ => congrFun hbuf n

/-! ### Message queues -/

/-- `_enqueue_cs` copies the item into a slot of the storage. -/
theorem enqueue {Q : Queue} (h : Q.WF) (item : List UInt8) : QueueStays sz Q (enqueueCs item Q).2 := by
  unfold enqueueCs
  split
  · exact ⟨fun _ _ => rfl, fun _ _ => rfl, ⟨rfl, rfl⟩, fun _ _ => rfl⟩
  · refine ⟨fun _ _ => rfl, fun _ _ => rfl, ⟨rfl, rfl⟩, fun a ha => ?_⟩
    have htail : Q.tail < Q.capacity := h.items.tail_lt
    -- the slot ends before the storage does
    have hend : Q.tail * Q.itemSize + Q.itemSize ≤ a := by
      have hle := Nat.mul_le_mul_right Q.itemSize htail
      rw [Nat.succ_mul] at hle
      exact hle.trans ha
    show memcpyIn Q.buf (Q.tail * Q.itemSize) Q.itemSize item a = Q.buf a
    rw [memcpyIn, if_neg]
    omega

/-- `_dequeue_cs` only moves registers. -/
theorem dequeue (sz : Sizing) (Q : Queue) : QueueStays sz Q (dequeueCs Q).2.2 := by
  unfold dequeueCs
  split <;> exact ⟨fun _ _ => rfl, fun _ _ => rfl, ⟨rfl, rfl⟩, fun _ _ => rfl⟩

/-- Waking a receiver. -/
theorem wakeRx (hwf : ReadyWF sz k) (hr : sz.Representable) (hring : IdRing sz (k.queues i).rx) :
    Confined sz k (HardRT.wakeRx sz i k).2 := by
  have hset : Confined sz k
      (k.setQueue i { k.queues i with rx := ((k.queues i).rx.pop 256 sz.maxTasks).2 }) :=
    setQueue ⟨fun n _ => by rw [RingBuffer.pop_buf], fun _ _ => rfl, ⟨rfl, rfl⟩, fun _ _ => rfl⟩
  unfold HardRT.wakeRx wqPop
  rcases hp : (k.queues i).rx.pop 256 sz.maxTasks with ⟨_ | w, r⟩
  · rw [hp] at hset
    exact hset
  · rw [hp] at hset
    exact hset.trans (makeReady hwf (pop_lt hring hr (by rw [hp])))

/-- Waking a sender. -/
theorem wakeTx (hwf : ReadyWF sz k) (hr : sz.Representable) (hring : IdRing sz (k.queues i).tx) :
    Confined sz k (HardRT.wakeTx sz i k).2 := by
  have hset : Confined sz k
      (k.setQueue i { k.queues i with tx := ((k.queues i).tx.pop 256 sz.maxTasks).2 }) :=
    setQueue ⟨fun _ _ => rfl, fun n _ => by rw [RingBuffer.pop_buf], ⟨rfl, rfl⟩, fun _ _ => rfl⟩
  unfold HardRT.wakeTx wqPop
  rcases hp : (k.queues i).tx.pop 256 sz.maxTasks with ⟨_ | w, r⟩
  · rw [hp] at hset
    exact hset
  · rw [hp] at hset
    exact hset.trans (makeReady hwf (pop_lt hring hr (by rw [hp])))

/-- Storing an item and waking a receiver. -/
theorem put (h : k.Sound sz) (hr : sz.Representable) (i : ℕ) (item : List UInt8) :
    Confined sz k (HardRT.wakeRx sz i (k.setQueue i (enqueueCs item (k.queues i)).2)).2 := by
  refine (setQueue (enqueue (h.queues i).wf item)).trans (wakeRx (readyWF h rfl) hr ?_)
  show IdRing sz (Function.update k.queues i (enqueueCs item (k.queues i)).2 i).rx
  rw [Function.update_self, enqueueCs_rx]
  exact (h.queues i).rx

/-- Fetching an item and waking a sender. -/
theorem got (h : k.Sound sz) (hr : sz.Representable) (i : ℕ) :
    Confined sz k (HardRT.wakeTx sz i (k.setQueue i (dequeueCs (k.queues i)).2.2)).2 := by
  refine (setQueue (dequeue sz (k.queues i))).trans (wakeTx (readyWF h rfl) hr ?_)
  show IdRing sz (Function.update k.queues i (dequeueCs (k.queues i)).2.2 i).tx
  rw [Function.update_self, dequeueCs_tx]
  exact (h.queues i).tx

/-- The critical section of `hrt_queue_try_send`, from a task or an interrupt. -/
theorem trySendCs (h : k.Sound sz) (hr : sz.Representable) (i : ℕ) (item : List UInt8) :
    Confined sz k (hrtQueueTrySendCs sz i item k).2.2 := by
  unfold hrtQueueTrySendCs
  simp only
  split
  · exact put h hr i item
  · exact setQueue (enqueue (h.queues i).wf item)

/-- The critical section of `hrt_queue_try_recv`, from a task or an interrupt. -/
theorem tryRecvCs (h : k.Sound sz) (hr : sz.Representable) (i : ℕ) :
    Confined sz k (hrtQueueTryRecvCs sz i k).2.2.2 := by
  unfold hrtQueueTryRecvCs
  simp only
  split
  · exact got h hr i
  · exact setQueue (dequeue sz (k.queues i))

/-- The second critical section of `hrt_queue_send`. -/
theorem sendCs (h : k.Sound sz) (hr : sz.Representable) (ht : t < sz.maxTasks) (i : ℕ)
    (item : List UInt8) : Confined sz k (hrtQueueSendCs sz i t item k).2 := by
  unfold hrtQueueSendCs
  split
  · exact put h hr i item
  · refine parked (setQueue ⟨fun _ _ => rfl, fun n hn => ?_, ⟨rfl, rfl⟩, fun _ _ => rfl⟩) ht
    exact (h.queues i).tx.wf.push_buf hn _

/-- The second critical section of `hrt_queue_recv`. -/
theorem recvCs (h : k.Sound sz) (hr : sz.Representable) (ht : t < sz.maxTasks) (i : ℕ) :
    Confined sz k (hrtQueueRecvCs sz i t k).2 := by
  unfold hrtQueueRecvCs
  split
  · exact got h hr i
  · refine parked (setQueue ⟨fun n hn => ?_, fun _ _ => rfl, ⟨rfl, rfl⟩, fun _ _ => rfl⟩) ht
    exact (h.queues i).rx.wf.push_buf hn _

/-! ### Actions -/

/-- A round of `hrt_queue_send`, up to the second critical section. -/
theorem sendAttempt (h : k.Sound sz) (hr : sz.Representable) (t q : ℕ) (item : List UInt8) :
    Confined sz k (HardRT.sendAttempt sz t q item k).k := by
  have hsend := trySendCs h hr q item
  simp only [HardRT.sendAttempt]
  split
  · split <;> exact hsend
  · exact hsend

/-- A round of `hrt_queue_recv`, up to the second critical section. -/
theorem recvAttempt (h : k.Sound sz) (hr : sz.Representable) (t q : ℕ) :
    Confined sz k (HardRT.recvAttempt sz t q k).k := by
  have hrecv := tryRecvCs h hr q
  simp only [HardRT.recvAttempt]
  split
  · split <;> exact hrecv
  · exact hrecv

/-- The first action of a call by a task of the table. -/
theorem issue (h : k.Sound sz) (hr : sz.Representable) (port : Port) (ht : t < sz.maxTasks)
    (call : Call) : Confined sz k (HardRT.issue sz port t k call).k := by
  cases call with
  | createTask a => exact createTask h port a
  | yield => exact yieldBody h ht
  | sleep ms => exact sleepBody ht ms
  | taskDelete =>
      simp only [HardRT.issue]
      split
      · exact refl sz k
      · exact taskDeleteBody ht
  | setPolicy p => exact same rfl rfl ⟨rfl, rfl, rfl⟩
  | setDefaultTimeslice n => exact same rfl rfl ⟨rfl, rfl, rfl⟩
  | semTryTake i =>
      simp only [HardRT.issue]
      split <;> exact semTryTake i
  | semTake i =>
      simp only [HardRT.issue]
      split <;> exact semTryTake i
  | semGive i =>
      simp only [HardRT.issue]
      split <;> exact give h hr i
  | mutexTryLock i =>
      simp only [HardRT.issue]
      split <;> exact mutexTryLock i t
  | mutexLock i =>
      simp only [HardRT.issue]
      split
      · exact hrtError _
      · split <;> exact mutexTryLock i t
  | mutexUnlock i =>
      simp only [HardRT.issue]
      split <;> exact mutexUnlockCs h hr i t
  | queueTrySend q item =>
      have hsend := trySendCs h hr q item
      simp only [HardRT.issue]
      split
      · split <;> exact hsend
      · exact hsend
  | queueSend q item => exact sendAttempt h hr t q item
  | queueTryRecv q =>
      have hrecv := tryRecvCs h hr q
      simp only [HardRT.issue]
      split
      · split <;> exact hrecv
      · exact hrecv
  | queueRecv q => exact recvAttempt h hr t q

/-- **Every action of a task of the table** keeps within the arrays. -/
theorem nextAction (h : k.Sound sz) (hr : sz.Representable) {port : Port} (ht : t < sz.maxTasks)
    {call : Call} {c : Cont} {o : Outcome} (ho : HardRT.nextAction sz port t call k c = some o) :
    Confined sz k o.k := by
  cases c with
  | none => exact absurd ho (by simp [HardRT.nextAction])
  | hop a => exact absurd ho (by simp [HardRT.nextAction])
  | user =>
      obtain rfl := Option.some.inj ho
      exact issue h hr port ht call
  | yield a =>
      obtain rfl := Option.some.inj ho
      exact yieldBody h ht
  | pend a =>
      obtain rfl := Option.some.inj ho
      exact hrtPendContextSwitch
  | resumed a =>
      obtain rfl := Option.some.inj ho
      cases a with
      | ret c' code => exact refl sz k
      | sendAgain q item => exact sendAttempt h hr t q item
      | recvAgain q => exact recvAttempt h hr t q
  | semTake i =>
      obtain rfl := Option.some.inj ho
      simp only [semTakeAction]
      split <;> exact semTakeCs h ht i
  | mutexLock i =>
      obtain rfl := Option.some.inj ho
      simp only [mutexLockAction]
      split <;> exact mutexLockCs h ht i
  | queueSend q item =>
      obtain rfl := Option.some.inj ho
      simp only [queueSendAction]
      split <;> exact sendCs h hr ht q item
  | queueRecv q =>
      obtain rfl := Option.some.inj ho
      simp only [queueRecvAction]
      split <;> exact recvCs h hr ht q

/-- **Every ISR operation** keeps within the arrays. -/
theorem isrAction (h : k.Sound sz) (hr : sz.Representable) (op : Isr) :
    Confined sz k (HardRT.isrAction sz k op).2.1 := by
  have hpend : ∀ (w : Option ℕ) {x : Kernel}, Confined sz k x → Confined sz k (pendIfWoken w x) := by
    intro w x hx
    cases w with
    | none => exact hx
    | some w => exact hx.trans hrtPendContextSwitch
  cases op with
  | semGive i => exact hpend _ (give h hr i)
  | queueTrySend q item => exact hpend _ (trySendCs h hr q item)
  | queueTryRecv q => exact hpend _ (tryRecvCs h hr q)

/-- The calls of `main` keep within the arrays. -/
theorem main {s : Sys} (h : s.k.Sound sz) (port : Port) (c : MainCall) :
    Confined sz s.k (s.main sz port c).k := by
  cases c with
  | createTask a => exact createTask h port a
  | setPolicy p => exact same rfl rfl ⟨rfl, rfl, rfl⟩
  | setDefaultTimeslice n => exact same rfl rfl ⟨rfl, rfl, rfl⟩

end Confined

/-! ## Runs -/

section Runs

variable {sz : Sizing}

/-- **A step of the Cortex-M port** keeps within the arrays. -/
theorem CortexM.step_confined (hr : sz.Representable) {idleStack : ℕ} {s s' : Sys} {a : CortexM.Action}
    (h : s.k.Sound sz) (hstep : CortexM.step sz idleStack s a = some s') : Confined sz s.k s'.k := by
  cases a with
  | main c =>
      simp only [CortexM.step] at hstep
      split at hstep
      · obtain rfl := Option.some.inj hstep
        exact .main h _ c
      · exact absurd hstep (by simp)
  | start =>
      simp only [CortexM.step] at hstep
      split at hstep
      · obtain rfl := Option.some.inj hstep
        exact .hrtPendContextSwitch
      · exact absurd hstep (by simp)
  | task c =>
      obtain ⟨t, hcur, -, ⟨o, ho, rfl⟩ | ⟨x, -, rfl⟩⟩ := CortexM.step_task hstep
      · exact .nextAction h hr (h.current t hcur) ho
      · exact .hrtPendContextSwitch
  | isr op =>
      obtain rfl := Option.some.inj hstep
      exact .isrAction h hr op
  | tick =>
      obtain rfl := Option.some.inj hstep
      exact .tickIsr h hr
  | pendsv oldSp =>
      simp only [CortexM.step] at hstep
      split at hstep
      · obtain rfl := Option.some.inj hstep
        have hclear : Confined sz s.k { s.k with pend := false } := .same rfl rfl ⟨rfl, rfl, rfl⟩
        have hsound : ({ s.k with pend := false } : Kernel).Sound sz :=
          ⟨h.ready, h.sems, h.mutexes, h.queues, h.current⟩
        exact hclear.trans (.schedule hsound oldSp)
      · exact absurd hstep (by simp)

/-- **A step of the POSIX port** keeps within the arrays. -/
theorem Posix.step_confined (hr : sz.Representable) {s s' : Posix.State} {a : Posix.Action}
    (h : s.sys.k.Sound sz) (hstep : Posix.step sz s a = some s') : Confined sz s.sys.k s'.sys.k := by
  cases a with
  | main c =>
      obtain ⟨-, rfl⟩ := Posix.step_main hstep
      exact .main h .posix c
  | start =>
      obtain ⟨-, rfl⟩ := Posix.step_start hstep
      exact .hrtPendContextSwitch
  | loop =>
      rcases Posix.step_loop hstep with ⟨-, -, rfl⟩ | ⟨-, rfl⟩ | ⟨-, -, rfl⟩ | ⟨-, -, rfl⟩
      · exact .refl sz _
      · exact .same rfl rfl ⟨rfl, rfl, rfl⟩
      · exact .pick sz _
      · exact (Confined.pick sz s.sys.k).trans (.same rfl rfl ⟨rfl, rfl, rfl⟩)
  | task c =>
      obtain ⟨t, -, hcur, ⟨o, ho, rfl⟩ | ⟨x, -, hland⟩⟩ := Posix.step_task hstep
      · exact .nextAction h hr (h.current t hcur) ho
      · rcases hland with ⟨-, rfl⟩ | ⟨-, rfl⟩
        · exact .refl sz _
        · exact .schedulerEntry h
  | finish =>
      obtain ⟨t, -, -, -, rfl⟩ := Posix.step_finish hstep
      exact .refl sz _
  | isr op =>
      obtain rfl := Option.some.inj hstep
      exact .isrAction h hr op
  | tick alarm =>
      obtain rfl := Option.some.inj hstep
      show Confined sz s.sys.k (Posix.tickHandler sz alarm s.sys.k)
      rcases Posix.tickHandler_cases sz alarm s.sys.k with htick | htick
      · rw [htick]
        exact (Confined.tickIsr h hr).trans .hrtPendContextSwitch
      · rw [htick]
        exact .tickIsr h hr

/-- **The kernel writes within its arrays.** In every run of either port, from whatever memory, no
control block beyond the table, no queue beyond the ready queues, no cell beyond a ring and no byte
beyond the storage of a message queue differs from what it was after boot. -/
theorem runs_stay_in_bounds (hr : sz.Representable) (cfg : Option KernelConfig) (objs : ObjectSpecs)
    (mem : Kernel) :
    (∀ (idleStack : ℕ) (as : List CortexM.Action) (s : Sys),
      exec (CortexM.step sz idleStack) (CortexM.boot sz idleStack cfg objs mem) as = some s →
      Confined sz (CortexM.boot sz idleStack cfg objs mem).k s.k) ∧
    ∀ (as : List Posix.Action) (s : Posix.State),
      exec (Posix.step sz) (Posix.boot sz cfg objs mem) as = some s →
      Confined sz (Posix.boot sz cfg objs mem).sys.k s.sys.k := by
  refine ⟨fun idleStack as s hrun => ?_, fun as s hrun => ?_⟩
  · -- a kernel in order keeps within its arrays, and stays in order
    suffices hinv : (∃ s', s.Refines sz s') ∧
        Confined sz (CortexM.boot sz idleStack cfg objs mem).k s.k from hinv.2
    refine exec_invariant' (I := fun s => (∃ s', s.Refines sz s') ∧
      Confined sz (CortexM.boot sz idleStack cfg objs mem).k s.k) ?_ ?_ hrun
    · rintro s a s' ⟨⟨x, hx⟩, hconf⟩ hstep
      have hone : exec (CortexM.step sz idleStack) s [a] = some s' := exec_cons.mpr ⟨s', hstep, rfl⟩
      obtain ⟨x', -, hx'⟩ := exec_rel_left (CortexM.step_refines hr idleStack) hx hone
      exact ⟨⟨x', hx'⟩, hconf.trans (CortexM.step_confined hr hx.kernel.sound hstep)⟩
    · exact ⟨⟨_, Sys.Refines.boot sz _ cfg objs mem⟩, .refl sz _⟩
  · suffices hinv : (∃ s', Posix.Refines sz s s') ∧
        Confined sz (Posix.boot sz cfg objs mem).sys.k s.sys.k from hinv.2
    refine exec_invariant' (I := fun s => (∃ s', Posix.Refines sz s s') ∧
      Confined sz (Posix.boot sz cfg objs mem).sys.k s.sys.k) ?_ ?_ hrun
    · rintro s a s' ⟨⟨x, hx⟩, hconf⟩ hstep
      have hone : exec (Posix.step sz) s [a] = some s' := exec_cons.mpr ⟨s', hstep, rfl⟩
      obtain ⟨x', -, hx'⟩ := exec_rel_left (Posix.step_refines hr) hx hone
      exact ⟨⟨x', hx'⟩, hconf.trans (Posix.step_confined hr hx.1.kernel.sound hstep)⟩
    · exact ⟨⟨(.boot sz .posix cfg objs, .boot), Sys.Refines.boot sz .posix cfg objs mem, rfl⟩,
        .refl sz _⟩

/-- The one-byte storage of queue 0 after a task has sent itself a byte: the cell behind it is as it
was. -/
theorem runs_stay_in_bounds_selfSend :
    ∃ s, exec (CortexM.step .default 0x20000000) CortexM.board selfSend = some s ∧
      (s.k.queues 0).buf 0 = 7 ∧ (s.k.queues 0).buf 1 = (CortexM.board.k.queues 0).buf 1 := by
  have hr : Sizing.default.Representable := by decide
  have heval : ((exec (CortexM.step .default 0x20000000) CortexM.board selfSend).map fun s =>
      (s.k.queues 0).buf 0) = some 7 := by
    decide +kernel
  obtain ⟨s, hs, hbyte⟩ := Option.map_eq_some_iff.mp heval
  have hconf := (runs_stay_in_bounds hr none .basic .bss).1 0x20000000 selfSend s hs
  exact ⟨s, hs, hbyte, hconf.storage 0 1 (by decide)⟩

end Runs

end HardRT
