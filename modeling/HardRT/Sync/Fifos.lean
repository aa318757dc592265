import HardRT.Lib.BoundedFifo
import HardRT.Sync.Semaphore
import HardRT.Sync.Mutex
import HardRT.Sync.Queue

/-! # The id rings as bounded FIFOs

The kernel keeps task ids in rings that are written out four times: the ready queues of
`hardrt_core.c` and the wait FIFOs of `hardrt_sem.c`, `hardrt_mutex.c` and `hardrt_queue.c`. Each
behaves as the list it stands for, whatever the sequence of operations.

* `readySimulates` — `rq_push` and `hrt__pick_next_ready` implement FIFOs served level by level.
* `WaitFifo` — a wait FIFO with its push and pop helpers; `WaitFifo.refines` for all of them at once.
* `id_rings_refine_fifos` — both, from the zeroed state, with the bounds on the registers and on the
  cells that are accessed. -/

namespace HardRT

open Lib

/-! ## The ready queues -/

/-- The operations on the ready queues: `rq_push(p, id)` and `hrt__pick_next_ready()`. -/
def readyStep (sz : Sizing) (k : Kernel) : LevelOp ℕ → Option ℕ × Kernel
  | .push p id => (none, rqPush sz p id k)
  | .serve => (some (hrtPickNextReady sz k).1, (hrtPickNextReady sz k).2)

/-- The pushed id, if any, is one of a slot. -/
def LevelOp.InTable (sz : Sizing) : LevelOp ℕ → Prop
  | .push _ id => id < sz.maxTasks
  | .serve => True

/-- The lists `f` are those the ready rings stand for. -/
structure ReadyAs (sz : Sizing) (k : Kernel) (f : ℕ → List ℕ) : Prop where
  wf : ReadyWF sz k
  lists : ∀ p < sz.maxPrio, k.readyList sz p = f p

section Ready

variable {sz : Sizing} {k : Kernel} {f : ℕ → List ℕ}

/-- `rq_push` on lists: it appends if the priority exists and there is room. -/
theorem ReadyAs.push (h : ReadyAs sz k f) (hr : sz.Representable) {p id : ℕ} (hid : id < sz.maxTasks) :
    ReadyAs sz (rqPush sz p id k)
      (if p < sz.maxPrio ∧ (f p).length < sz.maxTasks then Function.update f p (f p ++ [id])
        else f) := by
  have hacc : RqAccepts sz k p ↔ p < sz.maxPrio ∧ (f p).length < sz.maxTasks := by
    refine and_congr_right fun hp => ?_
    rw [← h.lists p hp, Kernel.readyList, RingBuffer.length_toList]
  refine ⟨h.wf.push hr p id, fun q hq => ?_⟩
  split_ifs with hok
  · rw [rqPush_of_accepts (hacc.mpr hok), Kernel.readyList_setRq]
    by_cases hqp : q = p
    · subst hqp
      rw [if_pos rfl, Function.update_self, hr.mod_eq hid,
        RingBuffer.toList_put (h.wf q hq) hr.lt (hacc.mpr hok).2, ← h.lists q hq]
      rfl
    · rw [if_neg hqp, Function.update_of_ne hqp, h.lists q hq]
  · rw [Kernel.readyList_congr (rqPush_rq_of_not_accepts (fun ha => hok (hacc.mp ha)) _)]
    exact h.lists q hq

/-- `hrt__pick_next_ready` on lists: it answers and removes the head of the first one that has any. -/
theorem ReadyAs.pick (h : ReadyAs sz k f) (hr : sz.Representable) :
    some (hrtPickNextReady sz k).1 = (levelStep sz.maxPrio sz.maxTasks sz.idleId f .serve).1 ∧
    ReadyAs sz (hrtPickNextReady sz k).2 (levelStep sz.maxPrio sz.maxTasks sz.idleId f .serve).2 := by
  rcases pickNextReady_spec hr h.wf with ⟨hempty, heq⟩ | ⟨p, id, rest, hp, hpre, hl, heq⟩
  · -- nothing to serve: both answer the idle id
    rw [heq, levelStep_serve_of_nil fun q hq => (h.lists q hq).symm.trans (hempty q hq)]
    exact ⟨rfl, h⟩
  · have hserve := levelStep_serve_of_cons (n := sz.maxTasks) (d := sz.idleId) hp
      (fun q hq => (h.lists q (hq.trans hp)).symm.trans (hpre q hq)) ((h.lists p hp).symm.trans hl)
    rw [heq, hserve]
    refine ⟨rfl, h.wf.dropReady hr hl, fun q hq => ?_⟩
    show _ = Function.update f p rest q
    rw [readyList_dropReady (h.wf p hp) hr hl, Function.update_apply]
    split_ifs with hqp
    · rfl
    · exact h.lists q hq

/-- **The ready queues implement FIFOs served level by level.** -/
theorem readySimulates (hr : sz.Representable) :
    Simulates (LevelOp.InTable sz) (readyStep sz) (levelStep sz.maxPrio sz.maxTasks sz.idleId)
      (ReadyAs sz) where
  answer := by
    intro k f op hop h
    cases op with
    | push p id => rfl
    | serve => exact (h.pick hr).1
  next := by
    intro k f op hop h
    cases op with
    | push p id => exact h.push hr hop
    | serve => exact (h.pick hr).2

/-- The scan of `hrt__pick_next_ready` over the priorities `ps`: the cell `g_rq[p].q[head]` it reads. -/
def pickCells (k : Kernel) : List ℕ → List (ℕ × ℕ)
  | [] => []
  | p :: ps => if (k.rq p).count = 0 then pickCells k ps else [(p, (k.rq p).head)]

/-- The cells `g_rq[p].q[i]` that an operation accesses, as pairs `(p, i)`. -/
def readyCells (sz : Sizing) (k : Kernel) : LevelOp ℕ → List (ℕ × ℕ)
  | .push p _ => if RqAccepts sz k p then [(p, (k.rq p).tail)] else []
  | .serve => pickCells k (List.range sz.maxPrio)

/-- The scan reads from one of the queues it looks at, at the head. -/
theorem mem_pickCells {k : Kernel} {ps : List ℕ} {c : ℕ × ℕ} (hc : c ∈ pickCells k ps) :
    c.1 ∈ ps ∧ c.2 = (k.rq c.1).head := by
  induction ps with
  | nil => exact absurd hc List.not_mem_nil
  | cons p ps ih =>
      rw [pickCells] at hc
      split_ifs at hc
      · exact ⟨List.mem_cons_of_mem _ (ih hc).1, (ih hc).2⟩
      · obtain rfl := List.mem_singleton.mp hc
        exact ⟨List.mem_cons_self, rfl⟩

/-- Well-formed ready rings are accessed inside their arrays. -/
theorem ReadyWF.readyCells_lt (hwf : ReadyWF sz k) (op : LevelOp ℕ) :
    ∀ c ∈ readyCells sz k op, c.1 < sz.maxPrio ∧ c.2 < sz.maxTasks := by
  intro c hc
  cases op with
  | push p id =>
      simp only [readyCells] at hc
      split_ifs at hc with hacc
      · obtain rfl := List.mem_singleton.mp hc
        exact ⟨hacc.1, (hwf p hacc.1).sound.tail_lt⟩
      · exact absurd hc List.not_mem_nil
  | serve =>
      obtain ⟨hmem, heq⟩ := mem_pickCells hc
      have hp := List.mem_range.mp hmem
      exact ⟨hp, heq ▸ (hwf _ hp).head_lt⟩

end Ready

/-! ## The wait FIFOs -/

/-- **A wait FIFO**: where its ring is, and its push and pop helpers, which act on the ring as the ring
operations of `HARDRT_MAX_TASKS` cells and `uint8_t` registers do. -/
structure WaitFifo (sz : Sizing) (σ : Type) where
  ring : σ → RingBuffer ℕ
  push : ℕ → σ → σ
  pop : σ → Option ℕ × σ
  ring_push : ∀ id s, ring (push id s) = (ring s).push 256 sz.maxTasks id
  pop_fst : ∀ s, (pop s).1 = ((ring s).pop 256 sz.maxTasks).1
  ring_pop : ∀ s, ring (pop s).2 = ((ring s).pop 256 sz.maxTasks).2

namespace WaitFifo

variable {sz : Sizing} {σ : Type}

/-- `_waitq_push` and `_waitq_pop` of `hardrt_sem.c`. -/
def sem (sz : Sizing) : WaitFifo sz Sem where
  ring s := s.waitq
  push := semWaitqPush sz
  pop := semWaitqPop sz
  ring_push _ _ := rfl
  pop_fst _ := rfl
  ring_pop _ := rfl

/-- `_waitq_push` and `_waitq_pop` of `hardrt_mutex.c`. -/
def mutex (sz : Sizing) : WaitFifo sz Mutex where
  ring m := m.waitq
  push := mutexWaitqPush sz
  pop := mutexWaitqPop sz
  ring_push _ _ := rfl
  pop_fst _ := rfl
  ring_pop _ := rfl

/-- `_wq_push` and `_wq_pop` of `hardrt_queue.c` on the parked receivers. -/
def rx (sz : Sizing) : WaitFifo sz Queue where
  ring q := q.rx
  push id q := { q with rx := wqPush sz id q.rx }
  pop q := ((wqPop sz q.rx).1, { q with rx := (wqPop sz q.rx).2 })
  ring_push _ _ := rfl
  pop_fst _ := rfl
  ring_pop _ := rfl

/-- `_wq_push` and `_wq_pop` of `hardrt_queue.c` on the parked senders. -/
def tx (sz : Sizing) : WaitFifo sz Queue where
  ring q := q.tx
  push id q := { q with tx := wqPush sz id q.tx }
  pop q := ((wqPop sz q.tx).1, { q with tx := (wqPop sz q.tx).2 })
  ring_push _ _ := rfl
  pop_fst _ := rfl
  ring_pop _ := rfl

/-- The operations on a wait FIFO. -/
def step (F : WaitFifo sz σ) (s : σ) : FifoOp ℕ → Option ℕ × σ
  | .push id => (none, F.push id s)
  | .pop => F.pop s

/-- The helpers are the operations of the ring. -/
theorem simulates_ring (F : WaitFifo sz σ) :
    Simulates (fun _ => True) F.step (RingBuffer.step 256 sz.maxTasks) fun s r => F.ring s = r where
  answer := by
    rintro s r op - rfl
    cases op with
    | push id => rfl
    | pop => exact F.pop_fst s
  next := by
    rintro s r op - rfl
    cases op with
    | push id => exact F.ring_push id s
    | pop => exact F.ring_pop s

/-- **A wait FIFO behaves as a list of at most `HARDRT_MAX_TASKS` ids**, along every sequence of
operations from a zeroed ring, and its ring stays sound. -/
def RefinesList (F : WaitFifo sz σ) : Prop :=
  ∀ (s : σ) (ops : List (FifoOp ℕ)), (F.ring s).head = 0 → (F.ring s).tail = 0 → (F.ring s).count = 0 →
    (runOps F.step ops s).1 = (runOps (fifoStep sz.maxTasks) ops []).1 ∧
    (F.ring (runOps F.step ops s).2).toList sz.maxTasks = (runOps (fifoStep sz.maxTasks) ops []).2 ∧
    ((F.ring (runOps F.step ops s).2).toList sz.maxTasks).length ≤ sz.maxTasks ∧
    (F.ring (runOps F.step ops s).2).Sound sz.maxTasks

/-- A ring whose registers are zero stands for the empty list. -/
theorem zeroed (sz : Sizing) {r : RingBuffer ℕ} (hh : r.head = 0) (ht : r.tail = 0) (hc : r.count = 0) :
    r.WF sz.maxTasks ∧ r.toList sz.maxTasks = [] := by
  refine ⟨⟨hh ▸ sz.maxTasks_pos, ?_, hc ▸ Nat.zero_le _⟩, RingBuffer.toList_eq_nil_iff.mpr hc⟩
  rw [hh, ht, hc]
  simp

/-- Every wait FIFO refines a list. -/
theorem refines (F : WaitFifo sz σ) (hr : sz.Representable) : F.RefinesList := by
  intro s ops hh ht hc
  -- two refinements on top of each other: helpers by the ring, the ring by the list
  obtain ⟨hans, hring⟩ := F.simulates_ring.runOps ops (fun _ _ => trivial) (s := s) rfl
  obtain ⟨hans', hwf, hlist⟩ := (RingBuffer.simulates hr.lt).runOps ops (fun _ _ => trivial)
    (zeroed sz hh ht hc)
  rw [hring]
  refine ⟨hans.trans hans', hlist, ?_, hwf.sound⟩
  rw [RingBuffer.length_toList]
  exact hwf.count_le

end WaitFifo

/-! ## All id rings -/

/-- **The id rings refine bounded FIFOs.** For every representable sizing and every sequence of
operations on zeroed rings, the ready queues answer `rq_push` and `hrt__pick_next_ready` as one list per
priority does and hold these lists, and so do the wait FIFOs of semaphores, mutexes and message queues;
all registers stay in range and consistent, and every array access is in bounds. -/
theorem id_rings_refine_fifos (sz : Sizing) (hr : sz.Representable) :
    (∀ (k : Kernel) (ops : List (LevelOp ℕ)),
      (∀ p < sz.maxPrio, (k.rq p).head = 0 ∧ (k.rq p).tail = 0 ∧ (k.rq p).count = 0) →
      (∀ op ∈ ops, LevelOp.InTable sz op) →
        (runOps (readyStep sz) ops k).1 =
          (runOps (levelStep sz.maxPrio sz.maxTasks sz.idleId) ops fun _ => []).1 ∧
        (∀ p < sz.maxPrio,
          (runOps (readyStep sz) ops k).2.readyList sz p =
            (runOps (levelStep sz.maxPrio sz.maxTasks sz.idleId) ops fun _ => []).2 p ∧
          ((runOps (readyStep sz) ops k).2.rq p).Sound sz.maxTasks) ∧
        ∀ op, ∀ c ∈ readyCells sz (runOps (readyStep sz) ops k).2 op,
          c.1 < sz.maxPrio ∧ c.2 < sz.maxTasks) ∧
    (WaitFifo.sem sz).RefinesList ∧ (WaitFifo.mutex sz).RefinesList ∧
    (WaitFifo.rx sz).RefinesList ∧ (WaitFifo.tx sz).RefinesList := by
  refine ⟨fun k ops hzero hops => ?_, WaitFifo.refines _ hr, WaitFifo.refines _ hr,
    WaitFifo.refines _ hr, WaitFifo.refines _ hr⟩
  have hinit : ReadyAs sz k fun _ => [] :=
    ⟨fun p hp => (WaitFifo.zeroed sz (hzero p hp).1 (hzero p hp).2.1 (hzero p hp).2.2).1,
      fun p hp => (WaitFifo.zeroed sz (hzero p hp).1 (hzero p hp).2.1 (hzero p hp).2.2).2⟩
  obtain ⟨hans, hend⟩ := (readySimulates hr).runOps ops hops hinit
  exact ⟨hans, fun p hp => ⟨hend.lists p hp, (hend.wf p hp).sound⟩, hend.wf.readyCells_lt⟩

/-- Two tasks pushed at different priorities of the default build and three picks. -/
theorem id_rings_refine_fifos_two_tasks :
    (runOps (readyStep .default) [.push 1 2, .push 0 3, .serve, .serve, .serve] Kernel.bss).1 =
      [none, none, some 3, some 2, some 8] :=
  ((id_rings_refine_fifos .default (by decide)).1 Kernel.bss
    [.push 1 2, .push 0 3, .serve, .serve, .serve] (fun _ _ => ⟨rfl, rfl, rfl⟩)
    (by simp [LevelOp.InTable, Sizing.default])).1.trans (by decide)

end HardRT
