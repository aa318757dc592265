import HardRT.Lib.TokenPool
import HardRT.Protocol.BlockedTasks

/-! # Semaphores refine token pools

The semaphore object implements `Lib.TokenPool`: `Sem.pool` is the abstraction function, `Event.token`
projects the system log to one semaphore, and `sem_refines` says that every step of the interleaving
machine is a move of every pool that emits the projected events. Token conservation
(`sem_token_conservation`) is the balance of the pool read off the log. -/

namespace HardRT

open Lib

/-! ## The abstraction -/

/-- The pool event an event is, at semaphore `i`. -/
def Event.token (i : ℕ) : Event → Option (TokenEvent ℕ)
  | .semTaken i' t => if i' = i then some (.taken t) else none
  | .semParked i' t => if i' = i then some (.parked t) else none
  | .semGiven i' => if i' = i then some .given else none
  | .semHandoff i' t => if i' = i then some (.handoff t) else none
  | .semSaturated i' => if i' = i then some .saturated else none
  | _ => none

/-- The pool a semaphore implements. -/
def Sem.pool (sz : Sizing) (S : Sem) : TokenPool ℕ where
  count := S.count
  max := S.maxCount
  waiters := S.waitq.toList sz.maxTasks

/-- The registers of a semaphore are consistent: the count is within its bound, which is a non-zero
`uint8_t`. -/
structure Sem.WF (S : Sem) : Prop where
  count_le : S.count ≤ S.maxCount
  max_pos : 1 ≤ S.maxCount
  max_le : S.maxCount ≤ 255

/-- The change of the semaphores from `k` to `k'` is, at each semaphore, a pool move that emits the
events `evs`; registers stay consistent. -/
def SemStep (sz : Sizing) (k k' : Kernel) (evs : List Event) : Prop :=
  ∀ i, TokenPool.Step ((k.sems i).pool sz) (evs.filterMap (Event.token i)) ((k'.sems i).pool sz) ∧
    (k'.sems i).WF

section SemStep

variable {sz : Sizing} {k k' : Kernel} {evs : List Event} {i : ℕ}

/-- Nothing happened at any semaphore. -/
theorem SemStep.same (hS : ∀ i, (k.sems i).WF) (hk : k'.sems = k.sems)
    (hev : ∀ i, evs.filterMap (Event.token i) = []) : SemStep sz k k' evs := by
  intro i
  rw [hk, hev i]
  exact ⟨.idle _, hS i⟩

/-- The move is determined by the semaphores. -/
theorem SemStep.congr {k'' : Kernel} (h : SemStep sz k k' evs) (hk : k''.sems = k'.sems) :
    SemStep sz k k'' evs := by
  intro i
  rw [hk]
  exact h i

/-- One semaphore made a move. -/
theorem SemStep.update (hS : ∀ i, (k.sems i).WF) {S' : Sem}
    (hk : k'.sems = Function.update k.sems i S') (hwf : S'.WF)
    (hstep : TokenPool.Step ((k.sems i).pool sz) (evs.filterMap (Event.token i)) (S'.pool sz))
    (hother : ∀ j, j ≠ i → evs.filterMap (Event.token j) = []) : SemStep sz k k' evs := by
  intro j
  by_cases hj : j = i
  · subst hj
    rw [hk, Function.update_self]
    exact ⟨hstep, hwf⟩
  · rw [hk, Function.update_of_ne hj, hother j hj]
    exact ⟨.idle _, hS j⟩

/-- **Decrementing the count** is a take move. -/
theorem SemStep.take (hS : ∀ i, (k.sems i).WF) (hpos : (k.sems i).count ≠ 0) {t : ℕ}
    (hev : ∀ j, evs.filterMap (Event.token j) = if i = j then [.taken t] else []) :
    SemStep sz k (k.setSem i { k.sems i with count := (k.sems i).count - 1 }) evs := by
  have hle := (hS i).count_le
  refine SemStep.update hS (i := i) rfl ⟨?_, (hS i).max_pos, (hS i).max_le⟩ ?_ ?_
  · exact (Nat.sub_le _ _).trans hle
  · rw [hev i, if_pos rfl]
    exact .take (c := (k.sems i).pool sz) t (Nat.pos_of_ne_zero hpos)
  · intro j hj
    rw [hev j, if_neg (Ne.symm hj)]

/-- **Parking** is a park move. -/
theorem SemStep.park (hS : ∀ i, (k.sems i).WF) (hring : ∀ w, (k.ring w).WF sz.maxTasks)
    (hr : sz.Representable) {t : ℕ} (ht : Parkable sz t k) (h0 : (k.sems i).count = 0)
    (hk : k'.sems = Function.update k.sems i (semWaitqPush sz (t % 256) (k.sems i))) :
    SemStep sz k k' [.semParked i t] := by
  have hpush : (semWaitqPush sz (t % 256) (k.sems i)).pool sz =
      { (k.sems i).pool sz with waiters := ((k.sems i).pool sz).waiters ++ [t] } := by
    simp only [Sem.pool, semWaitqPush, TokenPool.mk.injEq, true_and]
    exact ht.toList_push hr (hring (.sem i))
  refine SemStep.update hS hk ⟨(hS i).count_le, (hS i).max_pos, (hS i).max_le⟩ ?_ ?_
  · rw [hpush]
    simpa [Event.token] using TokenPool.Step.park (c := (k.sems i).pool sz) h0 (ht.fresh (.sem i))
  · intro j hj
    simp [Event.token, Ne.symm hj]

/-- The semaphores after the critical section of a give. -/
theorem giveCommonCs_sems (sz : Sizing) (i : ℕ) (k : Kernel) :
    (giveCommonCs sz i k).1 = ((k.sems i).waitq.pop 256 sz.maxTasks).1 ∧
    (giveCommonCs sz i k).2.sems = Function.update k.sems i
      (match ((k.sems i).waitq.pop 256 sz.maxTasks).1 with
        | some _ => { k.sems i with waitq := ((k.sems i).waitq.pop 256 sz.maxTasks).2 }
        | none => if (k.sems i).count < (k.sems i).maxCount then
            { k.sems i with
              waitq := ((k.sems i).waitq.pop 256 sz.maxTasks).2
              count := ((k.sems i).count + 1) % 256 }
          else { k.sems i with waitq := ((k.sems i).waitq.pop 256 sz.maxTasks).2 }) := by
  unfold giveCommonCs semWaitqPop
  cases hp : ((k.sems i).waitq.pop 256 sz.maxTasks).1 with
  | some w => exact ⟨rfl, hrtMakeReady_sems _ _ _⟩
  | none => exact ⟨rfl, rfl⟩

/-- **A give** is a handoff, store or saturate move. -/
theorem SemStep.give (hS : ∀ i, (k.sems i).WF) (hring : ∀ w, (k.ring w).WF sz.maxTasks)
    (hr : sz.Representable)
    (hev : ∀ j, evs.filterMap (Event.token j) =
      (giveEvents i (giveCommonCs sz i k).1 (k.sems i)).filterMap (Event.token j)) :
    SemStep sz k (giveCommonCs sz i k).2 evs := by
  obtain ⟨hfst, hsems⟩ := giveCommonCs_sems sz i k
  obtain ⟨hhead, htail⟩ := RingBuffer.pop_spec (hring (.sem i)) hr.lt.le
  have hhead' : ((k.sems i).waitq.pop 256 sz.maxTasks).1 =
      ((k.sems i).waitq.toList sz.maxTasks).head? := hhead
  have htail' : ((k.sems i).waitq.pop 256 sz.maxTasks).2.toList sz.maxTasks =
      ((k.sems i).waitq.toList sz.maxTasks).tail := htail
  have hwf := hS i
  have hother : ∀ j, j ≠ i → evs.filterMap (Event.token j) = [] := by
    intro j hj
    rw [hev j]
    unfold giveEvents
    split
    · simp [Event.token, Ne.symm hj]
    · split_ifs <;> simp [Event.token, Ne.symm hj]
  cases hp : ((k.sems i).waitq.pop 256 sz.maxTasks).1 with
  | some w =>
      rw [hp] at hsems hfst hhead'
      obtain ⟨rest, hl⟩ := List.head?_eq_some_iff.mp hhead'.symm
      refine SemStep.update hS hsems ⟨hwf.count_le, hwf.max_pos, hwf.max_le⟩ ?_ hother
      rw [hev i, hfst]
      have hmove := TokenPool.Step.handoff (c := (k.sems i).pool sz) hl
      have hafter : Sem.pool sz { k.sems i with waitq := ((k.sems i).waitq.pop 256 sz.maxTasks).2 } =
          { (k.sems i).pool sz with waiters := rest } := by
        simp only [Sem.pool, htail', hl, List.tail_cons]
      rw [hafter]
      simpa [giveEvents, Event.token] using hmove
  | none =>
      rw [hp] at hsems hfst hhead'
      have hnil : (k.sems i).waitq.toList sz.maxTasks = [] := List.head?_eq_none_iff.mp hhead'.symm
      rw [hnil, List.tail_nil] at htail'
      by_cases hlt : (k.sems i).count < (k.sems i).maxCount
      · simp only [if_pos hlt] at hsems
        -- the count is below a `uint8_t` bound, so the increment does not wrap
        have hmod : ((k.sems i).count + 1) % 256 = (k.sems i).count + 1 := by
          have := hwf.max_le
          omega
        rw [hmod] at hsems
        refine SemStep.update hS hsems ⟨hlt, hwf.max_pos, hwf.max_le⟩ ?_ hother
        rw [hev i, hfst]
        have hmove := TokenPool.Step.store (c := (k.sems i).pool sz) hnil hlt
        have hafter : Sem.pool sz { k.sems i with
            waitq := ((k.sems i).waitq.pop 256 sz.maxTasks).2
            count := (k.sems i).count + 1 } =
            { (k.sems i).pool sz with count := ((k.sems i).pool sz).count + 1 } := by
          simp only [Sem.pool, htail', hnil]
        rw [hafter]
        simpa [giveEvents, Event.token, hlt] using hmove
      · simp only [if_neg hlt] at hsems
        refine SemStep.update hS hsems ⟨hwf.count_le, hwf.max_pos, hwf.max_le⟩ ?_ hother
        rw [hev i, hfst]
        have hmove := TokenPool.Step.saturate (c := (k.sems i).pool sz) hnil (Nat.le_of_not_lt hlt)
        have hafter : Sem.pool sz { k.sems i with
            waitq := ((k.sems i).waitq.pop 256 sz.maxTasks).2 } = (k.sems i).pool sz := by
          simp only [Sem.pool, htail', hnil]
        rw [hafter]
        simpa [giveEvents, Event.token, hlt] using hmove

end SemStep

/-! ## Every step is a pool move -/

section Refinement

variable {sz : Sizing} {port : Port} {t : ℕ} {k : Kernel} {call : Call} {c : Cont} {o : Outcome}

/-- The first action of a call is a pool move. -/
theorem issue_semStep (port : Port) (call : Call) (hS : ∀ i, (k.sems i).WF)
    (hring : ∀ w, (k.ring w).WF sz.maxTasks)
    (hr : sz.Representable) :
    SemStep sz k (issue sz port t k call).k (issue sz port t k call).evs := by
  cases call with
  | createTask a => exact SemStep.same hS (hrtCreateTask_objects sz port a k).sems fun i => rfl
  | yield => exact SemStep.same hS (hrtYieldBody_objects sz t k).sems fun i => rfl
  | sleep ms => exact SemStep.same hS rfl fun i => rfl
  | taskDelete =>
      simp only [issue]
      split <;> exact SemStep.same hS rfl fun i => rfl
  | setPolicy p => exact SemStep.same hS rfl fun i => rfl
  | setDefaultTimeslice n => exact SemStep.same hS rfl fun i => rfl
  | semTryTake i =>
      by_cases h0 : (k.sems i).count = 0
      · simp only [issue, hrtSemTryTake, if_neg (not_not.mpr h0)]
        exact SemStep.same hS rfl fun j => rfl
      · simp only [issue, hrtSemTryTake, if_pos h0, if_true]
        refine SemStep.take hS h0 (t := t) fun j => ?_
        by_cases h : i = j <;> simp [Event.token, h]
  | semTake i =>
      by_cases h0 : (k.sems i).count = 0
      · simp only [issue, hrtSemTryTake, if_neg (not_not.mpr h0)]
        exact SemStep.same hS rfl fun j => rfl
      · simp only [issue, hrtSemTryTake, if_pos h0, if_true]
        refine SemStep.take hS h0 (t := t) fun j => ?_
        by_cases h : i = j <;> simp [Event.token, h]
  | semGive i =>
      simp only [issue]
      split
      · rename_i w hw
        exact SemStep.give hS hring hr fun j => by rw [hw]
      · rename_i hw
        refine SemStep.give hS hring hr fun j => ?_
        rw [hw, List.filterMap_append]
        exact List.append_nil _
  | mutexTryLock i =>
      simp only [issue]
      split <;> exact SemStep.same hS hrtMutexTryLock_frame.1 fun j => rfl
  | mutexLock i =>
      simp only [issue]
      split_ifs
      · exact SemStep.same hS rfl fun j => rfl
      · exact SemStep.same hS hrtMutexTryLock_frame.1 fun j => rfl
      · exact SemStep.same hS hrtMutexTryLock_frame.1 fun j => rfl
  | mutexUnlock i =>
      simp only [issue]
      split <;> exact SemStep.same hS hrtMutexUnlockCs_frame.1 fun j => rfl
  | queueTrySend q item =>
      simp only [issue]
      split
      · split <;> exact SemStep.same hS hrtQueueTrySendCs_frame.1 fun j => rfl
      · exact SemStep.same hS hrtQueueTrySendCs_frame.1 fun j => rfl
  | queueSend q item =>
      simp only [issue, sendAttempt]
      split
      · split <;> exact SemStep.same hS hrtQueueTrySendCs_frame.1 fun j => rfl
      · exact SemStep.same hS hrtQueueTrySendCs_frame.1 fun j => rfl
  | queueTryRecv q =>
      simp only [issue]
      split
      · split <;> exact SemStep.same hS hrtQueueTryRecvCs_frame.1 fun j => rfl
      · exact SemStep.same hS hrtQueueTryRecvCs_frame.1 fun j => rfl
  | queueRecv q =>
      simp only [issue, recvAttempt]
      split
      · split <;> exact SemStep.same hS hrtQueueTryRecvCs_frame.1 fun j => rfl
      · exact SemStep.same hS hrtQueueTryRecvCs_frame.1 fun j => rfl

/-- **Every action of a task is a pool move.** -/
theorem task_semStep (hS : ∀ i, (k.sems i).WF) (hring : ∀ w, (k.ring w).WF sz.maxTasks)
    (hr : sz.Representable) (ht : c.rechecks = true → Parkable sz t k)
    (h : nextAction sz port t call k c = some o) : SemStep sz k o.k o.evs := by
  cases c with
  | none => exact absurd h (by simp [nextAction])
  | hop a => exact absurd h (by simp [nextAction])
  | user =>
      obtain rfl := Option.some.inj h
      exact issue_semStep port call hS hring hr
  | yield a =>
      obtain rfl := Option.some.inj h
      exact SemStep.same hS (hrtYieldBody_objects sz t k).sems fun i => rfl
  | pend a =>
      obtain rfl := Option.some.inj h
      exact SemStep.same hS rfl fun i => rfl
  | resumed a =>
      obtain rfl := Option.some.inj h
      cases a with
      | ret c' code => exact SemStep.same hS rfl fun i => rfl
      | sendAgain q item => exact issue_semStep port (.queueSend q item) hS hring hr
      | recvAgain q => exact issue_semStep port (.queueRecv q) hS hring hr
  | semTake i =>
      obtain rfl := Option.some.inj h
      by_cases h0 : (k.sems i).count = 0
      · simp only [semTakeAction, hrtSemTakeCs, if_neg (not_not.mpr h0)]
        exact SemStep.park hS hring hr (ht rfl) h0 rfl
      · simp only [semTakeAction, hrtSemTakeCs, if_pos h0, if_true]
        refine SemStep.take hS h0 (t := t) fun j => ?_
        by_cases h : i = j <;> simp [Event.token, h]
  | mutexLock i =>
      obtain rfl := Option.some.inj h
      simp only [mutexLockAction]
      split <;> exact SemStep.same hS hrtMutexLockCs_frame.1 fun j => rfl
  | queueSend q item =>
      obtain rfl := Option.some.inj h
      simp only [queueSendAction]
      split
      · refine SemStep.same hS hrtQueueSendCs_frame.1 fun j => ?_
        rename_i w _
        cases w <;> rfl
      · exact SemStep.same hS hrtQueueSendCs_frame.1 fun j => rfl
  | queueRecv q =>
      obtain rfl := Option.some.inj h
      simp only [queueRecvAction]
      split
      · refine SemStep.same hS hrtQueueRecvCs_frame.1 fun j => ?_
        rename_i w _
        cases w <;> rfl
      · exact SemStep.same hS hrtQueueRecvCs_frame.1 fun j => rfl

/-- **Every ISR operation is a pool move.** -/
theorem isr_semStep (hS : ∀ i, (k.sems i).WF) (hring : ∀ w, (k.ring w).WF sz.maxTasks)
    (hr : sz.Representable) (op : Isr) :
    SemStep sz k (isrAction sz k op).2.1 (isrAction sz k op).2.2 := by
  have hpend : ∀ (w : Option ℕ) (k' : Kernel), (pendIfWoken w k').sems = k'.sems := by
    intro w k'
    cases w <;> rfl
  cases op with
  | semGive i =>
      exact (SemStep.give hS hring hr fun j => rfl).congr (hpend _ _)
  | queueTrySend q item =>
      refine SemStep.same hS ((hpend _ _).trans hrtQueueTrySendCs_frame.1) fun j => ?_
      simp only [isrAction]
      split
      · cases (hrtQueueTrySendFromIsrCs sz q item k).2.1 <;> rfl
      · rfl
  | queueTryRecv q =>
      refine SemStep.same hS ((hpend _ _).trans hrtQueueTryRecvCs_frame.1) fun j => ?_
      simp only [isrAction]
      split
      · cases (hrtQueueTryRecvFromIsrCs sz q k).2.2.1 <;> rfl
      · rfl

variable {s s' : Sys}

/-- **Semaphores refine token pools**: every step of the interleaving machine is, at every semaphore, a
move of its pool that emits the logged events. -/
theorem sem_refines (hr : sz.Representable) {a : Interleave.Action} (hinv : PartInv sz s)
    (hS : ∀ i, (s.k.sems i).WF) (hstep : Interleave.step sz port s a = some s') :
    ∃ es, s'.log = s.log ++ es ∧ SemStep sz s.k s'.k es := by
  rcases Interleave.step_cases hstep with ⟨t, c, o, -, -, ho, rfl⟩ | ⟨t, c, x, -, -, rfl⟩ |
    ⟨op, -, rfl⟩ | ⟨hsame, hlog, -⟩
  · refine ⟨o.evs, rfl, ?_⟩
    have hcur := hinv.setCurrent t
    exact task_semStep (k := (s.setCurrent t).k) hS hcur.part.wf hr (hcur.parkable t) ho
  · exact ⟨[], (List.append_nil _).symm, SemStep.same hS rfl fun i => rfl⟩
  · exact ⟨_, rfl, isr_semStep hS hinv.part.wf hr op⟩
  · exact ⟨[], hlog.trans (List.append_nil _).symm, SemStep.same hS hsame.sems fun i => rfl⟩

end Refinement

/-! ## The result -/

/-- The initial count a semaphore is meant to have: the requested one, clamped to its bound. -/
def SemSpec.initCount : SemSpec → ℕ
  | .binary init => min init 1
  | .counting init maxCount => min init (max maxCount 1)

/-- The bound a semaphore is meant to have. -/
def SemSpec.bound : SemSpec → ℕ
  | .binary _ => 1
  | .counting _ maxCount => max maxCount 1

/-- The initialisers set the clamped count and the bound, and empty the FIFO. -/
theorem SemSpec.apply_spec (spec : SemSpec) (S : Sem) :
    (spec.apply S).count = spec.initCount ∧ (spec.apply S).maxCount = spec.bound ∧
    (spec.apply S).waitq.count = 0 := by
  cases spec with
  | binary init =>
      refine ⟨?_, rfl, rfl⟩
      simp only [SemSpec.apply, hrtSemInit, SemSpec.initCount]
      split <;> omega
  | counting init maxCount =>
      have hlt := maxCount.isLt
      refine ⟨?_, ?_, rfl⟩
      · simp only [SemSpec.apply, hrtSemInitCounting, SemSpec.initCount]
        split_ifs <;> omega
      · simp only [SemSpec.apply, hrtSemInitCounting, SemSpec.bound]
        split_ifs <;> omega

theorem SemSpec.bound_le (spec : SemSpec) : 1 ≤ spec.bound ∧ spec.bound ≤ 255 := by
  cases spec with
  | binary init => exact ⟨Nat.le_refl 1, show 1 ≤ 255 by decide⟩
  | counting init maxCount =>
      have hlt := maxCount.isLt
      simp only [SemSpec.bound]
      omega

theorem SemSpec.initCount_le (spec : SemSpec) : spec.initCount ≤ spec.bound := by
  cases spec with
  | binary init => exact Nat.min_le_right _ _
  | counting init maxCount => exact Nat.min_le_right _ _

section Results

variable {sz : Sizing} {port : Port} {cfg : Option KernelConfig} {objs : ObjectSpecs} {mem : Kernel}
  {as : List Interleave.Action} {s : Sys}

/-- The events of semaphore `i` in a log. -/
def semLog (i : ℕ) (log : List Event) : List (TokenEvent ℕ) := log.filterMap (Event.token i)

/-- After boot every semaphore is consistent. -/
theorem Sem.WF.boot (sz : Sizing) (port : Port) (cfg : Option KernelConfig) (objs : ObjectSpecs)
    (mem : Kernel) (i : ℕ) : ((Sys.boot sz port cfg objs mem).k.sems i).WF := by
  obtain ⟨hc, hm, -⟩ := (objs.sem i).apply_spec (mem.sems i)
  obtain ⟨hpos, hle⟩ := (objs.sem i).bound_le
  refine ⟨?_, ?_, ?_⟩
  · exact (hc.trans_le (objs.sem i).initCount_le).trans_eq hm.symm
  · exact hpos.trans_eq hm.symm
  · exact hm.trans_le hle

/-- **Trace refinement.** In every reachable state the log, projected to a semaphore, is a trace of its
pool from the initial one to the present one. -/
theorem sem_trace (hr : sz.Representable)
    (hrun : exec (Interleave.step sz port) (Sys.boot sz port cfg objs mem) as = some s) (i : ℕ) :
    Trace TokenPool.Step ⟨(objs.sem i).initCount, (objs.sem i).bound, []⟩ (semLog i s.log)
      ((s.k.sems i).pool sz) ∧ (s.k.sems i).WF ∧ PartInv sz s := by
  have hpool : ((Sys.boot sz port cfg objs mem).k.sems i).pool sz =
      ⟨(objs.sem i).initCount, (objs.sem i).bound, []⟩ := by
    obtain ⟨hc, hm, hw⟩ := (objs.sem i).apply_spec (mem.sems i)
    show Sem.pool sz ((objs.sem i).apply (mem.sems i)) = _
    rw [Sem.pool, hc, hm, RingBuffer.toList_eq_nil_iff.mpr hw]
  suffices hinv : PartInv sz s ∧ (∀ i, (s.k.sems i).WF) ∧
      Trace TokenPool.Step ⟨(objs.sem i).initCount, (objs.sem i).bound, []⟩ (semLog i s.log)
        ((s.k.sems i).pool sz) from ⟨hinv.2.2, hinv.2.1 i, hinv.1⟩
  refine exec_invariant' (I := fun s => PartInv sz s ∧ (∀ i, (s.k.sems i).WF) ∧
      Trace TokenPool.Step ⟨(objs.sem i).initCount, (objs.sem i).bound, []⟩ (semLog i s.log)
        ((s.k.sems i).pool sz)) ?_ ?_ hrun
  · rintro s a s' ⟨hpart, hS, htrace⟩ hstep
    obtain ⟨es, hlog, hmove⟩ := sem_refines hr hpart hS hstep
    refine ⟨hpart.step hr hstep, fun i => (hmove i).2, ?_⟩
    rw [semLog, hlog, List.filterMap_append]
    exact htrace.snoc (hmove i).1
  · refine ⟨PartInv.boot sz port cfg objs mem, Sem.WF.boot sz port cfg objs mem, ?_⟩
    rw [hpool]
    exact .nil

/-- **Semaphore token conservation.** In every reachable state: the count is within its bound, a
non-zero `uint8_t`, so that no increment wraps; nobody waits while a token is stored; the takes
satisfied, by decrement or by handoff, and the stored tokens add up to the clamped initial count plus
the gives that were not lost; tasks are served in the order in which they parked. A give with a waiter
wakes exactly the one parked longest and leaves the count alone, and while a task is parked neither
`hrt_sem_try_take` nor the re-check of `hrt_sem_take` obtains a token. -/
theorem sem_token_conservation (hr : sz.Representable)
    (hrun : exec (Interleave.step sz port) (Sys.boot sz port cfg objs mem) as = some s) (i : ℕ) :
    ((s.k.sems i).maxCount = (objs.sem i).bound ∧ 1 ≤ (s.k.sems i).maxCount ∧
      (s.k.sems i).maxCount ≤ 255 ∧ (s.k.sems i).count ≤ (s.k.sems i).maxCount) ∧
    (0 < (s.k.sems i).count → s.k.waiters sz (.sem i) = []) ∧
    (TokenPool.takers (semLog i s.log)).length + (TokenPool.handoffs (semLog i s.log)).length +
      (s.k.sems i).count =
        (objs.sem i).initCount + TokenPool.gives (semLog i s.log) -
          TokenPool.saturations (semLog i s.log) ∧
    TokenPool.parks (semLog i s.log) =
      TokenPool.handoffs (semLog i s.log) ++ s.k.waiters sz (.sem i) ∧
    (∀ h rest, s.k.waiters sz (.sem i) = h :: rest →
      (giveCommonCs sz i s.k).1 = some h ∧
      ((giveCommonCs sz i s.k).2.sems i).count = (s.k.sems i).count ∧
      (giveCommonCs sz i s.k).2.waiters sz (.sem i) = rest ∧
      ∀ j, (giveCommonCs sz i s.k).2.stateOf j = if j = h then .ready else s.k.stateOf j) ∧
    (s.k.waiters sz (.sem i) ≠ [] →
      (hrtSemTryTake i s.k).1 = -1 ∧ ∀ t, (hrtSemTakeCs sz i t s.k).1 = false) := by
  obtain ⟨htrace, hwf, hinv⟩ := sem_trace hr hrun i
  obtain ⟨htok, hle, hmax, hnw, hfifo⟩ :=
    TokenPool.balance_of_trace rfl (objs.sem i).initCount_le htrace
  have hnw' : 0 < (s.k.sems i).count → s.k.waiters sz (.sem i) = [] := hnw
  refine ⟨⟨hmax, hwf.max_pos, hwf.max_le, hwf.count_le⟩, hnw', ?_, hfifo, ?_, fun hne => ?_⟩
  · have htok' : _ + _ + (s.k.sems i).count + _ = (objs.sem i).initCount + _ := htok
    omega
  · intro h rest hl
    rcases giveCommonCs_effect sz i s.k with ⟨hnone, -⟩ | ⟨h', hsome, hw⟩
    · -- the FIFO has a head, so the give cannot have found it empty
      obtain ⟨hfst, -⟩ := giveCommonCs_sems sz i s.k
      have hhead := (RingBuffer.pop_spec (hinv.part.wf (.sem i)) hr.lt.le).1
      have hcontra : (none : Option ℕ) = (s.k.waiters sz (.sem i)).head? :=
        hnone.symm.trans (hfst.trans hhead)
      rw [hl] at hcontra
      exact absurd hcontra (by simp)
    · obtain ⟨rest', hl', hwait⟩ := hinv.part.waiters_wake hr hw
      obtain ⟨rfl, rfl⟩ := List.cons.inj (hl'.symm.trans hl)
      refine ⟨hsome, ?_, by rw [hwait, Function.update_self], hw.stateOf⟩
      obtain ⟨hfst, hsems⟩ := giveCommonCs_sems sz i s.k
      rw [← hfst, hsome] at hsems
      rw [hsems, Function.update_self]
  · have h0 : (s.k.sems i).count = 0 := by
      by_contra hpos
      exact hne (hnw' (Nat.pos_of_ne_zero hpos))
    refine ⟨?_, fun t => ?_⟩
    · rw [hrtSemTryTake, if_neg (not_not.mpr h0)]
    · rw [hrtSemTakeCs, if_neg (not_not.mpr h0)]

/-- A task parks on semaphore 0; one give is handed over, the next is stored and the third is lost. -/
def threeGivesRun : List Interleave.Action :=
  [.main (.createTask ⟨1, 0, 0x20000000, 64, none⟩), .task 0 (.semTake 0), .task 0 .yield,
    .isr (.semGive 0), .isr (.semGive 0), .isr (.semGive 0)]

/-- The token balance at the end of `threeGivesRun`. -/
theorem sem_token_conservation_threeGives :
    ∃ s, exec (Interleave.step .default .posix) (Sys.boot .default .posix none .basic .bss)
        threeGivesRun = some s ∧
      (s.k.sems 0).count = 1 ∧ TokenPool.saturations (semLog 0 s.log) = 1 ∧
      (TokenPool.takers (semLog 0 s.log)).length + (TokenPool.handoffs (semLog 0 s.log)).length +
        1 = 0 + TokenPool.gives (semLog 0 s.log) - 1 := by
  have heval : ((exec (Interleave.step .default .posix)
      (Sys.boot .default .posix none .basic .bss) threeGivesRun).map fun s =>
        ((s.k.sems 0).count, TokenPool.saturations (semLog 0 s.log))) = some (1, 1) := by
    decide +kernel
  obtain ⟨s, hs, hv⟩ := Option.map_eq_some_iff.mp heval
  obtain ⟨hcount, hsat⟩ := Prod.mk.inj hv
  have hbal := (sem_token_conservation (by decide) hs 0).2.2.1
  rw [hcount, hsat] at hbal
  exact ⟨s, hs, hcount, hsat, hbal⟩

end Results

end HardRT
