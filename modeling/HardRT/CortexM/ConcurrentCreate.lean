import HardRT.CortexM.ReadySet

/-! # Concurrent creations

`hrt_create_task` holds no critical section: it scans the table for a free slot, clears and fills that
slot, and marks it ready and enqueues it; the running task may be switched out between two of these
steps. This module runs the calls of several tasks step by step.

* `ConcurrentCreate.step` — the machine: the current task makes calls of `hrt_create_task`, and ticks,
  ISRs and switches happen in between.
* `create_uninterrupted` — without a switch the three steps are `hrtCreateTask`.
* `slot_given_twice` — a switch after the scan hands one slot to two callers.
* `creations_keep_apart` — if no call scans while another one is between its scan and its fill, the
  slots are different, hold what their own call asked for, and are enqueued once. -/

namespace HardRT

open Lib

namespace CortexM

namespace ConcurrentCreate

/-! ## The machine -/

/-- How far a call of `hrt_create_task` has come, with its arguments and the slot it has found. -/
inductive Pending
  /-- The scan is done. -/
  | scanned (a : TaskArgs) (id : ℕ)
  /-- The control block and the stack are set up. -/
  | filled (a : TaskArgs) (id : ℕ)
  deriving DecidableEq, Repr

/-- The kernel and the call each task is in. -/
structure State where
  k : Kernel
  calls : ℕ → Option Pending

/-- What can happen next. -/
inductive Action
  /-- The current task enters `hrt_create_task`: the argument check and the scan. -/
  | create (a : TaskArgs)
  /-- It clears and fills the slot it has found. -/
  | fill
  /-- It marks the slot ready, enqueues it and returns. -/
  | enqueue
  /-- `SysTick_Handler`. -/
  | tick
  /-- An ISR runs. -/
  | isr (op : Isr)
  /-- `PendSV_Handler`. -/
  | pendsv (oldSp : ℕ)
  deriving DecidableEq, Repr

/-- The task that takes the next step: the current one, unless a switch is due first. -/
def running (k : Kernel) : Option ℕ := if k.pend then none else k.current

/-- **The machine.** -/
def step (sz : Sizing) (idleStack : ℕ) (s : State) : Action → Option State
  | .create a => (running s.k).bind fun t =>
      match s.calls t with
      | some _ => none
      | none =>
          if a.fn = 0 ∨ a.stackWords = 0 ∨ a.nWords < 64 then
            some { s with k := s.k.hrtError .invalidTask }
          else match firstUnused sz s.k with
            | none => some { s with k := s.k.hrtError .invalidId }
            | some id => some { s with calls := Function.update s.calls t (some (.scanned a id)) }
  | .fill => (running s.k).bind fun t =>
      match s.calls t with
      | some (.scanned a id) =>
          some ⟨clearAndFill (.cortexM idleStack) a id s.k,
            Function.update s.calls t (some (.filled a id))⟩
      | _ => none
  | .enqueue => (running s.k).bind fun t =>
      match s.calls t with
      | some (.filled _ id) =>
          some ⟨rqPush sz ((markReady id s.k).tcbs id).prio id (markReady id s.k),
            Function.update s.calls t none⟩
      | _ => none
  | .tick => some { s with k := hrtTickIsr sz s.k }
  | .isr op => some { s with k := (isrAction sz s.k op).2.1 }
  | .pendsv oldSp =>
      if s.k.pend = true ∧ (oldSp = 0 ↔ s.k.current = none) then
        some { s with k := (hrtSchedule sz oldSp { s.k with pend := false }).2 }
      else none

section Steps

variable {sz : Sizing} {idleStack : ℕ} {s s' : State}

/-- The task that takes the next step is current. -/
theorem running_eq_some {k : Kernel} {t : ℕ} (h : running k = some t) :
    k.pend = false ∧ k.current = some t := by
  unfold running at h
  split at h
  · exact absurd h (by simp)
  · rename_i hp
    exact ⟨Bool.eq_false_of_not_eq_true hp, h⟩

/-- **What entering the function can do**: it fails and latches an error, or it finds a slot. -/
theorem step_create {a : TaskArgs} (h : step sz idleStack s (.create a) = some s') :
    ∃ t, s.k.current = some t ∧ s.calls t = none ∧
      ((∃ e, s' = { s with k := s.k.hrtError e }) ∨
       ∃ id, createdSlot sz s.k a = some id ∧
        s' = { s with calls := Function.update s.calls t (some (.scanned a id)) }) := by
  obtain ⟨t, ht, h⟩ := Option.bind_eq_some_iff.mp h
  split at h
  · exact absurd h (by simp)
  · rename_i hnone
    refine ⟨t, (running_eq_some ht).2, hnone, ?_⟩
    split_ifs at h with hargs
    · exact Or.inl ⟨_, (Option.some.inj h).symm⟩
    · split at h
      · exact Or.inl ⟨_, (Option.some.inj h).symm⟩
      · rename_i id hid
        refine Or.inr ⟨id, ?_, (Option.some.inj h).symm⟩
        rw [← hrtCreateTask_slot sz (.cortexM idleStack), hrtCreateTask_fst, if_neg hargs, hid]

theorem step_fill (h : step sz idleStack s .fill = some s') :
    ∃ t a id, s.k.current = some t ∧ s.calls t = some (.scanned a id) ∧
      s' = ⟨clearAndFill (.cortexM idleStack) a id s.k,
        Function.update s.calls t (some (.filled a id))⟩ := by
  obtain ⟨t, ht, h⟩ := Option.bind_eq_some_iff.mp h
  split at h
  · rename_i a id hc
    exact ⟨t, a, id, (running_eq_some ht).2, hc, (Option.some.inj h).symm⟩
  · exact absurd h (by simp)

theorem step_enqueue (h : step sz idleStack s .enqueue = some s') :
    ∃ t a id, running s.k = some t ∧ s.calls t = some (.filled a id) ∧
      s' = ⟨rqPush sz ((markReady id s.k).tcbs id).prio id (markReady id s.k),
        Function.update s.calls t none⟩ := by
  obtain ⟨t, ht, h⟩ := Option.bind_eq_some_iff.mp h
  split at h
  · rename_i a id hc
    exact ⟨t, a, id, ht, hc, (Option.some.inj h).symm⟩
  · exact absurd h (by simp)

theorem step_pendsv {oldSp : ℕ} (h : step sz idleStack s (.pendsv oldSp) = some s') :
    (oldSp = 0 ↔ s.k.current = none) ∧
      s' = { s with k := (hrtSchedule sz oldSp { s.k with pend := false }).2 } := by
  simp only [step] at h
  split_ifs at h with hc
  exact ⟨hc.2, (Option.some.inj h).symm⟩

/-- **Without a switch in between** the three steps are `hrtCreateTask`. -/
theorem create_uninterrupted {t id : ℕ} {a : TaskArgs} (hrun : running s.k = some t)
    (hcall : s.calls t = none) (hid : (hrtCreateTask sz (.cortexM idleStack) a s.k).1 = some id) :
    exec (step sz idleStack) s [.create a, .fill, .enqueue] =
      some { s with k := (hrtCreateTask sz (.cortexM idleStack) a s.k).2 } := by
  obtain ⟨-, hk⟩ := hrtCreateTask_eq_fillSlot hid
  have hscan := hrtCreateTask_firstUnused hid
  have hargs : ¬ (a.fn = 0 ∨ a.stackWords = 0 ∨ a.nWords < 64) := by
    intro hbad
    rw [hrtCreateTask, if_pos hbad] at hid
    exact absurd hid (by simp)
  have hrun' : running (clearAndFill (.cortexM idleStack) a id s.k) = some t := by
    obtain ⟨sp, e, heq, -⟩ := clearAndFill_spec (.cortexM idleStack) a id s.k
    rw [heq]
    exact hrun
  have hback : Function.update s.calls t none = s.calls := by
    rw [← hcall, Function.update_eq_self]
  rw [hk, fillSlot]
  simp [exec, step, hrun, hcall, hargs, hscan, hrun', hback]

end Steps

/-! ## The record -/

/-- What the calls have done so far. -/
structure Record where
  /-- The calls that have returned an id, with their arguments. -/
  returned : List (TaskArgs × ℕ)
  /-- The ids the calls have appended to ready queues, each with its queue. -/
  enqueued : List (ℕ × ℕ)
  /-- The tasks that were switched out. -/
  left : List ℕ
  deriving DecidableEq, Repr

/-- **The record after an action.** -/
def record (sz : Sizing) (s : State) (a : Action) (g : Record) : Record :=
  match a with
  | .enqueue =>
      match (running s.k).bind s.calls with
      | some (.filled a id) =>
          { g with returned := g.returned ++ [(a, id)]
                   enqueued := g.enqueued ++ rqAccepted sz s.k (s.k.tcbs id).prio id }
      | _ => g
  | .pendsv _ => { g with left := g.left ++ s.k.current.toList }
  | _ => g

/-- The control block holds the entry, argument, priority and stack of the call with arguments `a`. -/
structure MadeBy (a : TaskArgs) (b : Tcb) : Prop where
  entry : b.entry = a.fn
  arg : b.arg = a.arg
  prio : b.prio = a.prio
  stackBase : b.stackBase = a.stackWords
  stackWords : b.stackWords = a.nWords

/-- **The slot holds what the call asked for.** Its stack pointer is the one the call has prepared until
the task is first switched out. -/
structure Holds (idleStack : ℕ) (k : Kernel) (left : List ℕ) (a : TaskArgs) (id : ℕ) : Prop where
  made : MadeBy a (k.tcbs id)
  sp : ∀ sp, (Port.cortexM idleStack).prepareTaskStack a.stackWords a.nWords = .ok (some sp) →
    id ∉ left → (k.tcbs id).sp = sp

/-! ## The side condition -/

/-- The call is between its scan and its fill. -/
def Pending.holdsScan : Option Pending → Bool
  | some (.scanned _ _) => true
  | _ => false

/-- **The clean steps**: a call that finds a slot does not scan while another one is between its scan and
its fill, its priority is valid and the slot is not the idle one. -/
def Clean (sz : Sizing) (s : State) : Action → Prop
  | .create a => CreateOk sz s.k a ∧
      (createdSlot sz s.k a ≠ none → ∀ t < sz.maxTasks, Pending.holdsScan (s.calls t) = false)
  | _ => True

instance (sz : Sizing) (s : State) : DecidablePred (Clean sz s)
  | .create _ => inferInstanceAs (Decidable (_ ∧ _))
  | .fill | .enqueue | .tick | .isr _ | .pendsv _ => instDecidableTrue

/-! ## The invariant -/

/-- A call has filled slot `id` and not yet enqueued it. -/
def Filling (s : State) (id : ℕ) : Prop := ∃ t a, s.calls t = some (.filled a id)

/-- **A kernel between calls**: the books are in order, the wait FIFOs hold the blocked tasks, nobody
lives in the idle slot, and the current task is ready or it is the idle one. -/
structure Settled (sz : Sizing) (k : Kernel) : Prop where
  books : ReadyBooks sz k fun id => k.current = some id
  part : BlockedPartition sz k
  idle : k.stateOf sz.idleId = .unused
  cur : ∀ t, k.current = some t → k.stateOf t = .ready ∨ t = sz.idleId

/-- **The invariant.** -/
structure Inv (sz : Sizing) (idleStack : ℕ) (s : State) (g : Record) : Prop where
  books : ReadyBooks sz s.k fun id => s.k.current = some id ∨ Filling s id
  part : BlockedPartition sz s.k
  idle : s.k.stateOf sz.idleId = .unused
  cur : ∀ t, s.k.current = some t → (s.k.stateOf t = .ready ∧ ¬ Filling s t) ∨ t = sz.idleId
  callers : ∀ t, s.calls t ≠ none → t < sz.maxTasks
  /-- A slot that was found is still free, and only one call is about to fill one. -/
  scanned : ∀ t a id, s.calls t = some (.scanned a id) →
    id < sz.maxTasks ∧ s.k.stateOf id = .unused ∧ id ≠ sz.idleId ∧ a.prio < sz.maxPrio ∧
    ∀ u, Pending.holdsScan (s.calls u) = true → u = t
  /-- A filled slot is that of its call alone. -/
  filled : ∀ t a id, s.calls t = some (.filled a id) →
    s.k.stateOf id = .ready ∧ Holds idleStack s.k g.left a id ∧ id ∉ g.returned.map Prod.snd ∧
    ∀ u b, s.calls u = some (.filled b id) → u = t
  returned : ∀ e ∈ g.returned, s.k.stateOf e.2 ≠ .unused ∧ Holds idleStack s.k g.left e.1 e.2
  nodup : (g.returned.map Prod.snd).Nodup
  enqueued : g.enqueued = g.returned.map fun e => (e.1.prio, e.2)

/-- What ticks, ISRs and switches do to the control blocks: nobody's identity changes, no slot is freed
or taken, ready tasks stay ready, and a stack pointer is stored for the tasks in `gone` only. -/
structure KeepsTasks (k k' : Kernel) (gone : List ℕ) : Prop where
  made : ∀ a j, MadeBy a (k.tcbs j) → MadeBy a (k'.tcbs j)
  sp : ∀ j, j ∉ gone → (k'.tcbs j).sp = (k.tcbs j).sp
  unused : ∀ j, k'.stateOf j = .unused ↔ k.stateOf j = .unused
  ready : ∀ j, k.stateOf j = .ready → k'.stateOf j = .ready

section Invariant

variable {sz : Sizing} {idleStack : ℕ} {s s' : State} {g : Record}

theorem MadeBy.refill {a : TaskArgs} {b : Tcb} (h : MadeBy a b) : MadeBy a b.refill :=
  ⟨h.entry, h.arg, h.prio, h.stackBase, h.stackWords⟩

theorem MadeBy.withSlice {a : TaskArgs} {b : Tcb} (h : MadeBy a b) (n : ℕ) :
    MadeBy a { b with sliceLeft := n } :=
  ⟨h.entry, h.arg, h.prio, h.stackBase, h.stackWords⟩

/-- What is kept for the tasks that stay is kept for what slots hold. -/
theorem KeepsTasks.holds {k k' : Kernel} {gone left : List ℕ} (h : KeepsTasks k k' gone) {a : TaskArgs}
    {id : ℕ} (hh : Holds idleStack k left a id) : Holds idleStack k' (left ++ gone) a id := by
  refine ⟨h.made a id hh.made, fun sp hsp hid => ?_⟩
  rw [List.mem_append, not_or] at hid
  exact (h.sp id hid.2).trans (hh.sp sp hsp hid.1)

/-- A tick. -/
theorem KeepsTasks.tick (sz : Sizing) (k : Kernel) : KeepsTasks k (hrtTickIsr sz k) [] where
  made a j h := by
    obtain ⟨b, hb, htcb⟩ := hrtTickIsr_tcbs sz k j
    have hmade : MadeBy a b := by
      rcases hb with rfl | ⟨-, rfl⟩
      · exact h
      · exact h.refill
    rcases htcb with htcb | ⟨-, -, -, -, htcb, -⟩
    · rwa [htcb]
    · rw [htcb]
      exact hmade.withSlice _
  sp j _ := (hrtTickIsr_config sz k j).2.2
  unused := hrtTickIsr_unused_iff sz k
  ready j := hrtTickIsr_ready

/-- An ISR operation. -/
theorem KeepsTasks.isr {k : Kernel} (hp : BlockedPartition sz k) (hr : sz.Representable) (op : Isr) :
    KeepsTasks k (isrAction sz k op).2.1 [] where
  made a j h := by
    rcases isr_tcbs sz k op j with heq | heq
    · rwa [heq]
    · rw [heq]
      exact h.refill
  sp j _ := (isr_config sz k op j).2
  unused j := ⟨isr_unused, hp.isr_unused hr op⟩
  ready j := isr_ready

/-- A switch stores the stack pointer of the outgoing task. -/
theorem KeepsTasks.schedule (sz : Sizing) (oldSp : ℕ) (k : Kernel) :
    KeepsTasks k (hrtSchedule sz oldSp k).2 k.current.toList := by
  have hsp := (hrtSchedule_sp sz oldSp k).1
  obtain ⟨sp, rq, cur, e, heq⟩ := hrtSchedule_frame sz oldSp k
  refine ⟨fun a j h => ?_, fun j hj => ?_, fun j => ?_, fun j h => ?_⟩
  · rw [heq]
    exact ⟨h.entry, h.arg, h.prio, h.stackBase, h.stackWords⟩
  · rw [hsp, if_neg fun hc => hj (by rw [hc.2]; exact List.mem_singleton_self j)]
  · rw [heq]
    rfl
  · rw [heq]
    exact h

/-- **A tick, an ISR or a switch** keeps the invariant if it keeps the books and the FIFOs. -/
theorem Inv.env (h : Inv sz idleStack s g) {k' : Kernel} {gone : List ℕ}
    (hkeep : KeepsTasks s.k k' gone)
    (hbooks : ReadyBooks sz k' fun id => k'.current = some id ∨ Filling s id)
    (hpart : BlockedPartition sz k')
    (hcur : ∀ t, k'.current = some t → (k'.stateOf t = .ready ∧ ¬ Filling s t) ∨ t = sz.idleId) :
    Inv sz idleStack { s with k := k' } { g with left := g.left ++ gone } where
  books := hbooks
  part := hpart
  idle := (hkeep.unused _).mpr h.idle
  cur := hcur
  callers := h.callers
  scanned t a id hc := by
    obtain ⟨hlt, hun, hrest⟩ := h.scanned t a id hc
    exact ⟨hlt, (hkeep.unused id).mpr hun, hrest⟩
  filled t a id hc := by
    obtain ⟨hst, hh, hrest⟩ := h.filled t a id hc
    exact ⟨hkeep.ready id hst, hkeep.holds hh, hrest⟩
  returned e he := by
    obtain ⟨hused, hh⟩ := h.returned e he
    exact ⟨fun hun => hused ((hkeep.unused _).mp hun), hkeep.holds hh⟩
  nodup := h.nodup
  enqueued := h.enqueued

/-- The tasks that are not queued are awake. -/
theorem Inv.awake (h : Inv sz idleStack s g) {id : ℕ} (hid : s.k.current = some id ∨ Filling s id) :
    s.k.stateOf id = .ready ∨ s.k.stateOf id = .unused := by
  rcases hid with hcur | ⟨t, a, hc⟩
  · rcases h.cur id hcur with ⟨hst, -⟩ | rfl
    · exact Or.inl hst
    · exact Or.inr h.idle
  · exact Or.inl (h.filled t a id hc).1

/-- The current task stays ready or idle if ready tasks stay ready. -/
theorem Inv.cur_of_keeps (h : Inv sz idleStack s g) {k' : Kernel} {gone : List ℕ}
    (hkeep : KeepsTasks s.k k' gone) (hk : k'.current = s.k.current) (t : ℕ)
    (ht : k'.current = some t) : (k'.stateOf t = .ready ∧ ¬ Filling s t) ∨ t = sz.idleId :=
  (h.cur t (hk ▸ ht)).imp_left fun h => ⟨hkeep.ready t h.1, h.2⟩

/-- A tick. -/
theorem Inv.tick (h : Inv sz idleStack s g) (hr : sz.Representable) :
    Inv sz idleStack { s with k := hrtTickIsr sz s.k } g := by
  have hkeep := KeepsTasks.tick sz s.k
  have hk := (hrtTickIsr_frame sz s.k).1
  have henv := h.env hkeep (g := g) ?_ ?_ (h.cur_of_keeps hkeep hk)
  · simpa using henv
  · rw [hk]
    refine h.books.tick hr fun id hid hw => ?_
    rcases h.awake hid with hst | hst <;> exact absurd (hw.1.symm.trans hst) (by simp)
  · exact h.part.of_states (Interleave.tickIsr_objects sz s.k).ring
      (hrtTickIsr_blocked_iff sz s.k)

/-- An ISR operation. -/
theorem Inv.isr (h : Inv sz idleStack s g) (hr : sz.Representable) (op : Isr) :
    Inv sz idleStack { s with k := (isrAction sz s.k op).2.1 } g := by
  have hkeep := KeepsTasks.isr h.part hr op
  have hk := isr_current sz s.k op
  have henv := h.env hkeep (g := g) ?_ (h.part.isr hr op).1
    (h.cur_of_keeps hkeep hk)
  · simpa using henv
  · rw [hk]
    rcases isrEffect sz s.k op with hq | ⟨id, k', hw, heq⟩
    · exact h.books.same hq.same
    · have hb := h.part.blocked_of_wakes hr hw
      have hwake := h.books.wake hr hw hb fun hid => by
        rcases h.awake hid with hst | hst <;> exact absurd (hb.symm.trans hst) (by simp)
      rw [heq]
      exact hwake.of_eq rfl (fun _ => rfl) fun _ => rfl

/-- A switch. -/
theorem Inv.pendsv (h : Inv sz idleStack s g) (hr : sz.Representable) {oldSp : ℕ}
    (hsp : oldSp = 0 ↔ s.k.current = none) :
    Inv sz idleStack { s with k := (hrtSchedule sz oldSp { s.k with pend := false }).2 }
      { g with left := g.left ++ s.k.current.toList } := by
  have hkeep : KeepsTasks s.k (hrtSchedule sz oldSp { s.k with pend := false }).2
      s.k.current.toList := by
    have hsched := KeepsTasks.schedule sz oldSp { s.k with pend := false }
    exact ⟨hsched.made, hsched.sp, hsched.unused, hsched.ready⟩
  have hfill : ∀ t, s.k.current = some t → ¬ Filling s t := by
    intro t ht
    rcases h.cur t ht with ⟨-, hf⟩ | rfl
    · exact hf
    · rintro ⟨u, a, hc⟩
      exact absurd ((h.filled u a _ hc).1.symm.trans h.idle) (by simp)
  have hbooks : ReadyBooks sz { s.k with pend := false }
      fun id => ({ s.k with pend := false } : Kernel).current = some id ∨ Filling s id :=
    h.books.of_eq rfl (fun _ => rfl) fun _ => rfl
  have hidle : ({ s.k with pend := false } : Kernel).stateOf sz.idleId ≠ .ready := by
    show s.k.stateOf sz.idleId ≠ .ready
    rw [h.idle]
    simp
  obtain ⟨hnew, t, ht, hready⟩ := hbooks.schedule hr hfill hidle hsp
  refine h.env hkeep hnew ?_ fun u hu => ?_
  · refine h.part.of_states ?_ fun j => ?_
    · exact (Interleave.SchedOp.run_objects sz { s.k with pend := false } (.schedule oldSp)).ring.trans
        (Kernel.SameObjects.ring ⟨rfl, rfl, rfl⟩)
    · have hst := Interleave.SchedOp.run_stateOf sz { s.k with pend := false } (.schedule oldSp) j
      rw [SchedOp.run] at hst
      rw [hst]
      rfl
  · obtain rfl : t = u := Option.some.inj (ht.symm.trans hu)
    exact hready.imp_left fun h => ⟨hkeep.ready t h.1, h.2⟩

/-- A slot is marked ready and pushed. -/
theorem KeepsTasks.makeReady {k : Kernel} {id : ℕ} (hused : k.stateOf id ≠ .unused) :
    KeepsTasks k (hrtMakeReady sz id k) [] := by
  have htcb : ∀ j, (hrtMakeReady sz id k).tcbs j = k.tcbs j ∨
      (hrtMakeReady sz id k).tcbs j = (k.tcbs j).refill := by
    intro j
    rw [hrtMakeReady_tcbs]
    by_cases hj : j = id
    · subst hj
      exact Or.inr (by simp [Tcb.refill])
    · exact Or.inl (Function.update_of_ne hj _ _)
  refine ⟨fun a j h => ?_, fun j _ => ?_, fun j => ?_, fun j h => ?_⟩
  · rcases htcb j with heq | heq
    · rwa [heq]
    · rw [heq]
      exact h.refill
  · rcases htcb j with heq | heq
    · rw [heq]
    · rw [heq]
      rfl
  · rw [stateOf_hrtMakeReady]
    split_ifs with hj
    · rw [hj]
      exact iff_of_false (by simp) hused
    · rfl
  · rw [stateOf_hrtMakeReady]
    split_ifs
    · rfl
    · exact h

/-! ### The steps of a call -/

/-- What the other tasks are in after task `t` has moved on in its call. -/
theorem calls_update {calls : ℕ → Option Pending} {t u : ℕ} {p : Option Pending} {q : Pending}
    (hp : p ≠ some q) : Function.update calls t p u = some q ↔ calls u = some q ∧ u ≠ t := by
  by_cases hut : u = t
  · subst hut
    simp [hp]
  · simp [hut]

/-- **A scan** that no other call's scan and fill surround. -/
theorem Inv.scan (h : Inv sz idleStack s g) {t id : ℕ} {a : TaskArgs} (hcur : s.k.current = some t)
    (hcall : s.calls t = none) (hid : createdSlot sz s.k a = some id) (hclean : Clean sz s (.create a)) :
    Inv sz idleStack ⟨s.k, Function.update s.calls t (some (.scanned a id))⟩ g := by
  obtain ⟨⟨hspare, hprio⟩, hnone⟩ := hclean
  have hfound : createdSlot sz s.k a ≠ none := by simp [hid]
  obtain ⟨hlt, hun⟩ := firstUnused_spec (firstUnused_of_createdSlot hid)
  have hscan : ∀ u, Pending.holdsScan (s.calls u) = false := by
    intro u
    cases hu : s.calls u with
    | none => rfl
    | some p => exact hu ▸ hnone hfound u (h.callers u (by rw [hu]; simp))
  -- the calls that have filled a slot are the same as before
  have hcalls : ∀ u b i, Function.update s.calls t (some (.scanned a id)) u = some (.filled b i) ↔
      s.calls u = some (.filled b i) := by
    intro u b i
    rw [calls_update (by simp)]
    refine and_iff_left_of_imp fun hu hut => ?_
    rw [hut, hcall] at hu
    exact absurd hu (by simp)
  have hfill : ∀ i, Filling ⟨s.k, Function.update s.calls t (some (.scanned a id))⟩ i ↔ Filling s i :=
    fun i => exists_congr fun u => exists_congr fun b => hcalls u b i
  refine { h with
    books := h.books.congr fun i _ => or_congr_right (hfill i).symm
    cur := fun u hu => (h.cur u hu).imp_left fun ⟨hst, hf⟩ => ⟨hst, fun hf' => hf ((hfill u).mp hf')⟩
    callers := fun u hu => ?_
    scanned := fun u b i hu => ?_
    filled := fun u b i hu => ?_ }
  · by_cases hut : u = t
    · rcases h.cur t hcur with ⟨hst, -⟩ | rfl
      · exact hut ▸ h.books.lt t (by rw [hst]; simp)
      · exact hut ▸ sz.idleId_lt
    · exact h.callers u (by simpa [hut] using hu)
  · by_cases hut : u = t
    · subst hut
      obtain ⟨rfl, rfl⟩ : a = b ∧ id = i := by simpa using hu
      refine ⟨hlt, hun, fun hi => hspare (hi ▸ hid), hprio hfound, fun v hv => ?_⟩
      by_contra hvu
      have hv' : Pending.holdsScan (s.calls v) = true := by simpa [hvu] using hv
      exact absurd (hv'.symm.trans (hscan v)) (by simp)
    · have hfalse := hscan u
      rw [show s.calls u = some (.scanned b i) by simpa [hut] using hu] at hfalse
      exact absurd hfalse (by simp [Pending.holdsScan])
  · obtain ⟨hst, hh, hnew, hone⟩ := h.filled u b i ((hcalls u b i).mp hu)
    exact ⟨hst, hh, hnew, fun v c hv => hone v c ((hcalls v c i).mp hv)⟩

/-- A slot that was found by a scan is nobody's. -/
theorem Inv.fresh (h : Inv sz idleStack s g) {id : ℕ} (hun : s.k.stateOf id = .unused) :
    ¬ Filling s id ∧ id ∉ g.returned.map Prod.snd := by
  constructor
  · rintro ⟨u, b, hu⟩
    exact absurd ((h.filled u b id hu).1.symm.trans hun) (by simp)
  · intro hmem
    obtain ⟨x, hx, hxid⟩ := List.mem_map.mp hmem
    exact (h.returned x hx).1 (hxid ▸ hun)

/-- A control block that a write to another slot leaves alone. -/
theorem Holds.of_tcb {k k' : Kernel} {left : List ℕ} {a : TaskArgs} {id : ℕ}
    (h : Holds idleStack k left a id) (heq : k'.tcbs id = k.tcbs id) : Holds idleStack k' left a id :=
  ⟨heq ▸ h.made, heq ▸ h.sp⟩

/-- After the fill, the slot is among those being filled. -/
theorem filling_fill (k' : Kernel) {t id : ℕ} {a : TaskArgs} (hcall : s.calls t = some (.scanned a id))
    (i : ℕ) : Filling ⟨k', Function.update s.calls t (some (.filled a id))⟩ i ↔
      i = id ∨ Filling s i := by
  constructor
  · rintro ⟨u, b, hu⟩
    by_cases hut : u = t
    · subst hut
      have hu' : a = b ∧ id = i := by simpa using hu
      exact Or.inl hu'.2.symm
    · exact Or.inr ⟨u, b, by simpa [hut] using hu⟩
  · rintro (rfl | ⟨u, b, hu⟩)
    · exact ⟨t, a, by simp⟩
    · have hut : u ≠ t := fun hut => absurd (hcall.symm.trans (hut ▸ hu)) (by simp)
      exact ⟨u, b, by simpa [hut] using hu⟩

/-- Once enqueued, the slot is not being filled any more, if no other call fills it. -/
theorem filling_enqueue (k' : Kernel) {t id : ℕ} {a : TaskArgs}
    (hcall : s.calls t = some (.filled a id))
    (hself : ∀ u b, s.calls u = some (.filled b id) → u = t) (i : ℕ) :
    Filling ⟨k', Function.update s.calls t none⟩ i ↔ Filling s i ∧ i ≠ id := by
  constructor
  · rintro ⟨u, b, hu⟩
    obtain ⟨hu', hut⟩ := (calls_update (by simp)).mp hu
    exact ⟨⟨u, b, hu'⟩, fun hi => hut (hself u b (hi ▸ hu'))⟩
  · rintro ⟨⟨u, b, hu⟩, hi⟩
    refine ⟨u, b, (calls_update (by simp)).mpr ⟨hu, ?_⟩⟩
    rintro rfl
    have hinj : b = a ∧ i = id := by simpa using hu.symm.trans hcall
    exact hi hinj.2

/-- **A fill** of a slot that was found free and still is. -/
theorem Inv.fill (h : Inv sz idleStack s g) {t id : ℕ} {a : TaskArgs}
    (hcall : s.calls t = some (.scanned a id)) :
    Inv sz idleStack ⟨clearAndFill (.cortexM idleStack) a id s.k,
      Function.update s.calls t (some (.filled a id))⟩ g := by
  obtain ⟨hlt, hun, hidle, hprio, hone⟩ := h.scanned t a id hcall
  obtain ⟨hfresh, hret⟩ := h.fresh hun
  obtain ⟨sp, e, heq, hsp⟩ := clearAndFill_spec (.cortexM idleStack) a id s.k
  generalize hk : clearAndFill (.cortexM idleStack) a id s.k = k' at heq ⊢
  have hself : k'.tcbs id = { a.tcb s.k with sp := sp } := by rw [heq]; simp
  have hother : ∀ j, j ≠ id → k'.tcbs j = s.k.tcbs j := fun j hj => by rw [heq]; simp [hj]
  have hst : ∀ j, j ≠ id → k'.stateOf j = s.k.stateOf j := fun j hj => by
    rw [Kernel.stateOf, hother j hj]
    rfl
  have hready : k'.stateOf id = .ready := by
    rw [Kernel.stateOf, hself]
    rfl
  have hcur : k'.current = s.k.current := by rw [heq]
  have htcbs : k'.tcbs = Function.update s.k.tcbs id { a.tcb s.k with sp := sp } := by rw [heq]
  have hrq : k'.rq = s.k.rq := by rw [heq]
  have hnr : s.k.stateOf id ≠ .ready := by
    rw [hun]
    simp
  have hbooks := h.books.install hlt hnr (b := { a.tcb s.k with sp := sp }) hprio hrq htcbs
  have hfill := filling_fill k' hcall
  constructor
  case books =>
    refine hbooks.congr fun i _ => ?_
    rw [hfill i, hcur]
    exact or_left_comm
  case part =>
    refine h.part.of_states (Kernel.SameObjects.ring (by rw [heq]; exact ⟨rfl, rfl, rfl⟩)) fun j => ?_
    by_cases hj : j = id
    · rw [hj, hready, hun]
      simp
    · rw [hst j hj]
  case idle => exact (hst _ (Ne.symm hidle)).trans h.idle
  case cur =>
    intro u hu
    rcases h.cur u (hcur ▸ hu) with ⟨hst', hf⟩ | rfl
    · have hui : u ≠ id := fun hui => absurd (hst'.symm.trans (hui ▸ hun)) (by simp)
      refine Or.inl ⟨(hst u hui).trans hst', fun hf' => ?_⟩
      exact hf (((hfill u).mp hf').resolve_left hui)
    · exact Or.inr rfl
  case callers =>
    intro u hu
    by_cases hut : u = t
    · exact hut ▸ h.callers t (by rw [hcall]; simp)
    · exact h.callers u (by simpa [hut] using hu)
  case scanned =>
    -- the only call between scan and fill was this one
    intro u b i hu
    obtain ⟨hu', hut⟩ := (calls_update (by simp)).mp hu
    exact absurd (hone u (by rw [hu']; rfl)) hut
  case filled =>
    intro u b i hu
    by_cases hut : u = t
    · subst hut
      obtain ⟨rfl, rfl⟩ : a = b ∧ id = i := by simpa using hu
      refine ⟨hready, ⟨?_, fun sp' hsp' _ => ?_⟩, hret, fun v c hv => ?_⟩
      · rw [hself]
        exact ⟨rfl, rfl, rfl, rfl, rfl⟩
      · rw [hself]
        exact hsp sp' hsp'
      · by_contra hvu
        exact hfresh ⟨v, c, by simpa [hvu] using hv⟩
    · have hu' : s.calls u = some (.filled b i) := by simpa [hut] using hu
      obtain ⟨hst', hh, hnew, hself'⟩ := h.filled u b i hu'
      have hi : i ≠ id := fun hi => hfresh ⟨u, b, hi ▸ hu'⟩
      refine ⟨(hst i hi).trans hst', hh.of_tcb (hother i hi), hnew, fun v c hv => ?_⟩
      by_cases hvt : v = t
      · subst hvt
        have hv' : a = c ∧ id = i := by simpa using hv
        exact absurd hv'.2.symm hi
      · exact hself' v c (by simpa [hvt] using hv)
  case returned =>
    intro x hx
    obtain ⟨hused, hh⟩ := h.returned x hx
    have hxi : x.2 ≠ id := fun hxi => hused (hxi ▸ hun)
    exact ⟨by rwa [hst _ hxi], hh.of_tcb (hother _ hxi)⟩
  case nodup => exact h.nodup
  case enqueued => exact h.enqueued

/-- **The last step**: the slot is enqueued, and the push is accepted. -/
theorem Inv.enqueue (h : Inv sz idleStack s g) (hr : sz.Representable) {t id : ℕ} {a : TaskArgs}
    (hcall : s.calls t = some (.filled a id)) :
    Inv sz idleStack ⟨hrtMakeReady sz id s.k, Function.update s.calls t none⟩
      { g with returned := g.returned ++ [(a, id)]
               enqueued := g.enqueued ++ rqAccepted sz s.k (s.k.tcbs id).prio id } := by
  obtain ⟨hst, hh, hnew, hself⟩ := h.filled t a id hcall
  have hused : s.k.stateOf id ≠ .unused := by rw [hst]; simp
  have hlt := h.books.lt id hused
  have hprio := h.books.prio id hused
  have hkeep : KeepsTasks s.k (hrtMakeReady sz id s.k) [] := KeepsTasks.makeReady hused
  have hnotcur : s.k.current ≠ some id := by
    intro hc
    rcases h.cur id hc with ⟨-, hf⟩ | rfl
    · exact hf ⟨t, a, hcall⟩
    · exact hused h.idle
  have hholds : ∀ {b : TaskArgs} {i : ℕ}, Holds idleStack s.k g.left b i →
      Holds idleStack (hrtMakeReady sz id s.k) g.left b i := by
    intro b i hh
    have hh' := hkeep.holds hh
    rwa [List.append_nil] at hh'
  -- the slot has not been queued, so there is room for it
  have hacc : rqAccepted sz s.k (s.k.tcbs id).prio id = [(a.prio, id)] := by
    have hroom := h.books.set.count_lt hprio hlt fun hq => hq.2 (Or.inr ⟨t, a, hcall⟩)
    rw [rqAccepted, if_pos ⟨hprio, hroom⟩, hh.made.prio, hr.mod_eq hlt]
  have hfill := filling_enqueue (hrtMakeReady sz id s.k) hcall hself
  constructor
  case books =>
    refine (h.books.enqueue hr hused (Or.inr ⟨t, a, hcall⟩)).congr fun i _ => ?_
    rw [hfill i, hrtMakeReady_current]
    constructor
    · rintro ⟨hc | hf, hi⟩
      · exact Or.inl hc
      · exact Or.inr ⟨hf, hi⟩
    · rintro (hc | ⟨hf, hi⟩)
      · exact ⟨Or.inl hc, fun hi => hnotcur (hi ▸ hc)⟩
      · exact ⟨Or.inr hf, hi⟩
  case part =>
    refine h.part.of_states (hrtMakeReady_ring sz id s.k) fun j => ?_
    rw [stateOf_hrtMakeReady]
    split_ifs with hj
    · rw [hj, hst]
      simp
    · rfl
  case idle => exact (hkeep.unused _).mpr h.idle
  case cur =>
    intro u hu
    rw [hrtMakeReady_current] at hu
    refine (h.cur u hu).imp_left fun ⟨hst', hf⟩ => ⟨hkeep.ready u hst', fun hf' => ?_⟩
    exact hf ((hfill u).mp hf').1
  case callers =>
    intro u hu
    by_cases hut : u = t
    · exact hut ▸ h.callers t (by rw [hcall]; simp)
    · exact h.callers u (by simpa [hut] using hu)
  case scanned =>
    intro u b i hu
    obtain ⟨hlt', hun, hidle, hp, hone⟩ := h.scanned u b i ((calls_update (by simp)).mp hu).1
    refine ⟨hlt', (hkeep.unused i).mpr hun, hidle, hp, fun v hv => ?_⟩
    by_cases hvt : v = t
    · subst hvt
      simp [Pending.holdsScan] at hv
    · exact hone v (by simpa [hvt] using hv)
  case filled =>
    intro u b i hu
    obtain ⟨hu', hut⟩ := (calls_update (by simp)).mp hu
    obtain ⟨hst', hh', hnew', hself'⟩ := h.filled u b i hu'
    have hi : i ≠ id := fun hi => hut (hself u b (hi ▸ hu'))
    refine ⟨hkeep.ready i hst', hholds hh', by simpa [hi] using hnew', fun v c hv => ?_⟩
    exact hself' v c ((calls_update (by simp)).mp hv).1
  case returned =>
    intro x hx
    rcases List.mem_append.mp hx with hx | hx
    · obtain ⟨hused', hh'⟩ := h.returned x hx
      exact ⟨fun hun => hused' ((hkeep.unused _).mp hun), hholds hh'⟩
    · rw [List.mem_singleton.mp hx]
      exact ⟨fun hun => hused ((hkeep.unused _).mp hun), hholds hh⟩
  case nodup =>
    rw [List.map_append]
    refine List.nodup_append.mpr ⟨h.nodup, by simp, ?_⟩
    intro i hi j hj
    rw [show j = id by simpa using hj]
    exact fun hij => hnew (hij ▸ hi)
  case enqueued =>
    rw [hacc, h.enqueued, List.map_append]
    rfl

/-- **Every clean step keeps the invariant.** -/
theorem Inv.step (h : Inv sz idleStack s g) (hr : sz.Representable) {a : Action}
    (hclean : Clean sz s a) (hstep : ConcurrentCreate.step sz idleStack s a = some s') :
    Inv sz idleStack s' (record sz s a g) := by
  cases a with
  | create a =>
      obtain ⟨t, hcur, hcall, ⟨e, rfl⟩ | ⟨id, hid, rfl⟩⟩ := step_create hstep
      · exact { h with
          books := h.books.of_eq rfl (fun _ => rfl) fun _ => rfl
          part := h.part.of_states (by simp) fun _ => Iff.rfl
          filled := fun u b i hu => by
            obtain ⟨hst, hh, hrest⟩ := h.filled u b i hu
            exact ⟨hst, ⟨hh.made, hh.sp⟩, hrest⟩
          returned := fun x hx => by
            obtain ⟨hused, hh⟩ := h.returned x hx
            exact ⟨hused, ⟨hh.made, hh.sp⟩⟩ }
      · exact h.scan hcur hcall hid hclean
  | fill =>
      obtain ⟨t, a, id, -, hcall, rfl⟩ := step_fill hstep
      exact h.fill hcall
  | enqueue =>
      obtain ⟨t, a, id, hrun, hcall, rfl⟩ := step_enqueue hstep
      simp only [record, hrun, Option.bind_some, hcall]
      exact h.enqueue hr hcall
  | tick =>
      obtain rfl := Option.some.inj hstep
      exact h.tick hr
  | isr op =>
      obtain rfl := Option.some.inj hstep
      exact h.isr hr op
  | pendsv oldSp =>
      obtain ⟨hsp, rfl⟩ := step_pendsv hstep
      exact h.pendsv hr hsp

/-- Before the first call the invariant holds. -/
theorem Settled.inv {k : Kernel} (h : Settled sz k) (idleStack : ℕ) :
    Inv sz idleStack ⟨k, fun _ => none⟩ ⟨[], [], []⟩ := by
  have hfill : ∀ i, ¬ Filling ⟨k, fun _ => none⟩ i := by
    rintro i ⟨t, a, hc⟩
    exact absurd hc (by simp)
  constructor
  case books => exact h.books.congr fun i _ => (or_iff_left (hfill i)).symm
  case part => exact h.part
  case idle => exact h.idle
  case cur => exact fun t ht => (h.cur t ht).imp_left fun hst => ⟨hst, hfill t⟩
  case callers => exact fun t ht => absurd rfl ht
  case scanned => exact fun t a id hc => absurd hc (by simp)
  case filled => exact fun t a id hc => absurd hc (by simp)
  case returned => exact fun e he => absurd he (by simp)
  case nodup => exact List.nodup_nil
  case enqueued => rfl

end Invariant

/-! ## The result -/

section Results

variable {sz : Sizing} {idleStack : ℕ}

/-- **Where the calls may start**: the states that the port reaches by clean steps while no switch is
due and the current task is between calls. -/
theorem settled_of_run {cfg : Option KernelConfig} {objs : ObjectSpecs} {mem : Kernel} {s : Sys}
    (hr : sz.Representable) {as : List CortexM.Action}
    (hrun : exec (CortexM.step sz idleStack) (boot sz idleStack cfg objs mem) as = some s)
    (hclean : Along (CortexM.step sz idleStack) (ReadyClean sz) (boot sz idleStack cfg objs mem) as)
    (hpend : s.k.pend = false)
    (huser : ∀ t, s.k.current = some t → s.conts t ≠ .none → s.conts t = .user) :
    Settled sz s.k := by
  obtain ⟨hready, hpart⟩ := readyInv_of_run hr hrun hclean
  have hids : IdsInv sz s := exec_invariant' (fun _ _ _ h hstep => h.step hr hstep)
    (IdsInv.boot sz idleStack cfg objs mem) hrun
  refine ⟨hready.books, hpart.part, hready.idle, fun t ht => ?_⟩
  rcases hids.cur t ht with hcont | hidle
  · left
    rcases hready.cur t ht hcont with hst | hp | ⟨a, ha⟩
    · exact hst
    · exact absurd (hp.symm.trans hpend) (by simp)
    · exact absurd (ha.symm.trans (huser t ht hcont)) (by simp)
  · exact Or.inr hidle

/-- **Concurrent creations keep apart** as long as no call scans the table while another one is between
its scan and its fill. In every run of such calls the ids returned are different, each returned slot
holds the entry, argument, priority and stack of its own call, and its id was enqueued once, in the
queue of its priority. -/
theorem creations_keep_apart {s : State} (hr : sz.Representable) {k : Kernel} (hk : Settled sz k)
    {as : List Action} (hrun : exec (step sz idleStack) ⟨k, fun _ => none⟩ as = some s)
    (hclean : Along (step sz idleStack) (Clean sz) ⟨k, fun _ => none⟩ as) :
    ((track (step sz idleStack) (record sz) ⟨k, fun _ => none⟩ ⟨[], [], []⟩ as).returned.map
      Prod.snd).Nodup ∧
    ∀ e ∈ (track (step sz idleStack) (record sz) ⟨k, fun _ => none⟩ ⟨[], [], []⟩ as).returned,
      Holds idleStack s.k
        (track (step sz idleStack) (record sz) ⟨k, fun _ => none⟩ ⟨[], [], []⟩ as).left e.1 e.2 ∧
      (e.1.prio, e.2) ∈
        (track (step sz idleStack) (record sz) ⟨k, fun _ => none⟩ ⟨[], [], []⟩ as).enqueued ∧
      ((track (step sz idleStack) (record sz) ⟨k, fun _ => none⟩ ⟨[], [], []⟩ as).enqueued.map
        Prod.snd).count e.2 = 1 := by
  have hkeep : ∀ (s : State) (a : Action) (s' : State) (g : Record), Inv sz idleStack s g →
      Clean sz s a → step sz idleStack s a = some s' → Inv sz idleStack s' (record sz s a g) :=
    fun _ _ _ _ h ha hstep => h.step hr ha hstep
  have hinv := track_invariant hkeep (hk.inv idleStack) hclean hrun
  refine ⟨hinv.nodup, fun e he => ⟨(hinv.returned e he).2, ?_, ?_⟩⟩
  · rw [hinv.enqueued]
    exact List.mem_map.mpr ⟨e, he, rfl⟩
  · rw [hinv.enqueued, List.map_map]
    exact List.count_eq_one_of_mem hinv.nodup (List.mem_map.mpr ⟨e, he, rfl⟩)

/-- Two tasks of one priority with a quantum of one tick; the first one runs. -/
def twoCreators : List CortexM.Action :=
  [.main (.createTask ⟨1, 0, 0x20001000, 64, some ⟨1, 1⟩⟩),
    .main (.createTask ⟨1, 0, 0x20002000, 64, some ⟨1, 1⟩⟩), .start, .pendsv 0]

/-- What the first task asks for. -/
def firstArgs : TaskArgs := ⟨0x8000101, 11, 0x20003000, 64, some ⟨1, 0⟩⟩

/-- What the second task asks for. -/
def secondArgs : TaskArgs := ⟨0x8000201, 22, 0x20004000, 128, some ⟨2, 0⟩⟩

/-- The first task is switched out after its fill. -/
def switchAfterFill : List Action :=
  [.create firstArgs, .fill, .tick, .pendsv 0x20001080, .create secondArgs, .fill, .enqueue, .tick,
    .pendsv 0x20002080, .enqueue]

/-- The first task is switched out after its scan. -/
def switchAfterScan : List Action :=
  [.create firstArgs, .tick, .pendsv 0x20001080, .create secondArgs, .fill, .enqueue, .tick,
    .pendsv 0x20002080, .fill, .enqueue]

/-- With a switch after the fill both tasks get a slot of their own. -/
theorem creations_keep_apart_after_fill :
    ∃ s₀ s, exec (CortexM.step .default 0x20000000) board twoCreators = some s₀ ∧
      exec (step .default 0x20000000) ⟨s₀.k, fun _ => none⟩ switchAfterFill = some s ∧
      Holds 0x20000000 s.k [0, 1] secondArgs 3 ∧ Holds 0x20000000 s.k [0, 1] firstArgs 2 := by
  have heval : ((exec (CortexM.step .default 0x20000000) board twoCreators).bind fun s₀ =>
      (exec (step .default 0x20000000) ⟨s₀.k, fun _ => none⟩ switchAfterFill).map fun _ =>
      (s₀.k.pend, s₀.k.current, s₀.conts 0,
        track (step .default 0x20000000) (record .default) ⟨s₀.k, fun _ => none⟩ ⟨[], [], []⟩
          switchAfterFill,
        decide (Along (step .default 0x20000000) (Clean .default) ⟨s₀.k, fun _ => none⟩
          switchAfterFill))) =
      some (false, some 0, .user,
        ⟨[(secondArgs, 3), (firstArgs, 2)], [(2, 3), (1, 2)], [0, 1]⟩, true) := by
    decide +kernel
  obtain ⟨s₀, hs₀, hv⟩ := Option.bind_eq_some_iff.mp heval
  obtain ⟨s, hs, hv⟩ := Option.map_eq_some_iff.mp hv
  obtain ⟨hpend, hcur, huser, hrec, hclean⟩ : s₀.k.pend = false ∧ s₀.k.current = some 0 ∧
      s₀.conts 0 = .user ∧ _ ∧ _ := by
    simpa only [Prod.mk.injEq] using hv
  have hr : Sizing.default.Representable := by decide
  have hk : Settled .default s₀.k := by
    refine settled_of_run hr hs₀ (by decide +kernel) hpend fun t ht _ => ?_
    obtain rfl : 0 = t := Option.some.inj (hcur.symm.trans ht)
    exact huser
  have hapart := (creations_keep_apart hr hk hs (of_decide_eq_true hclean)).2
  rw [hrec] at hapart
  exact ⟨s₀, s, hs₀, hs, (hapart (secondArgs, 3) (by simp)).1, (hapart (firstArgs, 2) (by simp)).1⟩

/-- **A slot can be given twice.** The first task is switched out right after its scan; the second one
scans, finds the same slot, fills and enqueues it; then the first one goes on. Both calls return 2, the
slot holds the entry of the first call only, and 2 is in two ready queues. -/
theorem slot_given_twice :
    ∃ s₀ s, exec (CortexM.step .default 0x20000000) board twoCreators = some s₀ ∧
      exec (step .default 0x20000000) ⟨s₀.k, fun _ => none⟩ switchAfterScan = some s ∧
      (track (step .default 0x20000000) (record .default) ⟨s₀.k, fun _ => none⟩ ⟨[], [], []⟩
        switchAfterScan).returned = [(secondArgs, 2), (firstArgs, 2)] ∧
      (s.k.tcbs 2).entry = firstArgs.fn ∧ firstArgs.fn ≠ secondArgs.fn ∧
      s.k.readyList .default 1 = [1, 2] ∧ s.k.readyList .default 2 = [2] := by
  have heval : ((exec (CortexM.step .default 0x20000000) board twoCreators).bind fun s₀ =>
      (exec (step .default 0x20000000) ⟨s₀.k, fun _ => none⟩ switchAfterScan).map fun s =>
      ((track (step .default 0x20000000) (record .default) ⟨s₀.k, fun _ => none⟩ ⟨[], [], []⟩
        switchAfterScan).returned, (s.k.tcbs 2).entry, s.k.readyList .default 1,
        s.k.readyList .default 2)) =
      some ([(secondArgs, 2), (firstArgs, 2)], firstArgs.fn, [1, 2], [2]) := by
    decide +kernel
  obtain ⟨s₀, hs₀, hv⟩ := Option.bind_eq_some_iff.mp heval
  obtain ⟨s, hs, hv⟩ := Option.map_eq_some_iff.mp hv
  obtain ⟨hret, hentry, h1, h2⟩ : _ ∧ (s.k.tcbs 2).entry = firstArgs.fn ∧
      s.k.readyList .default 1 = [1, 2] ∧ s.k.readyList .default 2 = [2] := by
    simpa only [Prod.mk.injEq] using hv
  exact ⟨s₀, s, hs₀, hs, hret, hentry, by decide, h1, h2⟩

end Results

end ConcurrentCreate

end CortexM

end HardRT
