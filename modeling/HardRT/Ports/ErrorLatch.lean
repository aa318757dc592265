import HardRT.CortexM.Contexts
import HardRT.CortexM.Pieces
import HardRT.Protocol.MutexCalls
import HardRT.Protocol.MutexOwners
import HardRT.System.ErrorLatch

/-! # The error latch on both ports

A run in which every call meets its documented preconditions may still raise an error. A tick that
arrives before the first task is dispatched finds no current task and is taken for a corrupted id; and
the ready queues overflow where a port queues a task more than once.

* `early_tick_latches` — one tick after `hrt_init` raises `ERR_INVALID_ID` on both ports, and on
  Cortex-M a task that keeps yielding raises `ERR_RQ_OVERFLOW`.
* `error_never_raised` — along clean steps of legal calls, with ticks from the first dispatch on and
  interrupts inside an unprotected body that spare it, no error is raised on either port. -/

namespace HardRT

open Lib

/-! ## Locks about to park -/

/-- **No task is about to find itself the owner**: between the two critical sections of
`hrt_mutex_lock` the mutex does not become the caller's. -/
def LocksPending (s : Sys) : Prop :=
  ∀ t m, s.conts t = .mutexLock m →
    ¬ ((s.k.mutexes m).locked = true ∧ (s.k.mutexes m).owner = t)

/-- No task enters `hrt_mutex_lock` on a mutex that it owns. -/
def LocksOnce (s : Sys) : Interleave.Action → Prop
  | .task t (.mutexLock m) => s.conts t = .user →
      ¬ ((s.k.mutexes m).locked = true ∧ (s.k.mutexes m).owner = t)
  | _ => True

/-- Whatever is not a step of a task is free to happen. -/
theorem LocksOnce.of_not_task {s : Sys} {b : Interleave.Action} (hb : ∀ t c, b ≠ .task t c) :
    LocksOnce s b := by
  cases b with
  | task t c => exact absurd rfl (hb t c)
  | _ => trivial

section Pending

variable {sz : Sizing} {port : Port} {s s' : Sys}

/-- A step that leaves the mutexes alone and enters no second critical section. -/
theorem LocksPending.frame (h : LocksPending s) (hmut : s'.k.mutexes = s.k.mutexes) (id : Option ℕ)
    (hconts : ∀ u m, s'.conts u = .mutexLock m → s.spawned id u = .mutexLock m) : LocksPending s' := by
  intro u m hu
  rw [hmut]
  refine h u m ?_
  have hsp := hconts u m hu
  rwa [Sys.spawned_of_ne_user (by simp [hsp])] at hsp

/-- **An action of a task**: whoever becomes the owner is the acting task itself, or a task that was
blocked. -/
theorem LocksPending.task (h : LocksPending s) (hr : sz.Representable) (hinv : PartInv sz s) {t : ℕ}
    {c : Call} (honce : LocksOnce s (.task t c)) {o : Outcome}
    (ho : nextAction sz port t c s.k (s.conts t) = some o) : LocksPending (s.apply t o) := by
  intro u m hu
  by_cases hut : u = t
  · -- the task itself comes from a failed attempt on a mutex that it does not own
    subst hut
    rw [Sys.apply_conts_self] at hu
    obtain ⟨hc, rfl, h0, hk⟩ := failedTry_eq ho hu
    have hmut : o.k.mutexes = s.k.mutexes := by
      rcases hrtMutexTryLock_mutexes sz m u s.k with ⟨h0', -⟩ | ⟨-, hmut⟩
      · exact absurd h0' h0
      · rw [hk, hmut]
    show ¬ ((o.k.mutexes m).locked = true ∧ (o.k.mutexes m).owner = u)
    rw [hmut]
    exact honce hc
  · rw [Sys.apply_conts_of_ne s hut] at hu
    have hcont : s.conts u = .mutexLock m := by
      rwa [Sys.spawned_of_ne_user (by simp [hu])] at hu
    have hold := h u m hcont
    show ¬ ((o.k.mutexes m).locked = true ∧ (o.k.mutexes m).owner = u)
    cases mutexEffect ho with
    | same hmut => rwa [hmut]
    | take i hc hcall hmut he =>
        rw [hmut]
        by_cases him : m = i
        · subst him
          rw [Function.update_self]
          rintro ⟨-, hown⟩
          exact hut (Int.ofNat.inj hown).symm
        · rwa [Function.update_of_ne him]
    | park i hmut =>
        rw [hmut]
        by_cases him : m = i
        · subst him
          rw [Function.update_self]
          exact hold
        · rwa [Function.update_of_ne him]
    | pass i w hcall hpop hmut he =>
        rw [hmut]
        by_cases him : m = i
        · subst him
          rw [Function.update_self]
          rintro ⟨-, hown⟩
          obtain rfl : w = u := Int.ofNat.inj hown
          -- a waiter is blocked, and a task between the two critical sections is not
          exact hinv.recheck w (by rw [hcont]; rfl)
            (hinv.part.blocked_of_pop (w := .mutex m) hr hpop)
        · rwa [Function.update_of_ne him]
    | free i hmut =>
        rw [hmut]
        by_cases him : m = i
        · subst him
          rw [Function.update_self]
          simp
        · rwa [Function.update_of_ne him]

/-- **Every step keeps the pending locks in order.** -/
theorem LocksPending.step (h : LocksPending s) (hr : sz.Representable) (hinv : PartInv sz s)
    {a : Interleave.Action} (honce : LocksOnce s a) (hstep : Interleave.step sz port s a = some s') :
    LocksPending s' := by
  rcases Interleave.step_cases hstep with ⟨t, c, o, rfl, -, ho, rfl⟩ | ⟨t, c, x, rfl, hx, rfl⟩ |
    ⟨op, rfl, rfl⟩ | ⟨hobj, -, id, hconts⟩
  · exact LocksPending.task (s := s.setCurrent t) h hr (hinv.setCurrent t) honce ho
  · refine h.frame rfl none fun u m hu => ?_
    by_cases hut : u = t
    · rw [hut, Sys.land_conts_self] at hu
      exact absurd hu (by simp)
    · rwa [Sys.land_conts_of_ne _ hut] at hu
  · exact h.frame (isr_offMutex sz s.k op).1 none fun u m hu => hu
  · exact h.frame hobj.mutexes id fun u m hu => by rwa [hconts] at hu

/-- **A run** of lock-once steps keeps the pending locks in order. -/
theorem LocksPending.run (h : LocksPending s) (hr : sz.Representable) (hinv : PartInv sz s)
    {as : List Interleave.Action} (hrun : exec (Interleave.step sz port) s as = some s')
    (honce : Along (Interleave.step sz port) LocksOnce s as) : LocksPending s' := by
  refine (exec_invariant (I := fun s => PartInv sz s ∧ LocksPending s) ?_ ⟨hinv, h⟩ honce hrun).2
  rintro s a s' ⟨hp, hl⟩ ha hstep
  exact ⟨hp.step hr hstep, hl.step hr hp ha hstep⟩

end Pending

/-! ## Acts of a port -/

/-- **Legal use**: every call meets its documented preconditions, and stacks are as `Fits` says. -/
def PortAct.LegalUse (sz : Sizing) (Fits : TaskArgs → Prop) (s : Sys) : PortAct → Prop
  | .main (.createTask a) => CreateLegal sz s.k a ∧ Fits a
  | .task c => ∀ t ∈ s.k.current, s.conts t = .user → c.Legal sz t s.k ∧ ∀ a ∈ c.creates, Fits a
  | _ => True

instance (sz : Sizing) (Fits : TaskArgs → Prop) [DecidablePred Fits] (s : Sys) :
    DecidablePred (PortAct.LegalUse sz Fits s)
  | .main (.createTask _) => inferInstanceAs (Decidable (_ ∧ _))
  | .task _ => inferInstanceAs (Decidable (∀ _ ∈ _, _))
  | .main (.setPolicy _) | .main (.setDefaultTimeslice _) | .isr _ | .tick | .sched => instDecidableTrue

/-- **No early tick**: a tick arrives only once a task has been dispatched. -/
def PortAct.TicksDispatched (s : Sys) : PortAct → Prop
  | .tick => s.k.current ≠ none
  | _ => True

instance (s : Sys) : DecidablePred (PortAct.TicksDispatched s)
  | .tick => inferInstanceAs (Decidable (_ ≠ _))
  | .main _ | .task _ | .isr _ | .sched => instDecidableTrue

/-- What the latch rests on: the books of the port, the FIFOs, the ids and the pending locks are in
order. -/
structure LatchInv (sz : Sizing) (Ready Ids : Prop) (s : Sys) : Prop where
  ready : Ready
  part : PartInv sz s
  ids : Ids
  locks : LocksPending s

section Acts

variable {sz : Sizing} {port : Port} {Fits : TaskArgs → Prop} {run : ℕ → Prop} {s s₁ : Sys} {u : PortAct}

/-- **A legal act keeps the latch as it is**, if no tick comes early. The port accepts the stacks that fit,
its current task is in the table and on the CPU unless it leaves, and no tick wakes who is on the CPU. -/
theorem PortAct.Leads.error (hlead : u.Leads sz port s s₁) (hr : sz.Representable)
    (hbooks : ReadyBooks sz s.k run) (hpart : PartInv sz s) (hlocks : LocksPending s)
    (hcur : ∀ t, s.k.current = some t → t < sz.maxTasks)
    (hon : ∀ t c, u = .task c → s.k.current = some t → (s.conts t).leaving = false → run t)
    (hwake : u = .tick → ∀ id, run id → ¬ wakesAt s.k ((s.k.tick + 1) % 2 ^ 32) id)
    (hfits : ∀ a : TaskArgs, a.Valid → Fits a → port.AcceptsStack a) (hlegal : u.LegalUse sz Fits s)
    (htick : u.TicksDispatched s) : s₁.k.error = s.k.error := by
  have hfit := hbooks.headsFit hr hpart.part
  cases hlead with
  | main c =>
      cases c with
      | createTask a => exact hbooks.create_error hlegal.1 (hfits a hlegal.1.1 hlegal.2)
      | setPolicy p => rfl
      | setDefaultTimeslice n => rfl
  | @run t c o ht ho =>
      refine hbooks.nextAction_error hfit (hcur t ht) (hon t c rfl ht) (fun hu => ?_) (hlocks t) ho
      obtain ⟨hcall, hstack⟩ := hlegal t ht hu
      refine ⟨hcall, fun a ha => ?_⟩
      cases c with
      | createTask a' =>
          obtain rfl := Option.some.inj ha
          exact hfits a' hcall.1 (hstack a' rfl)
      | _ => exact absurd ha (by simp [Call.creates])
  | land ht ha => rfl
  | isr op => exact isrAction_error hfit op
  | tick =>
      obtain ⟨cur, ht⟩ := Option.ne_none_iff_exists'.mp htick
      exact hbooks.tick_error hr (hwake rfl) ht (hcur cur ht)
  | idle => rfl
  | left a ht => rfl

/-- A legal act locks nothing twice. -/
theorem PortAct.LegalUse.locksOnce {c : Call} (h : (PortAct.task c).LegalUse sz Fits s) {t : ℕ}
    (hcur : s.k.current = some t) : LocksOnce s (.task t c) := by
  cases c with
  | mutexLock m => exact fun hu => (h t hcur hu).1
  | _ => trivial

end Acts

/-! ## Cortex-M -/

namespace CortexM

/-- **Legal use**: every call meets its documented preconditions, and a stack ends inside the address
space. -/
def LegalUse (sz : Sizing) (s : Sys) (a : Action) : Prop := a.act.LegalUse sz TaskArgs.StackFits s

instance (sz : Sizing) (s : Sys) : DecidablePred (LegalUse sz s) :=
  fun a => inferInstanceAs (Decidable (a.act.LegalUse sz TaskArgs.StackFits s))

/-- **No early tick**: a tick arrives only once a task has been dispatched. -/
def TicksDispatched (s : Sys) (a : Action) : Prop := a.act.TicksDispatched s

instance (s : Sys) : DecidablePred (TicksDispatched s) :=
  fun a => inferInstanceAs (Decidable (a.act.TicksDispatched s))

section Latch

variable {sz : Sizing} {idleStack : ℕ} {s s' : Sys}

/-- The port accepts the stack of a legal creation. -/
theorem acceptsStack_of_fits {a : TaskArgs} (hvalid : a.Valid) (hfit : a.StackFits) :
    (Port.cortexM idleStack).AcceptsStack a := by
  refine ⟨_, Port.cortexM_prepareTaskStack idleStack hfit hvalid.2.2, fun h0 => ?_⟩
  exact TaskArgs.initialFrame_ne_zero hvalid.2.2 (Option.some.inj h0)

/-- **Every clean and legal step keeps the latch as it is**, if no tick comes early. -/
theorem latch_step_error (h : LatchInv sz (ReadyInv sz s) (IdsInv sz s) s) (hr : sz.Representable)
    {a : Action} (hclean : ReadyClean sz s a) (hlegal : LegalUse sz s a) (htick : TicksDispatched s a)
    (hstep : CortexM.step sz idleStack s a = some s') : s'.k.error = s.k.error := by
  obtain ⟨s₁, ops, hlead, rfl, hops⟩ := step_leads hstep
  have hwake : a.act = .tick → ∀ id, s.k.current = some id →
      ¬ wakesAt s.k ((s.k.tick + 1) % 2 ^ 32) id := by
    intro ha
    cases a with
    | tick => exact hclean
    | _ => exact absurd ha (by simp [Action.act])
  have herr := hlead.error hr h.ready.books h.part h.locks
    (fun t ht => h.ids.cur_lt ht) (fun _ _ _ ht _ => ht) hwake (fun _ => acceptsStack_of_fits) hlegal htick
  rcases hops with hquiet | ⟨oldSp, rfl, rfl⟩
  · exact (Sys.scheduled_error hquiet).trans herr
  · exact ReadyBooks.schedule_error (k := { s₁.k with pend := false })
      (h.ready.books.of_eq rfl (fun _ => rfl) fun _ => rfl) oldSp

/-- **Every clean and legal step keeps the invariant.** -/
theorem latch_step (h : LatchInv sz (ReadyInv sz s) (IdsInv sz s) s) (hr : sz.Representable)
    {a : Action} (hclean : ReadyClean sz s a) (hlegal : LegalUse sz s a)
    (hstep : CortexM.step sz idleStack s a = some s') :
    LatchInv sz (ReadyInv sz s') (IdsInv sz s') s' := by
  have hrun := h.ready.runsUnblocked
  obtain ⟨bs, hbs, honce⟩ := step_interleave_along (P := LocksOnce) (fun _ _ hb => .of_not_task hb)
    (fun t c hac hcur _ _ => PortAct.LegalUse.locksOnce (hac ▸ hlegal) hcur) hrun hstep
  exact ⟨h.ready.step hr h.part hclean hstep, step_partInv hr hrun h.part hstep, h.ids.step hr hstep,
    h.locks.run hr h.part hbs honce⟩

/-- **The latch stays clear** along clean steps of legal calls without an early tick. -/
theorem error_none_of_run {cfg : Option KernelConfig} {objs : ObjectSpecs} {mem : Kernel}
    (hr : sz.Representable) {as : List Action}
    (hrun : exec (CortexM.step sz idleStack) (boot sz idleStack cfg objs mem) as = some s)
    (hclean : Along (CortexM.step sz idleStack)
      (fun s a => ReadyClean sz s a ∧ LegalUse sz s a ∧ TicksDispatched s a)
      (boot sz idleStack cfg objs mem) as) : s.k.error = .none := by
  refine (exec_invariant (I := fun s => LatchInv sz (ReadyInv sz s) (IdsInv sz s) s ∧ s.k.error = .none)
    ?_ ⟨⟨?_, ?_, ?_, ?_⟩, ?_⟩ hclean hrun).2
  · rintro s a s' ⟨h, herr⟩ ⟨hc, hl, ht⟩ hstep
    exact ⟨latch_step h hr hc hl hstep, (latch_step_error h hr hc hl ht hstep).trans herr⟩
  · exact ReadyInv.boot sz _ cfg objs mem
  · exact PartInv.boot sz _ cfg objs mem
  · exact IdsInv.boot sz idleStack cfg objs mem
  · exact fun t m ht => absurd ht (by simp [Sys.boot])
  · exact hrtInit_error cfg (by simp [Port.cortexM])

end Latch

end CortexM

/-! ## POSIX -/

namespace Posix

/-- **Legal use**: every call meets its documented preconditions; this port takes any stack. -/
def LegalUse (sz : Sizing) (s : State) (a : Action) : Prop := a.act.LegalUse sz (fun _ => True) s.sys

instance (sz : Sizing) (s : State) : DecidablePred (LegalUse sz s) :=
  fun a => inferInstanceAs (Decidable (a.act.LegalUse sz (fun _ => True) s.sys))

/-- **No early tick**: a tick arrives only once a task has been dispatched. -/
def TicksDispatched (s : State) (a : Action) : Prop := a.act.TicksDispatched s.sys

instance (s : State) : DecidablePred (TicksDispatched s) :=
  fun a => inferInstanceAs (Decidable (a.act.TicksDispatched s.sys))

section Latch

variable {sz : Sizing} {s s' : State}

/-- This port takes any stack and stores no pointer. -/
theorem acceptsStack (a : TaskArgs) : Port.posix.AcceptsStack a := ⟨none, rfl, by simp⟩

/-- **Every clean and legal step keeps the latch as it is**, if no tick comes early. -/
theorem latch_step_error (h : LatchInv sz (ReadyInv sz s) (IdsInv sz s) s.sys) (hr : sz.Representable)
    {a : Action} (hlegal : LegalUse sz s a) (htick : TicksDispatched s a)
    (hstep : Posix.step sz s a = some s') : s'.sys.k.error = s.sys.k.error := by
  obtain ⟨s₁, ops, hlead, hs', hops⟩ := step_leads hstep
  have hon : ∀ t c, a.act = .task c → s.sys.k.current = some t → (s.sys.conts t).leaving = false →
      OnCpu s t := by
    intro t c ha ht hl
    cases a with
    | task c =>
        obtain ⟨-, hm, -, -⟩ := step_task hstep
        exact ⟨hm, ht, hl⟩
    | _ => exact absurd ha (by simp [Action.act])
  have herr := hlead.error hr h.ready.books h.part h.locks (fun t ht => h.part.lt t (h.ids.cur t ht)) hon
    (fun _ id hid hw => absurd ((h.ready.ready id hid).symm.trans hw.1) (by simp))
    (fun b _ _ => acceptsStack b) hlegal htick
  rw [hs']
  rcases hops with hquiet | ⟨t, x, hcur, hx, rfl, rfl⟩
  · exact (Sys.scheduled_error hquiet).trans herr
  · show (hrtOnSchedulerEntry sz s.sys.k).error = _
    rw [h.ready.entry_eq hcur hx]

/-- **Every clean and legal step keeps the invariant.** -/
theorem latch_step (h : LatchInv sz (ReadyInv sz s) (IdsInv sz s) s.sys) (hr : sz.Representable)
    {a : Action} (hclean : ReadyClean sz s a) (hlegal : LegalUse sz s a)
    (hstep : Posix.step sz s a = some s') : LatchInv sz (ReadyInv sz s') (IdsInv sz s') s'.sys := by
  have hrun := h.ready.runsLive
  obtain ⟨bs, hbs, honce⟩ := step_interleave_along (P := LocksOnce) (fun _ _ hb => .of_not_task hb)
    (fun t c hac _ hcur _ => PortAct.LegalUse.locksOnce (hac ▸ hlegal) hcur) hrun hstep
  exact ⟨h.ready.step hr h.part hclean hstep, step_partInv hr hrun h.part hstep, h.ids.step hr hstep,
    h.locks.run hr h.part hbs honce⟩

/-- **The latch stays clear** along clean steps of legal calls without an early tick. -/
theorem error_none_of_run {cfg : Option KernelConfig} {objs : ObjectSpecs} {mem : Kernel}
    (hr : sz.Representable) {as : List Action}
    (hrun : exec (Posix.step sz) (boot sz cfg objs mem) as = some s)
    (hclean : Along (Posix.step sz)
      (fun s a => ReadyClean sz s a ∧ LegalUse sz s a ∧ TicksDispatched s a)
      (boot sz cfg objs mem) as) : s.sys.k.error = .none := by
  refine (exec_invariant
    (I := fun s => LatchInv sz (ReadyInv sz s) (IdsInv sz s) s.sys ∧ s.sys.k.error = .none) ?_
    ⟨⟨?_, ?_, ?_, ?_⟩, ?_⟩ hclean hrun).2
  · rintro s a s' ⟨h, herr⟩ ⟨hc, hl, ht⟩ hstep
    exact ⟨latch_step h hr hc hl hstep, (latch_step_error h hr hl ht hstep).trans herr⟩
  · exact ReadyInv.boot sz cfg objs mem
  · exact PartInv.boot sz _ cfg objs mem
  · exact IdsInv.boot sz cfg objs mem
  · exact fun t m ht => absurd ht (by simp [Sys.boot])
  · exact hrtInit_error cfg (by simp [Port.posix])

end Latch

end Posix

/-! ## The result -/

/-- A run in pieces of the Cortex-M machine leaves the latch clear where its finished state does. -/
theorem CortexM.error_of_whole {sz : Sizing} {idleStack : ℕ}
    {x : Sectioned.State Sys Piece (Option ℕ)}
    (h : ((CortexM.machine sz idleStack).whole x).k.error = .none) : x.base.k.error = .none := by
  rw [CortexM.whole_eq] at h
  refine error_of_completePieces (fun base words e he => ?_) _ h
  simp only [Port.cortexM] at he
  split_ifs at he
  · obtain rfl := Except.error.inj he
    simp
  · obtain rfl := Except.error.inj he
    simp

/-- A run in pieces of the POSIX machine leaves the latch clear where its finished state does. -/
theorem Posix.error_of_whole {sz : Sizing} {x : Sectioned.State Posix.State Piece Unit}
    (h : ((Posix.machine sz).whole x).sys.k.error = .none) : x.base.sys.k.error = .none := by
  rw [Posix.whole_eq] at h
  exact error_of_completePieces (fun base words e he => absurd he (by simp [Port.posix])) _ h

/-- **No error is raised**, on either port, in any run in pieces that is undisturbed and clean, in which
every call meets its documented preconditions and no tick arrives before the first task is dispatched. -/
theorem error_never_raised {sz : Sizing} (hr : sz.Representable) (cfg : Option KernelConfig)
    (objs : ObjectSpecs) (mem : Kernel) :
    (∀ (idleStack : ℕ) (bs : List (Sectioned.Action CortexM.Action))
        (x : Sectioned.State Sys Piece (Option ℕ)),
      exec (CortexM.machine sz idleStack).step
        (Sectioned.closed (CortexM.boot sz idleStack cfg objs mem)) bs = some x →
      Along (CortexM.machine sz idleStack).step (fun x b =>
        (CortexM.machine sz idleStack).Undisturbed x b ∧
        (CortexM.machine sz idleStack).Whole (fun s a => CortexM.ReadyClean sz s a ∧
          CortexM.LegalUse sz s a ∧ CortexM.TicksDispatched s a) x b)
        (Sectioned.closed (CortexM.boot sz idleStack cfg objs mem)) bs → x.base.k.error = .none) ∧
    (∀ (bs : List (Sectioned.Action Posix.Action)) (x : Sectioned.State Posix.State Piece Unit),
      exec (Posix.machine sz).step (Sectioned.closed (Posix.boot sz cfg objs mem)) bs = some x →
      Along (Posix.machine sz).step (fun x b => (Posix.machine sz).Undisturbed x b ∧
        (Posix.machine sz).Whole (fun s a => Posix.ReadyClean sz s a ∧
          Posix.LegalUse sz s a ∧ Posix.TicksDispatched s a) x b)
        (Sectioned.closed (Posix.boot sz cfg objs mem)) bs → x.base.sys.k.error = .none) := by
  constructor
  · intro idleStack bs x hrun hclean
    obtain ⟨as, has, hP⟩ := Sectioned.refines hrun hclean
    exact CortexM.error_of_whole (CortexM.error_none_of_run hr has hP)
  · intro bs x hrun hclean
    obtain ⟨as, has, hP⟩ := Sectioned.refines hrun hclean
    exact Posix.error_of_whole (Posix.error_none_of_run hr has hP)

/-- On a board two tasks are created; the first one locks and unlocks a mutex and sleeps, and the tick
brings it back. Inside the second creation, between the check and the store of its `rq_push`, an ISR gives
a semaphore. -/
def boardRun : List (Sectioned.Action CortexM.Action) :=
  .act (.main (.createTask ⟨1, 0, 0x20001000, 64, none⟩)) :: List.replicate 7 .piece ++
    .act (.main (.createTask ⟨1, 0, 0x20002000, 64, none⟩)) :: List.replicate 4 .piece ++
    [.act (.isr (.semGive 0)), .piece, .piece, .piece, .act .start, .act (.pendsv 0),
      .act (.task (.mutexLock 0)), .act (.task (.mutexUnlock 0)), .act (.task (.sleep 1)), .piece, .piece,
      .act (.task .yield), .act (.pendsv 0x20001000)] ++
    .act .tick :: List.replicate 19 .handlerPiece ++ [.act (.pendsv 0x20002000)]

/-- In a process one task is created, locks and unlocks a mutex, and yields; a tick arrives between the
refill and `rq_push`. -/
def processRun : List (Sectioned.Action Posix.Action) :=
  .act (.main (.createTask ⟨1, 0, 0x1000, 64, none⟩)) :: List.replicate 7 .piece ++
    [.act .start, .act .loop, .act .loop, .act (.task (.mutexLock 0)), .act (.task (.mutexUnlock 0)),
      .act (.task .yield), .piece] ++
    .act (.tick true) :: List.replicate 13 .handlerPiece ++
    [.piece, .piece, .piece, .piece, .act (.task .yield), .act (.task .yield)]

/-- Both runs leave the latch clear. -/
theorem error_never_raised_runs :
    (∃ x, exec (CortexM.machine .default 0x20000000).step (Sectioned.closed CortexM.board) boardRun =
        some x ∧
      x.base.k.current = some 0 ∧ x.base.k.tick = 1 ∧ x.base.k.error = .none) ∧
    ∃ x, exec (Posix.machine .default).step (Sectioned.closed Posix.process) processRun = some x ∧
      x.base.mode = .head ∧ x.base.sys.k.tick = 1 ∧ x.base.sys.k.error = .none := by
  have hr : Sizing.default.Representable := by decide
  have hboard : ((exec (CortexM.machine .default 0x20000000).step (Sectioned.closed CortexM.board)
      boardRun).map fun x => (x.base.k.current, x.base.k.tick)) = some (some 0, 1) := by
    decide +kernel
  have hprocess : ((exec (Posix.machine .default).step (Sectioned.closed Posix.process)
      processRun).map fun x => (x.base.mode, x.base.sys.k.tick)) = some (.head, 1) := by
    decide +kernel
  constructor
  · obtain ⟨x, hx, hv⟩ := Option.map_eq_some_iff.mp hboard
    obtain ⟨hcur, htick⟩ := Prod.mk.inj hv
    exact ⟨x, hx, hcur, htick,
      (error_never_raised hr none .basic .bss).1 _ _ x hx (by decide +kernel)⟩
  · obtain ⟨x, hx, hv⟩ := Option.map_eq_some_iff.mp hprocess
    obtain ⟨hm, htick⟩ := Prod.mk.inj hv
    exact ⟨x, hx, hm, htick,
      (error_never_raised hr none .basic .bss).2 _ x hx (by decide +kernel)⟩

/-- One call of `hrt_yield` on a board with nobody else to run, from the call to its return. -/
def yieldAlone : List CortexM.Action :=
  [.task .yield, .task .yield, .pendsv 0x20001000, .task .yield, .pendsv 0x20001000, .task .yield]

/-- **Legal runs raise errors.** A tick between `hrt_init` and the first dispatch raises
`ERR_INVALID_ID` on either port; and on Cortex-M nine calls of `hrt_yield` by a single task raise
`ERR_RQ_OVERFLOW`. -/
theorem early_tick_latches :
    (∃ s, exec (CortexM.step .default 0x20000000) CortexM.board
        [.main (.createTask ⟨1, 0, 0x20001000, 64, none⟩), .tick] = some s ∧
      Along (CortexM.step .default 0x20000000) (CortexM.LegalUse .default) CortexM.board
        [.main (.createTask ⟨1, 0, 0x20001000, 64, none⟩), .tick] ∧ s.k.error = .invalidId) ∧
    (∃ s, exec (Posix.step .default) Posix.process
        [.main (.createTask ⟨1, 0, 0x1000, 64, none⟩), .tick true] = some s ∧
      Along (Posix.step .default) (Posix.LegalUse .default) Posix.process
        [.main (.createTask ⟨1, 0, 0x1000, 64, none⟩), .tick true] ∧ s.sys.k.error = .invalidId) ∧
    ∃ s, exec (CortexM.step .default 0x20000000) CortexM.board
        ([.main (.createTask ⟨1, 0, 0x20001000, 64, none⟩), .start, .pendsv 0] ++
          (List.replicate 9 yieldAlone).flatten) = some s ∧
      Along (CortexM.step .default 0x20000000) (CortexM.LegalUse .default) CortexM.board
        ([.main (.createTask ⟨1, 0, 0x20001000, 64, none⟩), .start, .pendsv 0] ++
          (List.replicate 9 yieldAlone).flatten) ∧ s.k.error = .rqOverflow := by
  have hboard : ((exec (CortexM.step .default 0x20000000) CortexM.board
      [.main (.createTask ⟨1, 0, 0x20001000, 64, none⟩), .tick]).map fun s => s.k.error) =
        some .invalidId := by
    decide +kernel
  have hprocess : ((exec (Posix.step .default) Posix.process
      [.main (.createTask ⟨1, 0, 0x1000, 64, none⟩), .tick true]).map fun s => s.sys.k.error) =
        some .invalidId := by
    decide +kernel
  have hyield : ((exec (CortexM.step .default 0x20000000) CortexM.board
      ([.main (.createTask ⟨1, 0, 0x20001000, 64, none⟩), .start, .pendsv 0] ++
        (List.replicate 9 yieldAlone).flatten)).map fun s => s.k.error) = some .rqOverflow := by
    decide +kernel
  obtain ⟨s, hs, herr⟩ := Option.map_eq_some_iff.mp hboard
  obtain ⟨x, hx, herrx⟩ := Option.map_eq_some_iff.mp hprocess
  obtain ⟨y, hy, herry⟩ := Option.map_eq_some_iff.mp hyield
  exact ⟨⟨s, hs, by decide +kernel, herr⟩, ⟨x, hx, by decide +kernel, herrx⟩,
    y, hy, by decide +kernel, herry⟩

end HardRT
