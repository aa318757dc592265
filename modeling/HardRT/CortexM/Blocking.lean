import HardRT.CortexM.Pieces
import HardRT.Protocol.MutexCalls
import HardRT.Protocol.SemaphoreCalls

/-! # Blocking calls on Cortex-M

`hrt_mutex_lock` and `hrt_sem_take` park the caller, request a switch and report success when the
caller runs again. They rely on the scheduler to resume a parked task only after it was handed the mutex
or a token. The ready queues decide that, so the calls are sound as long as no parked task is in a ready
queue; an entry left over from an earlier `hrt_yield` breaks them.

* `lock_returns_unowned` — a task with such entries is told that it holds a mutex it does not hold.
* `ParkClean` — the steps in which no task parks while a ready queue still holds it, and no task is
  created in the idle slot.
* `calls_sound_of_run` — along such steps of the atomic machine both calls only report what happened.
* `blocking_calls_sound` — so they do in the machine in pieces, as long as no interrupt inside an
  unprotected body disturbs it: a tick that pushes into the ring that `hrt_yield` is updating can queue a
  parked task. -/

namespace HardRT

open Lib

/-! ## Ready queues without blocked tasks -/

/-- No entry of the ready queues is a blocked task. -/
abbrev NoneBlocked (sz : Sizing) (k : Kernel) : Prop :=
  QueuedAll sz k fun _ id => k.stateOf id ≠ .blocked

/-- Growth brings no blocked task in; what has to be checked is that no queued task was blocked. -/
theorem NoneBlocked.grow {sz : Sizing} {k k' : Kernel} (h : NoneBlocked sz k)
    (hg : ReadyGrows sz k k') (hst : ∀ p < sz.maxPrio, ∀ id ∈ k.readyList sz p,
      k'.stateOf id = .blocked → k.stateOf id = .blocked) : NoneBlocked sz k' := by
  refine QueuedAll.grow h hg (fun p hp id hid hnot hb => hnot (hst p hp id hid hb)) fun id hid => ?_
  rw [hid]
  simp

/-- A change that neither touches a ready queue nor blocks a task keeps the queued tasks unblocked. -/
theorem NoneBlocked.of_rq {sz : Sizing} {k k' : Kernel} (h : NoneBlocked sz k) (hrq : k'.rq = k.rq)
    (hb : ∀ id, k'.stateOf id = .blocked → k.stateOf id = .blocked) : NoneBlocked sz k' :=
  h.grow (.of_rq h.wf hrq) fun _ _ id _ => hb id

namespace CortexM

/-! ## The side condition -/

/-- **The clean steps.** A task that is about to park is in no ready queue, and no task is created in
the idle slot. -/
def ParkClean (sz : Sizing) (s : Sys) : Action → Prop
  | .main (.createTask a) => SparesIdle sz s.k a
  | .task c => ∀ t ∈ s.k.current,
      ((s.conts t).parksIn t s.k → ∀ p < sz.maxPrio, t ∉ s.k.readyList sz p) ∧
      (s.conts t = .user → ∀ a ∈ c.creates, SparesIdle sz s.k a)
  | _ => True

instance (sz : Sizing) (s : Sys) : DecidablePred (ParkClean sz s)
  | .main (.createTask a) => inferInstanceAs (Decidable (SparesIdle sz s.k a))
  | .task _ => inferInstanceAs (Decidable (∀ _ ∈ _, _))
  | .main (.setPolicy _) | .main (.setDefaultTimeslice _) | .start | .isr _ | .tick | .pendsv _ =>
      instDecidableTrue

/-! ## The invariant -/

/-- **The blocking invariant**: no ready queue holds a blocked task; the idle slot has no context; and a
current task that is blocked has not been switched out yet. -/
structure BlockInv (sz : Sizing) (s : Sys) : Prop where
  ids : IdsInv sz s
  queued : NoneBlocked sz s.k
  idle : s.conts sz.idleId = .none
  cur : ∀ t, s.k.current = some t → s.k.stateOf t = .blocked →
    s.k.pend = true ∨ ∃ a, s.conts t = .pend a

section Invariant

variable {sz : Sizing} {idleStack : ℕ} {s s' : Sys}

/-- Under the invariant no blocked task runs. -/
theorem BlockInv.runsUnblocked (h : BlockInv sz s) : RunsUnblocked s := by
  intro t hcur hpend hcont hb
  rcases h.cur t hcur hb with hp | ⟨a, ha⟩
  · rw [hpend] at hp
    exact absurd hp (by simp)
  · rcases hcont with hc | ⟨a', hc⟩
    · exact absurd (hc.symm.trans ha) (by simp)
    · exact absurd (hc.symm.trans ha) (by simp)

/-- **What an action of the current task does**, if it does not park a task that a ready queue holds: no
queued task is blocked afterwards, and a caller that is blocked is about to request a switch. -/
theorem BlockInv.task (h : BlockInv sz s) (hr : sz.Representable) {t : ℕ}
    (hcur : s.k.current = some t) (hpend : s.k.pend = false) {c : Call}
    (hpark : (s.conts t).parksIn t s.k → ∀ p < sz.maxPrio, t ∉ s.k.readyList sz p) {o : Outcome}
    (ho : nextAction sz (.cortexM idleStack) t c s.k (s.conts t) = some o) :
    NoneBlocked sz o.k ∧ (o.k.stateOf t = .blocked → o.k.pend = true ∨ ∃ a, o.cont = .pend a) := by
  have hcont : s.conts t ≠ .none := by
    intro hn
    rw [hn] at ho
    exact absurd ho (by simp [nextAction])
  have heff := taskEffect ho
  have hg := h.ids.known.task_grows hr hcont heff
  constructor
  · -- only the caller can become blocked, by parking, and then no queue holds it
    refine h.queued.grow hg fun p hp id hid hb => ?_
    rcases heff.blocked hb with hold | ⟨rfl, hpk⟩
    · exact hold
    · exact absurd hid (hpark hpk p hp)
  · intro hb
    cases heff.tcb t with
    | same hs =>
        have hold : s.k.stateOf t = .blocked := (congrArg Tcb.state hs).symm.trans hb
        rcases h.cur t hcur hold with hp | ⟨a, ha⟩
        · rw [hpend] at hp
          exact absurd hp (by simp)
        · rw [ha] at ho
          obtain rfl := Option.some.inj ho
          exact Or.inl rfl
    | leave st wake hj hst hc hs => exact Or.inr ⟨_, hc⟩
    | refill hs => exact absurd ((congrArg Tcb.state hs).symm.trans hb) (by simp [Tcb.refill])
    | create hun hnew hs =>
        exact absurd ((congrArg Tcb.state hs).symm.trans hb) (by simp [TaskArgs.readyTcb])

/-- A call of `main`, before the start, keeps the invariant, if it is clean. -/
theorem BlockInv.main (h : BlockInv sz s) (hr : sz.Representable) (hnone : s.k.current = none)
    {c : MainCall} (hclean : ParkClean sz s (.main c))
    (hids : IdsInv sz (s.main sz (.cortexM idleStack) c)) :
    BlockInv sz (s.main sz (.cortexM idleStack) c) := by
  cases c with
  | createTask a =>
      have hcur := (hrtCreateTask_frame sz (.cortexM idleStack) a s.k).1.trans hnone
      refine ⟨hids, ?_, ?_, fun t ht => absurd (hcur.symm.trans ht) (by simp)⟩
      · exact h.queued.grow (.create h.queued.wf hr _ a) fun _ _ id _ hb =>
          (hrtCreateTask_blocked_iff sz _ a s.k id).mp hb
      · exact Sys.spawned_eq_none.mpr ⟨h.idle, SparesIdle.create_ne hclean _⟩
  | setPolicy p => exact ⟨hids, h.queued.of_rq rfl fun _ hb => hb, h.idle, h.cur⟩
  | setDefaultTimeslice n => exact ⟨hids, h.queued.of_rq rfl fun _ hb => hb, h.idle, h.cur⟩

/-- **A switch** keeps the invariant: the task it makes current comes from a queue or was running. -/
theorem BlockInv.pendsv (h : BlockInv sz s) (hr : sz.Representable) {oldSp : ℕ}
    (hids : IdsInv sz { s with k := (hrtSchedule sz oldSp { s.k with pend := false }).2 }) :
    BlockInv sz { s with k := (hrtSchedule sz oldSp { s.k with pend := false }).2 } := by
  have hst : ∀ j, (hrtSchedule sz oldSp { s.k with pend := false }).2.stateOf j = s.k.stateOf j :=
    fun j => Interleave.SchedOp.run_stateOf sz { s.k with pend := false } (.schedule oldSp) j
  obtain ⟨hg, hnext⟩ := schedule_entry (k := { s.k with pend := false }) hr h.queued.wf oldSp
    fun t ht _ => h.ids.cur_lt ht
  refine ⟨hids, ?_, h.idle, fun u hu hb => ?_⟩
  · have hpend : NoneBlocked sz { s.k with pend := false } := h.queued.of_rq rfl fun _ hb => hb
    exact hpend.grow hg fun _ _ id _ hb => (hst id).symm.trans hb
  · -- the task made current is not blocked
    have hb' : s.k.stateOf u = .blocked := (hst u).symm.trans hb
    rcases hnext with ⟨-, hidle⟩ | ⟨p, id, hp, hid, -, hentry⟩
    · obtain rfl : sz.idleId = u := Option.some.inj (hidle.symm.trans hu)
      rw [h.ids.unused h.idle] at hb'
      exact absurd hb' (by simp)
    · obtain rfl : id = u := Option.some.inj (hid.symm.trans hu)
      rcases hentry with hmem | ⟨hready, -⟩
      · exact absurd hb' (h.queued.all p hp id hmem)
      · exact absurd (hready.symm.trans hb') (by simp)

/-- **Every clean step keeps the invariant.** -/
theorem BlockInv.step (h : BlockInv sz s) (hr : sz.Representable) {a : Action}
    (hclean : ParkClean sz s a) (hstep : CortexM.step sz idleStack s a = some s') :
    BlockInv sz s' := by
  have hids := h.ids.step hr hstep
  cases a with
  | main c =>
      obtain ⟨hnone, -, rfl⟩ := step_main hstep
      exact h.main hr hnone hclean hids
  | start =>
      obtain ⟨-, rfl⟩ := step_start hstep
      exact ⟨hids, h.queued.of_rq rfl fun _ hb => hb, h.idle, fun _ _ _ => Or.inl rfl⟩
  | task c =>
      obtain ⟨t, hcur, hpend, ⟨o, ho, rfl⟩ | ⟨a, ha, rfl⟩⟩ := step_task hstep
      · obtain ⟨hpark, hslot⟩ := hclean t hcur
        obtain ⟨hq, hb⟩ := h.task hr hcur hpend hpark ho
        have hne : sz.idleId ≠ t := by
          rintro rfl
          rw [h.idle] at ho
          exact absurd ho (by simp [nextAction])
        refine ⟨hids, hq, ?_, fun u hu hbu => ?_⟩
        · rw [Sys.apply_conts_of_ne s hne]
          refine Sys.spawned_eq_none.mpr ⟨h.idle, fun hsp => ?_⟩
          obtain ⟨a, huser, rfl, hnew⟩ := (taskEffect ho).spawn_eq hsp
          exact (hslot huser a rfl).create_ne _ hnew
        · obtain rfl : t = u := by
            have hu' : o.k.current = some u := hu
            rw [(taskEffect ho).current, hcur] at hu'
            exact Option.some.inj hu'
          rw [Sys.apply_conts_self]
          exact hb hbu
      · have hne : sz.idleId ≠ t := by
          rintro rfl
          rw [h.idle] at ha
          exact absurd ha (by simp)
        exact ⟨hids, h.queued.of_rq rfl fun _ hb => hb,
          (Sys.land_conts_of_ne s hne a).trans h.idle, fun _ _ _ => Or.inl rfl⟩
  | isr op =>
      obtain rfl := Option.some.inj hstep
      have hq : NoneBlocked sz (isrAction sz s.k op).2.1 :=
        h.queued.grow (h.ids.known.isr_grows hr op) fun _ _ id _ hb => isr_blocked hb
      refine ⟨hids, hq, h.idle, fun t ht hb => ?_⟩
      have ht' : s.k.current = some t := (isr_current sz s.k op).symm.trans ht
      exact (h.cur t ht' (isr_blocked hb)).imp_left (isr_pend sz s.k op)
  | tick =>
      obtain rfl := Option.some.inj hstep
      obtain ⟨hcur, -, hpend⟩ := hrtTickIsr_frame sz s.k
      have hq : NoneBlocked sz (hrtTickIsr sz s.k) :=
        h.queued.grow (.tick h.queued.wf hr) fun _ _ id _ hb =>
          (hrtTickIsr_blocked_iff sz s.k id).mp hb
      refine ⟨hids, hq, h.idle, fun t ht hb => ?_⟩
      exact (h.cur t (hcur ▸ ht) ((hrtTickIsr_blocked_iff sz s.k t).mp hb)).imp_left hpend
  | pendsv oldSp =>
      obtain ⟨-, -, rfl⟩ := step_pendsv hstep
      exact h.pendsv hr hids

theorem BlockInv.boot (sz : Sizing) (idleStack : ℕ) (cfg : Option KernelConfig) (objs : ObjectSpecs)
    (mem : Kernel) : BlockInv sz (boot sz idleStack cfg objs mem) where
  ids := IdsInv.boot sz idleStack cfg objs mem
  queued := ⟨(IdsInv.boot sz idleStack cfg objs mem).known.ready.wf, fun p hp id hid =>
    absurd rfl ((IdsInv.boot sz idleStack cfg objs mem).known.ready.all p hp id hid)⟩
  idle := rfl
  cur t ht := by
    have hnone := (hrtInit_frame sz { mem with error := .none, pend := false }
      (.cortexM idleStack) cfg).2.1
    exact absurd (hnone.symm.trans ht) (by simp)

end Invariant

/-! ## The result -/

/-- **Lock calls report what happened**: from a return of 0 to `t` until `t` unlocks, `t` owns the mutex
and no lock call on it returns 0. -/
def LocksHeld (s : Sys) : Prop :=
  ∀ (m t : ℕ) (c : Call) (l₁ l₂ : List Event), (c = .mutexLock m ∨ c = .mutexTryLock m) →
    s.log = l₁ ++ .ret t c 0 :: l₂ → .mutexUnlocked m t ∉ l₂ →
    (s.k.mutexes m).owner = t ∧
      ∀ u, .ret u (.mutexLock m) 0 ∉ l₂ ∧ .ret u (.mutexTryLock m) 0 ∉ l₂

section Results

variable {sz : Sizing} {idleStack : ℕ} {cfg : Option KernelConfig} {objs : ObjectSpecs} {mem : Kernel}
  {as : List Action} {s : Sys}

/-- **Blocking calls are sound** in every run of clean steps of the atomic machine. -/
theorem calls_sound_of_run (hr : sz.Representable)
    (hrun : exec (step sz idleStack) (boot sz idleStack cfg objs mem) as = some s)
    (hclean : Along (step sz idleStack) (ParkClean sz) (boot sz idleStack cfg objs mem) as) :
    LocksHeld s ∧ Always TakeReturnsOk s.log := by
  -- the run is one of the interleaving machine in which parked tasks wait
  obtain ⟨-, bs, hbs, hwait⟩ := refines_interleave (I := BlockInv sz)
    (fun s a s' h ha hstep => h.step hr ha hstep) (fun s h => h.runsUnblocked)
    (BlockInv.boot sz idleStack cfg objs mem) hclean hrun
  refine ⟨fun m t c l₁ l₂ hc hlog hun => ?_, (takeInv_of_run hr hbs hwait).returns⟩
  have hwf := ((mutex_trace hr hbs hwait m).2.1.locks m).wf
  obtain ⟨hown, hhands⟩ := mutex_held (mutex_lockProtocol hr hbs hwait m) hc hlog hun
  refine ⟨(hwf.owner_eq hown).2, fun u => ⟨fun hm => ?_, fun hm => ?_⟩⟩
  · exact hhands _ hm ⟨u, Or.inl rfl⟩
  · exact hhands _ hm ⟨u, Or.inr (Or.inl rfl)⟩

/-- **Blocking calls are sound** in every run in pieces that is undisturbed and clean. Whenever
`hrt_mutex_lock` or `hrt_mutex_try_lock` has returned 0 to a task, the task owns the mutex until it unlocks
it, and no other lock call returns 0 before that. Whenever `hrt_sem_take` returns, it returns 0, and the
call decremented the count, or it parked and was handed a token afterwards. -/
theorem blocking_calls_sound (hr : sz.Representable) {bs : List (Sectioned.Action Action)}
    {x : Sectioned.State Sys Piece (Option ℕ)}
    (hrun : exec (machine sz idleStack).step (Sectioned.closed (boot sz idleStack cfg objs mem)) bs =
      some x)
    (hclean : Along (machine sz idleStack).step
      (fun x b => (machine sz idleStack).Undisturbed x b ∧ (machine sz idleStack).Whole (ParkClean sz) x b)
      (Sectioned.closed (boot sz idleStack cfg objs mem)) bs) :
    LocksHeld x.base ∧ Always TakeReturnsOk x.base.log := by
  obtain ⟨as, has, hP⟩ := Sectioned.refines hrun hclean
  have hsound := calls_sound_of_run hr has hP
  -- the pieces still to run change neither the log nor a mutex
  rw [whole_eq] at hsound
  have hmut := (completePieces_objects sz (.cortexM idleStack)
    (x.handler ++ x.here (machine sz idleStack)) x.base.k).mutexes
  refine ⟨fun m t c l₁ l₂ hc hlog hun => ?_, hsound.2⟩
  rw [← hmut]
  exact hsound.1 m t c l₁ l₂ hc hlog hun

/-- Actions that have no pieces. -/
def atOnce (as : List Action) : List (Sectioned.Action Action) := as.map .act

/-- An action of the thread and `n` of its pieces. -/
def cut (a : Action) (n : ℕ) : List (Sectioned.Action Action) := .act a :: List.replicate n .piece

/-- A tick and `n` pieces of its handler. -/
def cutTick (n : ℕ) : List (Sectioned.Action Action) := .act .tick :: List.replicate n .handlerPiece

/-- Two tasks are created; the first one takes a mutex and goes to sleep. The second one parks on the
mutex, and the idle task runs until the third tick. -/
def parkedRun : List (Sectioned.Action Action) :=
  cut (.main (.createTask ⟨1, 0, 0x20001000, 64, none⟩)) 7 ++
    cut (.main (.createTask ⟨1, 0, 0x20002000, 64, none⟩)) 7 ++
    atOnce [.start, .pendsv 0, .task (.mutexLock 0)] ++ cut (.task (.sleep 3)) 2 ++
    atOnce [.task .yield, .pendsv 0x20001000, .task (.mutexLock 0), .task .yield, .task .yield,
      .pendsv 0x20002000] ++
    cutTick 12 ++ cutTick 12 ++ cutTick 19

/-- The first task wakes up, unlocks and sleeps again. Inside the `rq_push` of the yield that follows the
unlock, after the id has been stored, a tick and an ISR arrive. -/
def unlockRun : List (Sectioned.Action Action) :=
  atOnce [.pendsv 0x20000000, .task .yield, .pendsv 0x20001000, .task .yield, .task (.mutexUnlock 0)] ++
    cut (.task .yield) 3 ++ cutTick 12 ++ [.act (.isr (.semGive 0)), .piece, .piece] ++
    atOnce [.task .yield, .pendsv 0x20001000, .task .yield, .pendsv 0x20002000, .task .yield,
      .pendsv 0x20001000, .task .yield] ++
    cut (.task (.sleep 3)) 2 ++ atOnce [.task .yield, .pendsv 0x20001000, .task .yield]

/-- The second task is told that it has the mutex, and it has. -/
theorem blocking_calls_sound_served :
    ∃ x, exec (machine .default 0x20000000).step (Sectioned.closed board) (parkedRun ++ unlockRun) =
        some x ∧
      x.base.log.getLast? = some (.ret 1 (.mutexLock 0) 0) ∧ (x.base.k.mutexes 0).owner = 1 ∧
      Always TakeReturnsOk x.base.log := by
  have heval : ((exec (machine .default 0x20000000).step (Sectioned.closed board)
      (parkedRun ++ unlockRun)).map fun x => x.base.log.getLast?) =
        some (some (.ret 1 (.mutexLock 0) 0)) := by
    decide +kernel
  obtain ⟨x, hx, hlast⟩ := Option.map_eq_some_iff.mp heval
  obtain ⟨hheld, htakes⟩ := blocking_calls_sound (by decide) hx (by decide +kernel)
  obtain ⟨l, hl⟩ := List.getLast?_eq_some_iff.mp hlast
  exact ⟨x, hx, hlast, (hheld 0 1 _ l [] (Or.inl rfl) hl List.not_mem_nil).1, htakes⟩

/-- Two tasks are created; the first one takes a mutex and goes to sleep. -/
def lockRun : List Action :=
  [.main (.createTask ⟨1, 0, 0x20001000, 64, none⟩), .main (.createTask ⟨1, 0, 0x20002000, 64, none⟩),
    .start, .pendsv 0, .task (.mutexLock 0), .task (.sleep 3), .task .yield, .pendsv 0x20001000]

/-- The second task calls `hrt_yield`, nobody else being ready. -/
def yieldAlone : List Action :=
  [.task .yield, .task .yield, .pendsv 0x20002000, .task .yield, .pendsv 0x20002000, .task .yield]

/-- The second task calls `hrt_mutex_lock` and is resumed from the ready queue twice. -/
def staleResume : List Action :=
  [.task (.mutexLock 0), .task .yield, .task .yield, .pendsv 0x20002000, .task .yield,
    .pendsv 0x20002000, .task .yield]

/-- **A lock call returns to a task that does not own the mutex.** Two calls of `hrt_yield` leave two
entries of the second task in the ready queue; they resume it right after it has parked, and
`hrt_mutex_lock` returns 0 while the first task still owns the mutex. -/
theorem lock_returns_unowned :
    ∃ s, exec (step .default 0x20000000) board (lockRun ++ yieldAlone ++ yieldAlone ++ staleResume) =
        some s ∧
      s.log.getLast? = some (.ret 1 (.mutexLock 0) 0) ∧ (s.k.mutexes 0).owner = 0 ∧
      s.k.stateOf 1 = .blocked ∧ ¬ LocksHeld s := by
  have heval : ((exec (step .default 0x20000000) board
      (lockRun ++ yieldAlone ++ yieldAlone ++ staleResume)).map
        fun s => (s.log.getLast?, (s.k.mutexes 0).owner, s.k.stateOf 1)) =
      some (some (.ret 1 (.mutexLock 0) 0), 0, .blocked) := by
    decide +kernel
  obtain ⟨s, hs, hv⟩ := Option.map_eq_some_iff.mp heval
  obtain ⟨hlast, howner, hst⟩ : s.log.getLast? = some (.ret 1 (.mutexLock 0) 0) ∧
      (s.k.mutexes 0).owner = 0 ∧ s.k.stateOf 1 = .blocked := by
    simpa using hv
  refine ⟨s, hs, hlast, howner, hst, fun hheld => ?_⟩
  obtain ⟨l, hl⟩ := List.getLast?_eq_some_iff.mp hlast
  have hown := (hheld 0 1 _ l [] (Or.inl rfl) hl List.not_mem_nil).1
  rw [howner] at hown
  exact absurd hown (by decide)

end Results

end CortexM

end HardRT
