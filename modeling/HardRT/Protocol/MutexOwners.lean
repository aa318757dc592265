import HardRT.CortexM.ReadySet
import HardRT.Posix.ReadySet
import HardRT.Protocol.MutexLock

/-! # Owners of mutexes across task lifetimes

A mutex records its owner as a slot number, and slots are reused: `hrt_task_delete` frees the caller's
slot without looking at the mutexes it owns, and the next `hrt_create_task` may put another task there.

* `acquisitions` — the record of who acquired what since its own creation, kept along a run.
* `slot_inherits_ownership` — a task that is created in the slot of a deleted owner unlocks a mutex that
  it never acquired.
* `DeletesUnowned` — no task exits while it owns a mutex.
* `owners_acquired` — along such steps the owner of a locked mutex lives and has acquired it itself.
* `CortexM.owners_on_port`, `Posix.owners_on_port` — the same on the ports. -/

namespace HardRT

open Lib

/-! ## The record of acquisitions -/

/-- The acquisition an event is: mutex and task. -/
def Event.acquires : Event → Option (ℕ × ℕ)
  | .mutexAcquired m t | .mutexHandoff m t => some (m, t)
  | _ => none

/-- **The acquisitions of the tasks now alive**, as pairs of mutex and slot: a step adds the ones it
logs, and a creation drops those of the slot's previous task. -/
def acquisitions {α : Type*} (step : Sys → α → Option Sys) (s : Sys) (a : α) (g : List (ℕ × ℕ)) :
    List (ℕ × ℕ) :=
  (step s a).elim g fun s' =>
    g.filter (fun x => s.k.stateOf x.2 ≠ .unused ∨ s'.k.stateOf x.2 = .unused) ++
      (s'.log.drop s.log.length).filterMap Event.acquires

section Record

variable {α : Type*} {step : Sys → α → Option Sys} {s s' : Sys} {a : α} {g : List (ℕ × ℕ)} {m t : ℕ}

/-- A task that lives keeps its acquisitions. -/
theorem mem_acquisitions_of_mem (h : step s a = some s') (hlive : s.k.stateOf t ≠ .unused)
    (hmem : (m, t) ∈ g) : (m, t) ∈ acquisitions step s a g := by
  simp only [acquisitions, h, Option.elim_some, List.mem_append, List.mem_filter, decide_eq_true_eq]
  exact Or.inl ⟨hmem, Or.inl hlive⟩

/-- What a step logs is recorded. -/
theorem mem_acquisitions_of_event (h : step s a = some s') {es : List Event}
    (hlog : s'.log = s.log ++ es) {e : Event} (he : e ∈ es) (hacq : e.acquires = some (m, t)) :
    (m, t) ∈ acquisitions step s a g := by
  simp only [acquisitions, h, Option.elim_some, hlog, List.drop_left, List.mem_append]
  exact Or.inr (List.mem_filterMap.mpr ⟨e, he, hacq⟩)

end Record

/-! ## What an action does to the mutexes -/

/-- **The ways an action of task `t` can change the mutexes.** -/
inductive MutexEffect (sz : Sizing) (t : ℕ) (k : Kernel) (call : Call) (c : Cont) (o : Outcome) : Prop
  | same (h : o.k.mutexes = k.mutexes)
  /-- The task takes a free mutex. -/
  | take (i : ℕ) (hc : c.leaving = false) (hcall : c = .user → call ≠ .taskDelete)
      (h : o.k.mutexes = Function.update k.mutexes i { k.mutexes i with locked := true, owner := t })
      (he : .mutexAcquired i t ∈ o.evs)
  /-- The task parks on a mutex. -/
  | park (i : ℕ)
      (h : o.k.mutexes = Function.update k.mutexes i (mutexWaitqPush sz (t % 256) (k.mutexes i)))
  /-- The task passes a mutex to the longest waiting task. -/
  | pass (i w : ℕ) (hcall : call ≠ .taskDelete)
      (hpop : ((k.mutexes i).waitq.pop 256 sz.maxTasks).1 = some w)
      (h : o.k.mutexes = Function.update k.mutexes i
        ⟨true, w, ((k.mutexes i).waitq.pop 256 sz.maxTasks).2⟩)
      (he : .mutexHandoff i w ∈ o.evs)
  /-- The task frees a mutex. -/
  | free (i : ℕ)
      (h : o.k.mutexes = Function.update k.mutexes i
        ⟨false, noOwner, ((k.mutexes i).waitq.pop 256 sz.maxTasks).2⟩)

section Effect

variable {sz : Sizing} {port : Port} {t : ℕ} {k : Kernel} {call : Call} {c : Cont} {o : Outcome}

/-- **The first action of a call.** -/
theorem issue_mutexEffect (evs : List Event) (hevs : ∀ e ∈ (issue sz port t k call).evs, e ∈ evs) :
    MutexEffect sz t k call .user { issue sz port t k call with evs := evs } := by
  have helse : ¬ call.onMutex →
      MutexEffect sz t k call .user { issue sz port t k call with evs := evs } :=
    fun hcall => .same (issue_offMutex sz port t k hcall).mutexes
  cases call with
  | mutexTryLock i =>
      rcases hrtMutexTryLock_mutexes sz i t k with ⟨h0, -, hmut⟩ | ⟨h1, hmut⟩
      · simp only [issue, if_pos h0] at hevs ⊢
        exact .take i rfl (by simp) hmut (hevs _ (by simp))
      · simp only [issue, h1]
        exact .same hmut
  | mutexLock i =>
      by_cases hctx : sz.maxTasks ≤ t
      · simp only [issue, if_pos hctx]
        exact .same rfl
      · rcases hrtMutexTryLock_mutexes sz i t k with ⟨h0, -, hmut⟩ | ⟨h1, hmut⟩
        · simp only [issue, if_neg hctx, if_pos h0] at hevs ⊢
          exact .take i rfl (by simp) hmut (hevs _ (by simp))
        · simp only [issue, if_neg hctx, h1]
          exact .same hmut
  | mutexUnlock i =>
      rcases hrtMutexUnlockCs_mutexes sz i t k with
        ⟨hout, hmut⟩ | ⟨-, -, ⟨w, hout, hpop, hmut⟩ | ⟨hout, -, hmut⟩⟩
      · simp only [issue, hout]
        exact .same hmut
      · simp only [issue, hout] at hevs ⊢
        exact .pass i w (by simp) hpop hmut (hevs _ (by simp))
      · simp only [issue, hout]
        exact .free i hmut
  | _ => exact helse not_false

/-- **Every action of a task** changes the mutexes in one of the listed ways. -/
theorem mutexEffect (ho : nextAction sz port t call k c = some o) : MutexEffect sz t k call c o := by
  cases c with
  | none => exact absurd ho (by simp [nextAction])
  | hop a => exact absurd ho (by simp [nextAction])
  | user =>
      obtain rfl := Option.some.inj ho
      exact issue_mutexEffect _ fun e he => List.mem_cons_of_mem _ he
  | yield a =>
      obtain rfl := Option.some.inj ho
      exact .same (hrtYieldBody_objects sz t k).mutexes
  | pend a =>
      obtain rfl := Option.some.inj ho
      exact .same rfl
  | resumed a =>
      obtain rfl := Option.some.inj ho
      cases a with
      | ret c' code => exact .same rfl
      | sendAgain q item => exact .same (sendAttempt_offMutex q item k).mutexes
      | recvAgain q => exact .same (recvAttempt_offMutex q k).mutexes
  | semTake i =>
      obtain rfl := Option.some.inj ho
      refine .same ?_
      simp only [semTakeAction]
      split <;> exact hrtSemTakeCs_frame.1
  | mutexLock i =>
      obtain rfl := Option.some.inj ho
      by_cases hfree : (k.mutexes i).locked = false
      · simp only [mutexLockAction, hrtMutexLockCs, if_pos hfree]
        exact .take i rfl (by simp) rfl (by simp)
      by_cases hrec : (k.mutexes i).owner = t
      · simp only [mutexLockAction, hrtMutexLockCs, if_neg hfree, if_pos hrec]
        exact .same rfl
      · simp only [mutexLockAction, hrtMutexLockCs, if_neg hfree, if_neg hrec]
        exact .park i rfl
  | queueSend q item =>
      obtain rfl := Option.some.inj ho
      refine .same ?_
      simp only [queueSendAction]
      split <;> exact hrtQueueSendCs_frame.2
  | queueRecv q =>
      obtain rfl := Option.some.inj ho
      refine .same ?_
      simp only [queueRecvAction]
      split <;> exact hrtQueueRecvCs_frame.2

end Effect

/-! ## The invariant -/

/-- **Every owner lives and has acquired its mutex** since it was created. -/
def OwnersAcquired (s : Sys) (g : List (ℕ × ℕ)) : Prop :=
  ∀ m, (s.k.mutexes m).locked = true →
    ∃ t : ℕ, (s.k.mutexes m).owner = t ∧ s.k.stateOf t ≠ .unused ∧ (m, t) ∈ g

/-- **Nobody exits with a mutex**: `hrt_task_delete` is called, or an entry function returns, only by a
task that owns none. -/
def DeletesUnowned (s : Sys) : Interleave.Action → Prop
  | .task t .taskDelete => s.conts t = .user →
      ∀ m, (s.k.mutexes m).locked = true → (s.k.mutexes m).owner ≠ t
  | _ => True

/-- Whatever is not a step of a task is free to happen. -/
theorem DeletesUnowned.of_not_task {s : Sys} {b : Interleave.Action} (hb : ∀ t c, b ≠ .task t c) :
    DeletesUnowned s b := by
  cases b with
  | task t c => exact absurd rfl (hb t c)
  | _ => trivial

section Invariant

variable {sz : Sizing} {port : Port} {s s' : Sys} {g : List (ℕ × ℕ)} {a : Interleave.Action}

/-- A step that leaves lock bits and owners alone and after which every live task still lives. -/
theorem OwnersAcquired.frame (h : OwnersAcquired s g) (hstep : Interleave.step sz port s a = some s')
    (hmut : s'.k.mutexes = s.k.mutexes)
    (halive : ∀ u, s'.k.stateOf u = .unused → s.k.stateOf u = .unused) :
    OwnersAcquired s' (acquisitions (Interleave.step sz port) s a g) := by
  intro m hl
  rw [hmut] at hl ⊢
  obtain ⟨t, ht, hlive, hmem⟩ := h m hl
  exact ⟨t, ht, fun hun => hlive (halive t hun), mem_acquisitions_of_mem hstep hlive hmem⟩

/-- **An action of a task** keeps the invariant, if the task lives and does not exit with a mutex. -/
theorem OwnersAcquired.task (h : OwnersAcquired s g) (hr : sz.Representable) (hinv : PartInv sz s)
    {t : ℕ} {c : Call} (hstep : Interleave.step sz port s (.task t c) = some s')
    (hlive : LivesOn s (.task t c)) (hdel : DeletesUnowned s (.task t c)) {o : Outcome}
    (ho : nextAction sz port t c (s.setCurrent t).k (s.conts t) = some o)
    (hs' : s' = (s.setCurrent t).apply t o) :
    OwnersAcquired s' (acquisitions (Interleave.step sz port) s (.task t c) g) := by
  have heff := taskEffect ho
  have hlog : s'.log = s.log ++ o.evs := by rw [hs']; rfl
  -- whoever lives before the action and does not exit lives after it
  have halive : ∀ u, s.k.stateOf u ≠ .unused → ¬ (u = t ∧ s.conts t = .user ∧ c = .taskDelete) →
      s'.k.stateOf u ≠ .unused := by
    intro u hu hne hun
    rw [hs'] at hun
    rcases heff.unused hun with hun | hun
    · exact hu hun
    · exact hne hun
  -- a mutex whose lock bit and owner are as before
  have hkeep : ∀ m, (s'.k.mutexes m).locked = (s.k.mutexes m).locked →
      (s'.k.mutexes m).owner = (s.k.mutexes m).owner → (s'.k.mutexes m).locked = true →
      ∃ u : ℕ, (s'.k.mutexes m).owner = u ∧ s'.k.stateOf u ≠ .unused ∧
        (m, u) ∈ acquisitions (Interleave.step sz port) s (.task t c) g := by
    intro m hlk how hl
    rw [hlk] at hl
    obtain ⟨u, hu, hul, hmem⟩ := h m hl
    refine ⟨u, how.trans hu, halive u hul ?_, mem_acquisitions_of_mem hstep hul hmem⟩
    rintro ⟨rfl, hc, rfl⟩
    exact hdel hc m hl hu
  have hk : s'.k.mutexes = o.k.mutexes := by rw [hs']; rfl
  intro m
  cases mutexEffect ho with
  | same hmut =>
      rw [hmut] at hk
      exact hkeep m (by rw [hk]; rfl) (by rw [hk]; rfl)
  | take i hc hcall hmut he =>
      rw [hmut] at hk
      by_cases him : m = i
      · intro _
        subst him
        refine ⟨t, by rw [hk, Function.update_self], halive t ?_ ?_, ?_⟩
        · refine hlive.resolve_left fun hl => ?_
          rw [hc] at hl
          exact absurd hl (by simp)
        · rintro ⟨-, hu, hd⟩
          exact hcall hu hd
        · exact mem_acquisitions_of_event hstep hlog he rfl
      · exact hkeep m (by rw [hk, Function.update_of_ne him]; rfl)
          (by rw [hk, Function.update_of_ne him]; rfl)
  | park i hmut =>
      rw [hmut] at hk
      by_cases him : m = i
      · subst him
        exact hkeep m (by rw [hk, Function.update_self]; rfl) (by rw [hk, Function.update_self]; rfl)
      · exact hkeep m (by rw [hk, Function.update_of_ne him]; rfl)
          (by rw [hk, Function.update_of_ne him]; rfl)
  | pass i w hcall hpop hmut he =>
      rw [hmut] at hk
      by_cases him : m = i
      · intro _
        subst him
        -- the waiter was blocked, so its slot is in use
        have hb : s.k.stateOf w = .blocked := hinv.part.blocked_of_pop (w := .mutex m) hr hpop
        refine ⟨w, by rw [hk, Function.update_self], halive w (by rw [hb]; simp) ?_, ?_⟩
        · rintro ⟨-, -, hd⟩
          exact hcall hd
        · exact mem_acquisitions_of_event hstep hlog he rfl
      · exact hkeep m (by rw [hk, Function.update_of_ne him]; rfl)
          (by rw [hk, Function.update_of_ne him]; rfl)
  | free i hmut =>
      rw [hmut] at hk
      by_cases him : m = i
      · intro hl
        subst him
        rw [hk, Function.update_self] at hl
        exact absurd hl (by simp)
      · exact hkeep m (by rw [hk, Function.update_of_ne him]; rfl)
          (by rw [hk, Function.update_of_ne him]; rfl)

/-- **Every step keeps the invariant** in which deleted tasks are gone and nobody exits with a
mutex. -/
theorem OwnersAcquired.step (h : OwnersAcquired s g) (hr : sz.Representable) (hinv : PartInv sz s)
    (hlive : LivesOn s a) (hdel : DeletesUnowned s a)
    (hstep : Interleave.step sz port s a = some s') :
    OwnersAcquired s' (acquisitions (Interleave.step sz port) s a g) := by
  cases a with
  | main c =>
      refine h.frame hstep ?_ ?_ <;> obtain rfl := Option.some.inj hstep
      · exact (Interleave.main_objects sz port s c).mutexes
      · intro u hu
        cases c with
        | createTask a => exact hrtCreateTask_unused hu
        | setPolicy p => exact hu
        | setDefaultTimeslice n => exact hu
  | isr op =>
      refine h.frame hstep ?_ ?_ <;> obtain rfl := Option.some.inj hstep
      · exact (isr_offMutex sz s.k op).1
      · exact fun u hu => isr_unused hu
  | tick =>
      refine h.frame hstep ?_ ?_ <;> obtain rfl := Option.some.inj hstep
      · exact (Interleave.tickIsr_objects sz s.k).mutexes
      · exact fun u hu => (hrtTickIsr_unused_iff sz s.k u).mp hu
  | sched op =>
      refine h.frame hstep ?_ ?_ <;> obtain rfl := Option.some.inj hstep
      · exact (Interleave.SchedOp.run_objects sz s.k op).mutexes
      · intro u hu
        rwa [Interleave.SchedOp.run_stateOf] at hu
  | task t c =>
      rcases Interleave.step_task hstep with ⟨o, -, ho, hs'⟩ | ⟨x, -, hs'⟩
      · exact h.task hr hinv hstep hlive hdel ho hs'
      · refine h.frame hstep ?_ ?_ <;> subst hs'
        · rfl
        · exact fun u hu => hu

end Invariant

/-! ## The result -/

/-- **The answers of the mutex calls rest on acquisitions**: an unlock succeeds, and a lock is reported
as recursive by either critical section of `hrt_mutex_lock`, only for a task that has acquired the
mutex. -/
structure AnswersAcquired (sz : Sizing) (k : Kernel) (g : List (ℕ × ℕ)) : Prop where
  unlock : ∀ m t, (hrtMutexUnlockCs sz m t k).1 ≠ .refused → (m, t) ∈ g
  tryLock : ∀ m t, k.error ≠ .mutexRecursive →
    (hrtMutexTryLock sz m t k).2.error = .mutexRecursive → (m, t) ∈ g
  lock : ∀ m t, (hrtMutexLockCs sz m t k).1 = .recursive → (m, t) ∈ g

section Results

variable {sz : Sizing} {port : Port} {cfg : Option KernelConfig} {objs : ObjectSpecs} {mem : Kernel}
  {s : Sys} {g : List (ℕ × ℕ)}

/-- The owner, as a task, has acquired the mutex. -/
theorem OwnersAcquired.mem_of_owner (h : OwnersAcquired s g) {m t : ℕ}
    (hl : (s.k.mutexes m).locked = true) (ht : (s.k.mutexes m).owner = t) : (m, t) ∈ g := by
  obtain ⟨u, hu, -, hmem⟩ := h m hl
  obtain rfl : t = u := Int.ofNat.inj (ht.symm.trans hu)
  exact hmem

/-- The calls compare the caller with the owner, so their answers follow the owners. -/
theorem OwnersAcquired.answers (h : OwnersAcquired s g) : AnswersAcquired sz s.k g where
  unlock m t hout := by
    rcases hrtMutexUnlockCs_mutexes sz m t s.k with ⟨hre, -⟩ | ⟨hl, ht, -⟩
    · exact absurd hre hout
    · exact h.mem_of_owner hl ht
  tryLock m t hne herr := by
    unfold hrtMutexTryLock at herr
    split_ifs at herr with hctx hfree hrec
    · exact absurd herr (by simp [Kernel.hrtError])
    · exact absurd herr hne
    · exact h.mem_of_owner (Bool.of_not_eq_false hfree) hrec
    · exact absurd herr hne
  lock m t hout := by
    unfold hrtMutexLockCs at hout
    split_ifs at hout with hfree hrec
    exact h.mem_of_owner (Bool.of_not_eq_false hfree) hrec

/-- **The invariant along a run** in which deleted tasks are gone and nobody exits with a mutex. -/
theorem ownersAcquired_of_run (hr : sz.Representable) {as : List Interleave.Action}
    (hrun : exec (Interleave.step sz port) (Sys.boot sz port cfg objs mem) as = some s)
    (hclean : Along (Interleave.step sz port) (fun s a => LivesOn s a ∧ DeletesUnowned s a)
      (Sys.boot sz port cfg objs mem) as) :
    OwnersAcquired s (track (Interleave.step sz port) (acquisitions (Interleave.step sz port))
      (Sys.boot sz port cfg objs mem) [] as) := by
  have hkeep : ∀ s a s' g, PartInv sz s ∧ OwnersAcquired s g → LivesOn s a ∧ DeletesUnowned s a →
      Interleave.step sz port s a = some s' →
      PartInv sz s' ∧ OwnersAcquired s' (acquisitions (Interleave.step sz port) s a g) := by
    rintro s a s' g ⟨hinv, h⟩ ⟨hl, hd⟩ hstep
    exact ⟨hinv.step hr hstep, h.step hr hinv hl hd hstep⟩
  have h0 : OwnersAcquired (Sys.boot sz port cfg objs mem) [] :=
    fun m hl => absurd hl (by simp [Sys.boot, hrtMutexInit])
  exact (track_invariant hkeep ⟨PartInv.boot sz port cfg objs mem, h0⟩ hclean hrun).2

/-- **Ownership belongs to a task.** In every run in which deleted tasks are gone and nobody exits with a
mutex, the owner of a locked mutex is a task that lives and has acquired the mutex since its own
creation, and so has every task that unlocks it or is refused for a recursive lock. The machine lets no
blocked task enter an API function (`Sys.MayAct`): port runs in which a stale ready-queue entry resumes
one are outside of this statement. -/
theorem owners_acquired (hr : sz.Representable) {as : List Interleave.Action}
    (hrun : exec (Interleave.step sz port) (Sys.boot sz port cfg objs mem) as = some s)
    (hlive : Along (Interleave.step sz port) LivesOn (Sys.boot sz port cfg objs mem) as)
    (hdel : Along (Interleave.step sz port) DeletesUnowned (Sys.boot sz port cfg objs mem) as) :
    OwnersAcquired s (track (Interleave.step sz port) (acquisitions (Interleave.step sz port))
      (Sys.boot sz port cfg objs mem) [] as) ∧
    AnswersAcquired sz s.k (track (Interleave.step sz port) (acquisitions (Interleave.step sz port))
      (Sys.boot sz port cfg objs mem) [] as) := by
  have h := ownersAcquired_of_run hr hrun (hlive.and hdel)
  exact ⟨h, h.answers⟩

/-- Two tasks are created; the first one locks mutex 0, the second one parks on it, and the first one
unlocks it and returns. -/
def passRun : List Interleave.Action :=
  [.main (.createTask ⟨1, 0, 0x1000, 64, none⟩), .main (.createTask ⟨1, 0, 0x2000, 64, none⟩),
    .task 0 (.mutexLock 0), .task 1 (.mutexLock 0), .task 1 .yield, .task 1 .yield,
    .task 0 (.mutexUnlock 0), .task 0 .yield, .task 0 .yield, .task 0 .yield, .task 0 .yield]

/-- The first task exits, and the second one goes on and creates a third one. -/
def reuseRun : List Interleave.Action :=
  [.task 0 .taskDelete, .task 1 .yield, .task 1 .yield,
    .task 1 (.createTask ⟨1, 0, 0x3000, 64, none⟩)]

/-- The third task lives in the slot of the first one; the mutex is the second one's, and the third one
cannot unlock it. -/
theorem owners_acquired_reuse :
    ∃ s, exec (Interleave.step .default .posix) (Sys.boot .default .posix none .basic .bss)
        (passRun ++ reuseRun) = some s ∧
      s.k.stateOf 0 = .ready ∧ (s.k.tcbs 0).stackBase = 0x3000 ∧ (s.k.mutexes 0).locked = true ∧
      (s.k.mutexes 0).owner = 1 ∧ (hrtMutexUnlockCs .default 0 0 s.k).1 = .refused := by
  have hr : Sizing.default.Representable := by decide
  have heval : ((exec (Interleave.step .default .posix) (Sys.boot .default .posix none .basic .bss)
      passRun).map fun s => (s.k.mutexes 0).owner) = some 1 := by
    decide +kernel
  obtain ⟨x, hx, howner⟩ := Option.map_eq_some_iff.mp heval
  have hdel₀ : Along (Interleave.step .default .posix) DeletesUnowned
      (Sys.boot .default .posix none .basic .bss) passRun :=
    Along.of_forall (by simp [passRun, DeletesUnowned]) _
  -- nobody exits with a mutex: the one that was acquired has passed on
  have hexit : DeletesUnowned x (.task 0 .taskDelete) := by
    intro _ m hl h0
    obtain ⟨howned, -⟩ := owners_acquired hr hx (by decide +kernel) hdel₀
    have hmem := howned.mem_of_owner hl (t := 0) h0
    have htrack : track (Interleave.step .default .posix)
        (acquisitions (Interleave.step .default .posix))
        (Sys.boot .default .posix none .basic .bss) [] passRun = [(0, 0), (0, 1)] := by
      decide +kernel
    rw [htrack] at hmem
    obtain rfl : m = 0 := by simpa using hmem
    rw [howner] at h0
    exact absurd h0 (by simp)
  have hdel : Along (Interleave.step .default .posix) DeletesUnowned
      (Sys.boot .default .posix none .basic .bss) (passRun ++ reuseRun) :=
    (along_append hx).mpr ⟨hdel₀, hexit, fun y _ =>
      Along.of_forall (by simp [DeletesUnowned]) y⟩
  have heval' : ((exec (Interleave.step .default .posix) (Sys.boot .default .posix none .basic .bss)
      (passRun ++ reuseRun)).map fun s => (s.k.stateOf 0, (s.k.tcbs 0).stackBase,
        (s.k.mutexes 0).locked, (s.k.mutexes 0).owner)) = some (.ready, 0x3000, true, 1) := by
    decide +kernel
  obtain ⟨s, hs, hv'⟩ := Option.map_eq_some_iff.mp heval'
  obtain ⟨hst, hbase, hl, ho⟩ : s.k.stateOf 0 = .ready ∧ (s.k.tcbs 0).stackBase = 0x3000 ∧
      (s.k.mutexes 0).locked = true ∧ (s.k.mutexes 0).owner = 1 := by
    simpa only [Prod.mk.injEq] using hv'
  refine ⟨s, hs, hst, hbase, hl, ho, ?_⟩
  obtain ⟨-, hanswers⟩ := owners_acquired hr hs (by decide +kernel) hdel
  by_contra hne
  have hmem := hanswers.unlock 0 0 hne
  revert hmem
  decide +kernel

/-- **On Cortex-M**, along clean steps in which the current task does not exit with a mutex. -/
theorem CortexM.owners_on_port (hr : sz.Representable) {idleStack : ℕ} {as : List CortexM.Action}
    (hrun : exec (CortexM.step sz idleStack) (CortexM.boot sz idleStack cfg objs mem) as = some s)
    (hclean : Along (CortexM.step sz idleStack) (CortexM.ReadyClean sz)
      (CortexM.boot sz idleStack cfg objs mem) as)
    (hdel : Along (CortexM.step sz idleStack)
      (fun s a => ∀ t c, a = .task c → s.k.current = some t → DeletesUnowned s (.task t c))
      (CortexM.boot sz idleStack cfg objs mem) as) :
    ∃ bs, exec (Interleave.step sz (.cortexM idleStack)) (CortexM.boot sz idleStack cfg objs mem) bs =
        some s ∧
      OwnersAcquired s (track (Interleave.step sz (.cortexM idleStack))
        (acquisitions (Interleave.step sz (.cortexM idleStack)))
        (CortexM.boot sz idleStack cfg objs mem) [] bs) := by
  obtain ⟨bs, hbs, hall⟩ := CortexM.refines_interleave_of_clean hr
    (P := DeletesUnowned) (fun s b hb => .of_not_task hb) hrun hclean hdel
  exact ⟨bs, hbs, ownersAcquired_of_run hr hbs (hall.mono fun s b h => h.2)⟩

/-- **On POSIX**, along clean steps in which the running task does not exit with a mutex. -/
theorem Posix.owners_on_port (hr : sz.Representable) {x : Posix.State} {as : List Posix.Action}
    (hrun : exec (Posix.step sz) (Posix.boot sz cfg objs mem) as = some x)
    (hclean : Along (Posix.step sz) (Posix.ReadyClean sz) (Posix.boot sz cfg objs mem) as)
    (hdel : Along (Posix.step sz)
      (fun s a => ∀ t c, a = .task c → s.sys.k.current = some t → DeletesUnowned s.sys (.task t c))
      (Posix.boot sz cfg objs mem) as) :
    ∃ bs, exec (Interleave.step sz .posix) (Posix.boot sz cfg objs mem).sys bs = some x.sys ∧
      OwnersAcquired x.sys (track (Interleave.step sz .posix)
        (acquisitions (Interleave.step sz .posix)) (Posix.boot sz cfg objs mem).sys [] bs) := by
  obtain ⟨bs, hbs, hall⟩ := Posix.refines_interleave_of_clean hr
    (P := DeletesUnowned) (fun s b hb => .of_not_task hb) hrun hclean hdel
  exact ⟨bs, hbs, ownersAcquired_of_run hr hbs (hall.mono fun s b h => h.2)⟩

end Results

/-! ## An owner that exits -/

/-- Two tasks are created on a board; the first one locks mutex 0 and exits. -/
def exitRun : List CortexM.Action :=
  [.main (.createTask ⟨1, 0, 0x20001000, 64, none⟩), .main (.createTask ⟨1, 0, 0x20002000, 64, none⟩),
    .start, .pendsv 0, .task (.mutexLock 0), .task .taskDelete, .task .yield, .pendsv 0x20001000]

/-- The second task creates a third one and sleeps. -/
def replaceRun : List CortexM.Action :=
  [.task (.createTask ⟨1, 0, 0x20003000, 64, none⟩), .task (.sleep 5), .task .yield,
    .pendsv 0x20002000]

/-- **A slot inherits ownership**: after the exit of its owner mutex 0 stays locked with a free slot as
owner; the task created next in that slot, which has acquired nothing, would have a lock of its own
refused as recursive, and its unlock returns 0. -/
theorem slot_inherits_ownership :
    (∃ s, exec (CortexM.step .default 0x20000000) CortexM.board exitRun = some s ∧
      (s.k.mutexes 0).locked = true ∧ (s.k.mutexes 0).owner = 0 ∧ s.k.stateOf 0 = .unused) ∧
    ∃ s s', exec (CortexM.step .default 0x20000000) CortexM.board (exitRun ++ replaceRun) = some s ∧
      s.k.current = some 0 ∧ (s.k.tcbs 0).stackBase = 0x20003000 ∧
      (0, 0) ∉ track (CortexM.step .default 0x20000000)
        (acquisitions (CortexM.step .default 0x20000000)) CortexM.board [] (exitRun ++ replaceRun) ∧
      (hrtMutexLockCs .default 0 0 s.k).1 = .recursive ∧
      CortexM.step .default 0x20000000 s (.task (.mutexUnlock 0)) = some s' ∧
      .ret 0 (.mutexUnlock 0) 0 ∈ s'.log := by
  have hexit : ((exec (CortexM.step .default 0x20000000) CortexM.board exitRun).map fun s =>
      ((s.k.mutexes 0).locked, (s.k.mutexes 0).owner, s.k.stateOf 0)) = some (true, 0, .unused) := by
    decide +kernel
  have hreplace : ((exec (CortexM.step .default 0x20000000) CortexM.board
      (exitRun ++ replaceRun)).map fun s =>
        (s.k.current, (s.k.tcbs 0).stackBase, (hrtMutexLockCs .default 0 0 s.k).1,
          ((CortexM.step .default 0x20000000 s (.task (.mutexUnlock 0))).map fun s' =>
            decide (.ret 0 (.mutexUnlock 0) 0 ∈ s'.log)))) =
      some (some 0, 0x20003000, .recursive, some true) := by
    decide +kernel
  constructor
  · obtain ⟨s, hs, hv⟩ := Option.map_eq_some_iff.mp hexit
    exact ⟨s, hs, by simpa only [Prod.mk.injEq] using hv⟩
  · obtain ⟨s, hs, hv⟩ := Option.map_eq_some_iff.mp hreplace
    obtain ⟨hcur, hbase, hrec, hunlock⟩ : s.k.current = some 0 ∧ (s.k.tcbs 0).stackBase = 0x20003000 ∧
        (hrtMutexLockCs .default 0 0 s.k).1 = .recursive ∧
        ((CortexM.step .default 0x20000000 s (.task (.mutexUnlock 0))).map fun s' =>
          decide (.ret 0 (.mutexUnlock 0) 0 ∈ s'.log)) = some true := by
      simpa only [Prod.mk.injEq] using hv
    obtain ⟨s', hs', hret⟩ := Option.map_eq_some_iff.mp hunlock
    exact ⟨s, s', hs, hcur, hbase, by decide +kernel, hrec, hs', of_decide_eq_true hret⟩

end HardRT
