import HardRT.Lib.WaitGraph
import HardRT.Protocol.MutexCalls
import HardRT.Protocol.MutexOwners

/-! # Mutexes that are locked in order

`hrt_mutex_lock` waits without a limit and nothing in the kernel looks for cycles, so tasks that lock
several mutexes can block each other for good. The usual rule is to give the mutexes an order and to lock
upwards only. This module shows that the rule is enough: the handoff of `hrt_mutex_unlock`, which makes a
task the owner before its call has returned, does not break the order.

* `Cont.locking` — the task is inside `hrt_mutex_lock` on a mutex.
* `LocksUpward rank` — the rule: `hrt_mutex_lock` is called only above the mutexes the caller owns.
* `OrderInv` — what the rule keeps true of the tasks inside `hrt_mutex_lock`.
* `ordered_locking` — no cycle of waiting tasks, and every chain of them ends in a live owner that waits
  for no mutex.
* `CortexM.ordered_locking_on_port`, `Posix.ordered_locking_on_port` — the same on the ports. -/

namespace HardRT

open Lib

/-! ## Inside a lock call -/

/-- The task is inside `hrt_mutex_lock` on mutex `m`: before the second critical section, or parked and
not back yet. -/
def Cont.locking (m : ℕ) : Cont → Prop
  | .mutexLock i => i = m
  | c => c.awaits (.mutexLock m)

theorem Cont.awaits.locking {m : ℕ} {c : Cont} (h : c.awaits (.mutexLock m)) : c.locking m := by
  cases c <;> first | exact h | exact h.elim

/-- A task is inside at most one lock call. -/
theorem Cont.locking.unique {m m' : ℕ} {c : Cont} (h : c.locking m) (h' : c.locking m') : m = m' := by
  cases c with
  | mutexLock i => exact h.symm.trans h'
  | pend a | hop a | resumed a =>
      obtain rfl : a = .ret (.mutexLock m) 0 := h
      simpa [Cont.locking, Cont.awaits] using h'
  | _ => exact h.elim

section Actions

variable {sz : Sizing} {port : Port} {m t u : ℕ} {k : Kernel} {call : Call} {c : Cont} {o : Outcome}

/-- Parking on a mutex leaves every owner. -/
theorem ownerId_update_waitqPush (i x j : ℕ) :
    (Function.update k.mutexes i (mutexWaitqPush sz x (k.mutexes i)) j).ownerId =
      (k.mutexes j).ownerId := by
  by_cases hj : j = i
  · subst hj
    rw [Function.update_self]
    rfl
  · rw [Function.update_of_ne hj]

/-- An attempt of `hrt_queue_send` ends outside of lock calls. -/
theorem sendAttempt_not_locking (q : ℕ) (item : List UInt8) :
    ¬ (sendAttempt sz t q item k).cont.locking m := by
  simp only [sendAttempt]
  split
  · split <;> exact not_false
  · exact not_false

/-- An attempt of `hrt_queue_recv` ends outside of lock calls. -/
theorem recvAttempt_not_locking (q : ℕ) : ¬ (recvAttempt sz t q k).cont.locking m := by
  simp only [recvAttempt]
  split
  · split <;> exact not_false
  · exact not_false

/-- Only a call of `hrt_mutex_lock` that did not get the mutex at once leads inside, and it changes no
mutex. -/
theorem locking_of_issue (h : (issue sz port t k call).cont.locking m) :
    call = .mutexLock m ∧ (issue sz port t k call).k.mutexes = k.mutexes := by
  cases call with
  | mutexLock i =>
      by_cases hctx : sz.maxTasks ≤ t
      · simp only [issue, if_pos hctx] at h
        exact h.elim
      · rcases hrtMutexTryLock_mutexes sz i t k with ⟨h0, -, -⟩ | ⟨h1, hmut⟩
        · simp only [issue, if_neg hctx, if_pos h0] at h
          exact h.elim
        · simp only [issue, if_neg hctx, h1] at h ⊢
          obtain rfl : i = m := h
          exact ⟨rfl, hmut⟩
  | queueSend q item => exact absurd h (sendAttempt_not_locking q item)
  | queueRecv q => exact absurd h (recvAttempt_not_locking q)
  | mutexUnlock i =>
      simp only [issue] at h
      split at h <;> exact h.elim
  | queueTrySend q item =>
      simp only [issue] at h
      split at h
      · split at h <;> exact h.elim
      · exact h.elim
  | queueTryRecv q =>
      simp only [issue] at h
      split at h
      · split at h <;> exact h.elim
      · exact h.elim
  | semTake i =>
      simp only [issue] at h
      split at h <;> exact h.elim
  | semTryTake i =>
      simp only [issue] at h
      split at h <;> exact h.elim
  | semGive i =>
      simp only [issue] at h
      split at h <;> exact h.elim
  | mutexTryLock i =>
      simp only [issue] at h
      split at h <;> exact h.elim
  | taskDelete =>
      simp only [issue] at h
      split at h
      · exact h.elim
      · simp [Cont.locking, Cont.awaits] at h
  | yield => simp [issue, Cont.locking, Cont.awaits] at h
  | sleep ms => simp [issue, Cont.locking, Cont.awaits] at h
  | createTask a => exact h.elim
  | setPolicy p => exact h.elim
  | setDefaultTimeslice n => exact h.elim

/-- The second critical section of `hrt_mutex_lock` leaves the task inside only by parking it, which
changes no owner. -/
theorem locking_of_mutexLockAction {i : ℕ} (h : (mutexLockAction sz t i k).cont.locking m) :
    i = m ∧ ∀ j, ((mutexLockAction sz t i k).k.mutexes j).ownerId = (k.mutexes j).ownerId := by
  by_cases hfree : (k.mutexes i).locked = false
  · simp only [mutexLockAction, hrtMutexLockCs, if_pos hfree] at h
    exact h.elim
  by_cases hrec : (k.mutexes i).owner = t
  · simp only [mutexLockAction, hrtMutexLockCs, if_neg hfree, if_pos hrec] at h
    exact h.elim
  simp only [mutexLockAction, hrtMutexLockCs, if_neg hfree, if_neg hrec] at h ⊢
  refine ⟨?_, ownerId_update_waitqPush i _⟩
  simpa [Cont.locking, Cont.awaits] using h

/-- **Entering and staying inside**: an action after which the task is inside a lock call changes no
owner, and the task was inside that call before or has just made it. -/
theorem locking_of_nextAction (hok : c.lockOk) (ho : nextAction sz port t call k c = some o)
    (h : o.cont.locking m) :
    (c.locking m ∨ (c = .user ∧ call = .mutexLock m)) ∧
      ∀ i, (o.k.mutexes i).ownerId = (k.mutexes i).ownerId := by
  cases c with
  | none => exact absurd ho (by simp [nextAction])
  | hop a => exact absurd ho (by simp [nextAction])
  | user =>
      obtain rfl := Option.some.inj ho
      obtain ⟨rfl, hmut⟩ := locking_of_issue h
      exact ⟨Or.inr ⟨rfl, rfl⟩, fun i => congrArg (fun f => (f i).ownerId) hmut⟩
  | yield a =>
      -- a lock call never ends in a yield
      obtain rfl := Option.some.inj ho
      obtain rfl : a = .ret (.mutexLock m) 0 := h
      exact hok.elim
  | pend a =>
      obtain rfl := Option.some.inj ho
      exact ⟨Or.inl h, fun i => rfl⟩
  | resumed a =>
      obtain rfl := Option.some.inj ho
      cases a with
      | ret c' code => exact h.elim
      | sendAgain q item => exact absurd h (sendAttempt_not_locking q item)
      | recvAgain q => exact absurd h (recvAttempt_not_locking q)
  | mutexLock i =>
      obtain rfl := Option.some.inj ho
      obtain ⟨rfl, hown⟩ := locking_of_mutexLockAction h
      exact ⟨Or.inl rfl, hown⟩
  | semTake i =>
      obtain rfl := Option.some.inj ho
      simp only [semTakeAction] at h
      split at h
      · exact h.elim
      · simp [Cont.locking, Cont.awaits] at h
  | queueSend q item =>
      obtain rfl := Option.some.inj ho
      simp only [queueSendAction] at h
      split at h
      · exact h.elim
      · simp [Cont.locking, Cont.awaits] at h
  | queueRecv q =>
      obtain rfl := Option.some.inj ho
      simp only [queueRecvAction] at h
      split at h
      · exact h.elim
      · simp [Cont.locking, Cont.awaits] at h

/-- **How a task comes to own a mutex**: it owned it before, it takes it itself, or it was waiting for
it. -/
theorem MutexEffect.ownerId_cases (heff : MutexEffect sz t k call c o) (hr : sz.Representable)
    (hring : ∀ w, (k.ring w).WF sz.maxTasks) (h : (o.k.mutexes m).ownerId = some u) :
    (k.mutexes m).ownerId = some u ∨ u = t ∨ u ∈ k.waiters sz (.mutex m) := by
  cases heff with
  | same hmut =>
      rw [hmut] at h
      exact Or.inl h
  | take i hc hcall hmut he =>
      rw [hmut] at h
      by_cases him : m = i
      · subst him
        rw [Function.update_self, Mutex.ownerId_of_locked rfl rfl] at h
        exact Or.inr (Or.inl (Option.some.inj h).symm)
      · rw [Function.update_of_ne him] at h
        exact Or.inl h
  | park i hmut =>
      rw [hmut, ownerId_update_waitqPush] at h
      exact Or.inl h
  | pass i w hcall hpop hmut he =>
      rw [hmut] at h
      by_cases him : m = i
      · subst him
        rw [Function.update_self, Mutex.ownerId_of_locked rfl rfl] at h
        obtain rfl := Option.some.inj h
        obtain ⟨hhead, -⟩ := RingBuffer.pop_spec (hring (.mutex m)) hr.lt.le
        exact Or.inr (Or.inr (List.mem_of_head? (hhead.symm.trans hpop)))
      · rw [Function.update_of_ne him] at h
        exact Or.inl h
  | free i hmut =>
      rw [hmut] at h
      by_cases him : m = i
      · subst him
        rw [Function.update_self, Mutex.ownerId_of_free rfl] at h
        exact absurd h (by simp)
      · rw [Function.update_of_ne him] at h
        exact Or.inl h

end Actions

/-! ## The rule and its invariant -/

/-- **Locking upwards**: `hrt_mutex_lock` is called only for a mutex that ranks above every other one
the caller owns. (A second lock of a mutex the caller owns is refused and does not wait.) -/
def LocksUpward (rank : ℕ → ℕ) (s : Sys) : Interleave.Action → Prop
  | .task t (.mutexLock m) => s.conts t = .user →
      ∀ m', (s.k.mutexes m').ownerId = some t → m' = m ∨ rank m' < rank m
  | _ => True

/-- Whatever is not a step of a task is free to happen. -/
theorem LocksUpward.of_not_task {rank : ℕ → ℕ} {s : Sys} {b : Interleave.Action}
    (hb : ∀ t c, b ≠ .task t c) : LocksUpward rank s b := by
  cases b with
  | task t c => exact absurd rfl (hb t c)
  | _ => trivial

/-- **A task inside `hrt_mutex_lock` owns only mutexes below**, or the one its call is about: that one
has been passed to it, or the call is about to be refused. -/
def OrderInv (rank : ℕ → ℕ) (s : Sys) : Prop :=
  ∀ t m m', (s.conts t).locking m → (s.k.mutexes m').ownerId = some t → m' = m ∨ rank m' < rank m

section Invariant

variable {sz : Sizing} {port : Port} {rank : ℕ → ℕ} {s s' : Sys} {a : Interleave.Action}

/-- A step that leaves the mutexes, and at most gives a slot a fresh context. -/
theorem OrderInv.frame (h : OrderInv rank s) (hmut : s'.k.mutexes = s.k.mutexes) {id : Option ℕ}
    (hconts : s'.conts = s.spawned id) : OrderInv rank s' := by
  intro t m m' hl hown
  rw [hmut] at hown
  rw [hconts] at hl
  rcases s.spawned_cases id t with hs | ⟨-, hs⟩
  · rw [hs] at hl
    exact h t m m' hl hown
  · rw [hs] at hl
    exact hl.elim

/-- **An action of a task** keeps the invariant if it locks upwards. -/
theorem OrderInv.task (h : OrderInv rank s) (hr : sz.Representable) (hinv : PartInv sz s)
    (hlocks : LockInvs sz s) {t : ℕ} {c : Call} (hup : LocksUpward rank s (.task t c)) {o : Outcome}
    (ho : nextAction sz port t c (s.setCurrent t).k (s.conts t) = some o) :
    OrderInv rank ((s.setCurrent t).apply t o) := by
  intro u m m' hl hown
  -- a task that was waiting for `m'` is inside that call, so it is the one it is inside now
  have hwaiter : (s.conts u).locking m → u ∈ s.k.waiters sz (.mutex m') → m' = m := fun hin hmem =>
    ((hlocks.locks m').waiting u hmem).locking.unique hin
  by_cases hut : u = t
  · subst hut
    rw [Sys.apply_conts_self] at hl
    obtain ⟨hin, hkeep⟩ := locking_of_nextAction (hlocks.ok u) ho hl
    have hown' : (s.k.mutexes m').ownerId = some u := (hkeep m').symm.trans hown
    rcases hin with hin | ⟨hc, rfl⟩
    · exact h u m m' hin hown'
    · exact hup hc m' hown'
  · have hin : (s.conts u).locking m := by
      rw [Sys.apply_conts_of_ne _ hut] at hl
      rcases (s.setCurrent t).spawned_cases o.spawn u with hs | ⟨-, hs⟩
      · rw [hs] at hl
        exact hl
      · rw [hs] at hl
        exact hl.elim
    rcases (mutexEffect ho).ownerId_cases hr hinv.part.wf hown with hold | rfl | hmem
    · exact h u m m' hin hold
    · exact absurd rfl hut
    · exact Or.inl (hwaiter hin hmem)

/-- **Every step keeps the invariant** if it locks upwards. -/
theorem OrderInv.step (h : OrderInv rank s) (hr : sz.Representable) (hinv : PartInv sz s)
    (hlocks : LockInvs sz s) (hup : LocksUpward rank s a)
    (hstep : Interleave.step sz port s a = some s') : OrderInv rank s' := by
  rcases Interleave.step_cases hstep with
    ⟨t, c, o, rfl, -, ho, rfl⟩ | ⟨t, c, x, rfl, hx, rfl⟩ | ⟨op, rfl, rfl⟩ | ⟨hobj, -, id, hconts⟩
  · exact h.task hr hinv hlocks hup ho
  · -- the task is back from the scheduler, in the same call
    intro u m m' hl hown
    refine h u m m' ?_ hown
    by_cases hut : u = t
    · subst hut
      rw [Sys.land_conts_self] at hl
      rw [hx]
      exact hl
    · rw [Sys.land_conts_of_ne _ hut] at hl
      exact hl
  · have hconts : (s.isr sz op).conts = s.spawned none := rfl
    exact h.frame (isr_offMutex sz s.k op).1 hconts
  · exact h.frame hobj.mutexes hconts

end Invariant

/-! ## The result -/

/-- Who owns and who waits for which mutex. -/
def mutexGraph (sz : Sizing) (k : Kernel) : WaitGraph ℕ ℕ where
  waits t m := t ∈ k.waiters sz (.mutex m)
  owns t m := (k.mutexes m).locked = true ∧ (k.mutexes m).owner = t

section Results

variable {sz : Sizing} {port : Port} {cfg : Option KernelConfig} {objs : ObjectSpecs} {mem : Kernel}
  {rank : ℕ → ℕ} {s : Sys}

/-- The mutexes some task waits for are finitely many: a task waits for one at most. -/
theorem mutexGraph_finite (hinv : PartInv sz s) :
    {m | ∃ t, (mutexGraph sz s.k).waits t m}.Finite := by
  have hone : ∀ t, {m | t ∈ s.k.waiters sz (.mutex m)}.Finite := by
    intro t
    refine Set.Subsingleton.finite fun m hm m' hm' => ?_
    simpa using hinv.part.part.unique hm hm'
  refine ((Set.finite_Iio sz.maxTasks).biUnion fun t _ => hone t).subset ?_
  rintro m ⟨t, ht⟩
  exact Set.mem_biUnion (hinv.part.lt t (hinv.part.blocked_of_mem ht)) ht

/-- The invariants along a run that locks upwards. -/
theorem orderInv_of_run (hr : sz.Representable) {as : List Interleave.Action}
    (hrun : exec (Interleave.step sz port) (Sys.boot sz port cfg objs mem) as = some s)
    (hall : Along (Interleave.step sz port) (fun s a => WaitsParked s a ∧ LocksUpward rank s a)
      (Sys.boot sz port cfg objs mem) as) : PartInv sz s ∧ LockInvs sz s ∧ OrderInv rank s := by
  refine exec_invariant (I := fun s => PartInv sz s ∧ LockInvs sz s ∧ OrderInv rank s) ?_ ?_ hall hrun
  · rintro s a s' ⟨hinv, hlocks, hord⟩ ⟨hwait, hup⟩ hstep
    obtain ⟨_, -, hmove, hok⟩ := mutex_refines hr hinv hlocks hwait hstep
    exact ⟨hinv.step hr hstep, ⟨fun m => (hmove m).2, hok⟩, hord.step hr hinv hlocks hup hstep⟩
  · exact ⟨PartInv.boot sz port cfg objs mem, LockInvs.boot, fun t m m' hl _ => hl.elim⟩

/-- The mutexes of a run that locks upwards are ordered. -/
theorem mutexGraph_ordered (hr : sz.Representable) {as : List Interleave.Action}
    (hrun : exec (Interleave.step sz port) (Sys.boot sz port cfg objs mem) as = some s)
    (hall : Along (Interleave.step sz port) (fun s a => WaitsParked s a ∧ LocksUpward rank s a)
      (Sys.boot sz port cfg objs mem) as) : (mutexGraph sz s.k).Ordered rank := by
  obtain ⟨hinv, hlocks, hord⟩ := orderInv_of_run hr hrun hall
  have hprot := mutex_lockProtocol hr hrun (hall.mono fun s a h => h.1)
  refine ⟨mutexGraph_finite hinv, fun t m ht => ?_, fun t m m' ht hown => ?_⟩
  · cases hown : (s.k.mutexes m).ownerId with
    | none =>
        -- nobody waits for a free mutex
        have hnil : s.k.waiters sz (.mutex m) = [] := ((hprot m).free hown).2
        exact absurd (hnil ▸ ht : t ∈ []) List.not_mem_nil
    | some u => exact ⟨u, (hlocks.locks m).wf.owner_eq hown⟩
  · have hown' := Mutex.ownerId_of_locked hown.1 hown.2
    refine (hord t m m' ((hlocks.locks m).waiting t ht).locking hown').resolve_left ?_
    rintro rfl
    exact (hprot m').owner_not_waiting t hown' ht

/-- **No deadlock among the mutexes**: no task waits for itself through others, and the chain of owners
that starts at a waiting task ends in a task that lives and waits for no mutex. -/
structure NoDeadlock (sz : Sizing) (k : Kernel) : Prop where
  acyclic : ∀ t, ¬ Relation.TransGen (mutexGraph sz k).Next t t
  chain_ends : ∀ t m, t ∈ k.waiters sz (.mutex m) →
    ∃ u, Relation.TransGen (mutexGraph sz k).Next t u ∧ k.stateOf u ≠ .unused ∧
      ∀ i, u ∉ k.waiters sz (.mutex i)

/-- Ordered waiting among owners that live does not deadlock. -/
theorem NoDeadlock.of_ordered (hord : (mutexGraph sz s.k).Ordered rank) {g : List (ℕ × ℕ)}
    (hacq : OwnersAcquired s g) : NoDeadlock sz s.k := by
  refine ⟨hord.acyclic, fun t m ht => ?_⟩
  obtain ⟨u, hchain, ⟨m', hl, ho⟩, hnot⟩ := hord.chain_ends (t := t) (m := m) ht
  refine ⟨u, hchain, ?_, hnot⟩
  obtain ⟨v, hv, hlive, -⟩ := hacq m' hl
  obtain rfl : u = v := Int.ofNat.inj (ho.symm.trans hv)
  exact hlive

/-- **No deadlock along a run** in which parked tasks wait, deleted tasks are gone, nobody exits with a
mutex and locks are taken upwards. -/
theorem NoDeadlock.of_run (hr : sz.Representable) {as : List Interleave.Action}
    (hrun : exec (Interleave.step sz port) (Sys.boot sz port cfg objs mem) as = some s)
    (hall : Along (Interleave.step sz port)
      (fun s a => WaitsParked s a ∧ LivesOn s a ∧ DeletesUnowned s a ∧ LocksUpward rank s a)
      (Sys.boot sz port cfg objs mem) as) : NoDeadlock sz s.k := by
  have hord := mutexGraph_ordered hr hrun (hall.mono fun _ _ h => ⟨h.1, h.2.2.2⟩)
  exact .of_ordered hord (ownersAcquired_of_run hr hrun (hall.mono fun _ _ h => ⟨h.2.1, h.2.2.1⟩))

/-- **Locking in order does not deadlock.** In every interleaving of tasks, interrupts, ticks and
scheduler moves in which parked tasks wait, deleted tasks are gone, nobody exits with a mutex and
`hrt_mutex_lock` is called upwards only, the tasks that wait for mutexes form no cycle, and each of them
waits, through others, for a live task that is not waiting for a mutex. -/
theorem ordered_locking (hr : sz.Representable) (rank : ℕ → ℕ) {as : List Interleave.Action}
    (hrun : exec (Interleave.step sz port) (Sys.boot sz port cfg objs mem) as = some s)
    (hall : Along (Interleave.step sz port)
      (fun s a => WaitsParked s a ∧ LivesOn s a ∧ DeletesUnowned s a ∧ LocksUpward rank s a)
      (Sys.boot sz port cfg objs mem) as) : NoDeadlock sz s.k :=
  .of_run hr hrun hall

/-! ## Checking the rule on a run -/

/-- A lock call is above everything its caller is recorded to have acquired. -/
def acquiredBelow (rank : ℕ → ℕ) (g : List (ℕ × ℕ)) : Interleave.Action → Bool
  | .task t (.mutexLock m) => g.all fun x => x.2 != t || x.1 == m || decide (rank x.1 < rank m)
  | _ => true

/-- The owners are recorded, so such a call is upwards. -/
theorem OwnersAcquired.locksUpward {g : List (ℕ × ℕ)} (h : OwnersAcquired s g) {a : Interleave.Action}
    (ha : acquiredBelow rank g a = true) : LocksUpward rank s a := by
  cases a with
  | task t c =>
      cases c with
      | mutexLock m =>
          intro _ m' hown
          have hl : (s.k.mutexes m').locked = true := by
            by_contra hf
            rw [Mutex.ownerId_of_free (Bool.eq_false_of_not_eq_true hf)] at hown
            exact absurd hown (by simp)
          obtain ⟨u, hu, -, hmem⟩ := h m' hl
          rw [Mutex.ownerId_of_locked hl hu] at hown
          obtain rfl := Option.some.inj hown
          simpa using List.all_eq_true.mp ha _ hmem
      | _ => trivial
  | _ => trivial

/-- **A run locks upwards** if each lock call of it is above what its caller has acquired until then. -/
theorem along_locksUpward (hr : sz.Representable) {as : List Interleave.Action}
    (hclean : Along (Interleave.step sz port) (fun s a => LivesOn s a ∧ DeletesUnowned s a)
      (Sys.boot sz port cfg objs mem) as)
    (hbelow : ∀ n < as.length, as[n]?.all (acquiredBelow rank (track (Interleave.step sz port)
      (acquisitions (Interleave.step sz port)) (Sys.boot sz port cfg objs mem) [] (as.take n))) = true) :
    Along (Interleave.step sz port) (LocksUpward rank) (Sys.boot sz port cfg objs mem) as := by
  refine along_of_take fun n x a hx ha => ?_
  have hn : n < as.length := (List.getElem?_eq_some_iff.mp ha).1
  have hpre : Along (Interleave.step sz port) (fun s a => LivesOn s a ∧ DeletesUnowned s a)
      (Sys.boot sz port cfg objs mem) (as.take n) := by
    rw [← List.take_append_drop n as] at hclean
    exact ((along_append hx).mp hclean).1
  have hchk := hbelow n hn
  rw [ha] at hchk
  exact (ownersAcquired_of_run hr hx hpre).locksUpward hchk

/-- Three tasks are created. The first one locks mutex 1; the second one locks mutex 0 and waits for
mutex 1; the third one waits for mutex 0. -/
def nestedLocks : List Interleave.Action :=
  [.main (.createTask ⟨1, 0, 0x1000, 64, none⟩), .main (.createTask ⟨1, 0, 0x2000, 64, none⟩),
    .main (.createTask ⟨1, 0, 0x3000, 64, none⟩), .task 0 (.mutexLock 1), .task 1 (.mutexLock 0),
    .task 1 (.mutexLock 1), .task 1 .yield, .task 1 .yield, .task 2 (.mutexLock 0), .task 2 .yield,
    .task 2 .yield]

/-- The third task waits for the second one, which waits for the first one. -/
theorem ordered_locking_nested :
    ∃ s, exec (Interleave.step .default .posix) (Sys.boot .default .posix none .basic .bss)
        nestedLocks = some s ∧
      s.k.waiters .default (.mutex 0) = [2] ∧ s.k.waiters .default (.mutex 1) = [1] ∧
      NoDeadlock .default s.k := by
  have hr : Sizing.default.Representable := by decide
  have hdel : Along (Interleave.step .default .posix) DeletesUnowned
      (Sys.boot .default .posix none .basic .bss) nestedLocks :=
    Along.of_forall (by simp [nestedLocks, DeletesUnowned]) _
  have hlive : Along (Interleave.step .default .posix) LivesOn
      (Sys.boot .default .posix none .basic .bss) nestedLocks := by decide +kernel
  have hwait : Along (Interleave.step .default .posix) WaitsParked
      (Sys.boot .default .posix none .basic .bss) nestedLocks := by decide +kernel
  have hup : Along (Interleave.step .default .posix) (LocksUpward id)
      (Sys.boot .default .posix none .basic .bss) nestedLocks :=
    along_locksUpward hr (hlive.and hdel) (by decide +kernel)
  have heval : ((exec (Interleave.step .default .posix) (Sys.boot .default .posix none .basic .bss)
      nestedLocks).map fun s => (s.k.waiters .default (.mutex 0), s.k.waiters .default (.mutex 1))) =
        some ([2], [1]) := by
    decide +kernel
  obtain ⟨s, hs, hv⟩ := Option.map_eq_some_iff.mp heval
  obtain ⟨h0, h1⟩ := Prod.mk.inj hv
  exact ⟨s, hs, h0, h1, ordered_locking hr id hs (hwait.and (hlive.and (hdel.and hup)))⟩

/-! ## On the ports -/

/-- **On Cortex-M**, along clean steps in which the current task locks upwards and does not exit with a
mutex. -/
theorem CortexM.ordered_locking_on_port (hr : sz.Representable) (rank : ℕ → ℕ) {idleStack : ℕ}
    {as : List CortexM.Action}
    (hrun : exec (CortexM.step sz idleStack) (CortexM.boot sz idleStack cfg objs mem) as = some s)
    (hclean : Along (CortexM.step sz idleStack) (CortexM.ReadyClean sz)
      (CortexM.boot sz idleStack cfg objs mem) as)
    (hup : Along (CortexM.step sz idleStack)
      (fun s a => ∀ t c, a = .task c → s.k.current = some t →
        DeletesUnowned s (.task t c) ∧ LocksUpward rank s (.task t c))
      (CortexM.boot sz idleStack cfg objs mem) as) : NoDeadlock sz s.k := by
  obtain ⟨bs, hbs, hall⟩ := CortexM.refines_interleave_of_clean hr
    (P := fun s a => DeletesUnowned s a ∧ LocksUpward rank s a)
    (fun s b hb => ⟨.of_not_task hb, .of_not_task hb⟩) hrun hclean hup
  exact .of_run hr hbs hall

/-- **On POSIX**, along clean steps in which the running task locks upwards and does not exit with a
mutex. -/
theorem Posix.ordered_locking_on_port (hr : sz.Representable) (rank : ℕ → ℕ) {x : Posix.State}
    {as : List Posix.Action}
    (hrun : exec (Posix.step sz) (Posix.boot sz cfg objs mem) as = some x)
    (hclean : Along (Posix.step sz) (Posix.ReadyClean sz) (Posix.boot sz cfg objs mem) as)
    (hup : Along (Posix.step sz)
      (fun s a => ∀ t c, a = .task c → s.sys.k.current = some t →
        DeletesUnowned s.sys (.task t c) ∧ LocksUpward rank s.sys (.task t c))
      (Posix.boot sz cfg objs mem) as) : NoDeadlock sz x.sys.k := by
  obtain ⟨bs, hbs, hall⟩ := Posix.refines_interleave_of_clean hr
    (P := fun s a => DeletesUnowned s a ∧ LocksUpward rank s a)
    (fun s b hb => ⟨.of_not_task hb, .of_not_task hb⟩) hrun hclean hup
  exact .of_run hr hbs hall

end Results

end HardRT
