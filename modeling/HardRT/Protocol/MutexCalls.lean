import HardRT.Protocol.MutexLock

/-! # Mutex calls: exclusion, order and refusals

What tasks see of a mutex, over every interleaving of its three operations.

* `issue_ofCall` — what the first action of a call reports is about that call.
* `UnlockInv` — an unlock that returns 0 has had its critical section.
* `mutex_trace` — the log of a mutex is a trace of a handoff lock.
* `mutex_protocol` — exclusion, FIFO handoff and the frame of the error paths, over every run.
* `mutexUnlock_returns_late` — the one thing that does happen while another task holds the mutex: the
  call of the task that passed it on returns. -/

namespace HardRT

open Lib

/-! ## Outcomes of a call -/

/-- What a task inside a call does after the switch. -/
def Cont.after : Cont → Option After
  | .yield a | .pend a | .hop a | .resumed a => some a
  | _ => Option.none

/-- **An outcome of the call `c` of task `t`**: a return that it reports, at once or after the switch, is
that of `c`, and no other call begins. -/
structure Outcome.OfCall (t : ℕ) (c : Call) (o : Outcome) : Prop where
  rets : ∀ u c' code, .ret u c' code ∈ o.evs → u = t ∧ c' = c
  after : ∀ c' code, o.cont.after = some (.ret c' code) → c' = c
  calls : ∀ u d, .call u d ∉ o.evs

section OfCall

variable {sz : Sizing} {port : Port} {t : ℕ} {k : Kernel}

/-- An outcome that returns the code of `c` to `t` after events that are neither calls nor returns. -/
theorem Outcome.OfCall.returned {c : Call} {o : Outcome} (es : List Event) {code : ℤ}
    (hevs : o.evs = es ++ [.ret t c code]) (hcont : o.cont.after = none)
    (hes : ∀ u c' code', .ret u c' code' ∉ es) (hcalls : ∀ u d, .call u d ∉ es) :
    o.OfCall t c where
  rets u c' code' h := by
    rw [hevs, List.mem_append] at h
    rcases h with h | h
    · exact absurd h (hes u c' code')
    · obtain ⟨rfl, rfl, -⟩ : u = t ∧ c' = c ∧ code' = code := by simpa using h
      exact ⟨rfl, rfl⟩
  after c' code' h := absurd (hcont.symm.trans h) (by simp)
  calls u d h := by
    rw [hevs, List.mem_append] at h
    exact h.elim (hcalls u d) (by simp)

/-- An outcome that returns nothing yet, and goes on with `c` after the switch if with any return. -/
theorem Outcome.OfCall.goesOn {c : Call} {o : Outcome}
    (hes : ∀ u c' code', .ret u c' code' ∉ o.evs) (hcalls : ∀ u d, .call u d ∉ o.evs)
    (hafter : ∀ c' code, o.cont.after = some (.ret c' code) → c' = c) : o.OfCall t c where
  rets u c' code h := absurd h (hes u c' code)
  after := hafter
  calls := hcalls

theorem sendAttempt_ofCall (q : ℕ) (item : List UInt8) :
    (sendAttempt sz t q item k).OfCall t (.queueSend q item) := by
  unfold sendAttempt
  simp only
  split
  · split
    · exact .goesOn (by simp) (by simp) (by simp [Cont.after])
    · exact .returned [.put q (some t) _] rfl rfl (by simp) (by simp)
  · exact .goesOn (by simp) (by simp) (by simp [Cont.after])

theorem recvAttempt_ofCall (q : ℕ) : (recvAttempt sz t q k).OfCall t (.queueRecv q) := by
  unfold recvAttempt
  simp only
  split
  · split
    · exact .goesOn (by simp) (by simp) (by simp [Cont.after])
    · exact .returned [.got q (some t) _] rfl rfl (by simp) (by simp)
  · exact .goesOn (by simp) (by simp) (by simp [Cont.after])

/-- The events of a give are neither calls nor returns. -/
theorem giveEvents_silent (i : ℕ) (w : Option ℕ) (S : Sem) :
    (∀ u c code, .ret u c code ∉ giveEvents i w S) ∧ ∀ u d, .call u d ∉ giveEvents i w S := by
  cases w with
  | some w => exact ⟨by simp [giveEvents], by simp [giveEvents]⟩
  | none =>
      simp only [giveEvents]
      split <;> exact ⟨by simp, by simp⟩

/-- **The first action of a call** has an outcome of that call. -/
theorem issue_ofCall (sz : Sizing) (port : Port) (t : ℕ) (k : Kernel) (call : Call) :
    (issue sz port t k call).OfCall t call := by
  cases call with
  | createTask a => exact .returned [] rfl rfl (by simp) (by simp)
  | yield => exact .goesOn (by simp [issue]) (by simp [issue]) (by simp [issue, Cont.after])
  | sleep ms => exact .goesOn (by simp [issue]) (by simp [issue]) (by simp [issue, Cont.after])
  | taskDelete =>
      simp only [issue]
      split
      · exact .returned [] rfl rfl (by simp) (by simp)
      · exact .goesOn (by simp) (by simp) (by simp [Cont.after])
  | setPolicy p => exact .returned [] rfl rfl (by simp) (by simp)
  | setDefaultTimeslice n => exact .returned [] rfl rfl (by simp) (by simp)
  | semTryTake i =>
      simp only [issue]
      split
      · exact .returned [.semTaken i t] rfl rfl (by simp) (by simp)
      · exact .returned [] rfl rfl (by simp) (by simp)
  | semTake i =>
      simp only [issue]
      split
      · exact .returned [.semTaken i t] rfl rfl (by simp) (by simp)
      · exact .goesOn (by simp) (by simp) (by simp [Cont.after])
  | semGive i =>
      simp only [issue]
      split
      · obtain ⟨hrets, hcalls⟩ := giveEvents_silent i (some _) (k.sems i)
        exact .goesOn hrets hcalls (by simp [Cont.after])
      · exact .returned _ rfl rfl (giveEvents_silent i _ _).1 (giveEvents_silent i _ _).2
  | mutexTryLock i =>
      simp only [issue]
      split
      · exact .returned [.mutexAcquired i t] rfl rfl (by simp) (by simp)
      · exact .returned [] rfl rfl (by simp) (by simp)
  | mutexLock i =>
      simp only [issue]
      split
      · exact .returned [] rfl rfl (by simp) (by simp)
      · split
        · exact .returned [.mutexAcquired i t] rfl rfl (by simp) (by simp)
        · exact .goesOn (by simp) (by simp) (by simp [Cont.after])
  | mutexUnlock i =>
      simp only [issue]
      split
      · exact .returned [] rfl rfl (by simp) (by simp)
      · exact .goesOn (by simp) (by simp) (by simp [Cont.after])
      · exact .returned [.mutexUnlocked i t] rfl rfl (by simp) (by simp)
  | queueTrySend q item =>
      simp only [issue]
      split
      · split
        · exact .goesOn (by simp) (by simp) (by simp [Cont.after])
        · exact .returned [.put q (some t) _] rfl rfl (by simp) (by simp)
      · exact .returned [] rfl rfl (by simp) (by simp)
  | queueSend q item => exact sendAttempt_ofCall q item
  | queueTryRecv q =>
      simp only [issue]
      split
      · split
        · exact .goesOn (by simp) (by simp) (by simp [Cont.after])
        · exact .returned [.got q (some t) _] rfl rfl (by simp) (by simp)
      · exact .returned [] rfl rfl (by simp) (by simp)
  | queueRecv q => exact recvAttempt_ofCall q

theorem semTakeAction_ofCall (i : ℕ) : (semTakeAction sz t i k).OfCall t (.semTake i) := by
  simp only [semTakeAction]
  split
  · exact .returned [.semTaken i t] rfl rfl (by simp) (by simp)
  · exact .goesOn (by simp) (by simp) (by simp [Cont.after])

theorem mutexLockAction_ofCall (i : ℕ) : (mutexLockAction sz t i k).OfCall t (.mutexLock i) := by
  simp only [mutexLockAction]
  split
  · exact .returned [.mutexAcquired i t] rfl rfl (by simp) (by simp)
  · exact .returned [] rfl rfl (by simp) (by simp)
  · exact .goesOn (by simp) (by simp) (by simp [Cont.after])

/-- Waking a receiver or a sender is neither a call nor a return. -/
theorem call_notMem_wokenEvent (q u : ℕ) (w : Option ℕ) (d : Call) :
    .call u d ∉ rxWokenEvent q w ∧ .call u d ∉ txWokenEvent q w := by
  cases w <;> exact ⟨by simp [rxWokenEvent], by simp [txWokenEvent]⟩

theorem queueSendAction_ofCall (q : ℕ) (item : List UInt8) :
    (queueSendAction sz t q item k).OfCall t (.queueSend q item) := by
  simp only [queueSendAction]
  split
  · exact .returned (.put q (some t) _ :: rxWokenEvent q _) rfl rfl (by simp)
      (by simp [call_notMem_wokenEvent])
  · exact .goesOn (by simp) (by simp) (by simp [Cont.after])

theorem queueRecvAction_ofCall (q : ℕ) : (queueRecvAction sz t q k).OfCall t (.queueRecv q) := by
  simp only [queueRecvAction]
  split
  · exact .returned (.got q (some t) _ :: txWokenEvent q _) rfl rfl (by simp)
      (by simp [call_notMem_wokenEvent])
  · exact .goesOn (by simp) (by simp) (by simp [Cont.after])

/-- ISR operations report neither calls nor returns. -/
theorem isr_silent (sz : Sizing) (k : Kernel) (op : Isr) :
    (∀ u c code, .ret u c code ∉ (isrAction sz k op).2.2) ∧
      ∀ u d, .call u d ∉ (isrAction sz k op).2.2 := by
  cases op with
  | semGive i => exact giveEvents_silent i _ _
  | queueTrySend q item =>
      simp only [isrAction]
      split <;> simp [call_notMem_wokenEvent]
  | queueTryRecv q =>
      simp only [isrAction]
      split <;> simp [call_notMem_wokenEvent]

/-- **The calls that an action reports** are the acting task's. -/
theorem call_mem {c : Cont} {call : Call} {o : Outcome} (ho : nextAction sz port t call k c = some o)
    {u : ℕ} {d : Call} (h : .call u d ∈ o.evs) : u = t := by
  cases c with
  | none => exact absurd ho (by simp [nextAction])
  | hop a => exact absurd ho (by simp [nextAction])
  | user =>
      obtain rfl := Option.some.inj ho
      rcases List.mem_cons.mp h with heq | h
      · exact (Event.call.inj heq).1
      · exact absurd h ((issue_ofCall sz port t k call).calls u d)
  | yield a => exact absurd (Option.some.inj ho ▸ h) List.not_mem_nil
  | pend a => exact absurd (Option.some.inj ho ▸ h) List.not_mem_nil
  | resumed a =>
      obtain rfl := Option.some.inj ho
      cases a with
      | ret c' code => exact absurd h (by simp [resume])
      | sendAgain q item => exact absurd h ((sendAttempt_ofCall q item).calls u d)
      | recvAgain q => exact absurd h ((recvAttempt_ofCall q).calls u d)
  | semTake i => exact absurd (Option.some.inj ho ▸ h) ((semTakeAction_ofCall i).calls u d)
  | mutexLock i => exact absurd (Option.some.inj ho ▸ h) ((mutexLockAction_ofCall i).calls u d)
  | queueSend q item =>
      exact absurd (Option.some.inj ho ▸ h) ((queueSendAction_ofCall q item).calls u d)
  | queueRecv q => exact absurd (Option.some.inj ho ▸ h) ((queueRecvAction_ofCall q).calls u d)

end OfCall

/-! ## Refused calls -/

/-- The event is the return of -1 from a call on mutex `m`. -/
def Event.refusal (m : ℕ) (e : Event) : Prop :=
  ∃ t, e = .ret t (.mutexLock m) (-1) ∨ e = .ret t (.mutexTryLock m) (-1) ∨
    e = .ret t (.mutexUnlock m) (-1)

section Refused

variable {sz : Sizing} {port : Port} {m t : ℕ} {k : Kernel} {call : Call} {c : Cont} {o : Outcome}

/-- The mutexes, the task table and the ready queues are the same. -/
def SameBooks (k k' : Kernel) : Prop :=
  k'.mutexes = k.mutexes ∧ k'.tcbs = k.tcbs ∧ k'.rq = k.rq

/-- A refused `hrt_mutex_try_lock` changes nothing. -/
theorem hrtMutexTryLock_refused {i : ℕ} (h : (hrtMutexTryLock sz i t k).1 ≠ 0) :
    SameBooks k (hrtMutexTryLock sz i t k).2 := by
  unfold hrtMutexTryLock at h ⊢
  split_ifs at h ⊢
  · exact ⟨rfl, rfl, rfl⟩
  · exact absurd rfl h
  · exact ⟨rfl, rfl, rfl⟩
  · exact ⟨rfl, rfl, rfl⟩

/-- A refused `hrt_mutex_unlock` changes nothing. -/
theorem hrtMutexUnlockCs_refused {i : ℕ} (h : (hrtMutexUnlockCs sz i t k).1 = .refused) :
    SameBooks k (hrtMutexUnlockCs sz i t k).2 := by
  unfold hrtMutexUnlockCs at h ⊢
  split_ifs at h ⊢
  · exact ⟨rfl, rfl, rfl⟩
  · exact ⟨rfl, rfl, rfl⟩
  · split at h
    · exact absurd h (by simp)
    · exact absurd h (by simp)

/-- The first action of a call that reports -1 from a mutex changes nothing. -/
theorem issue_refusal_frame (port : Port) (call : Call) {e : Event}
    (he : e ∈ (issue sz port t k call).evs) (hm : e.refusal m) :
    SameBooks k (issue sz port t k call).k := by
  obtain ⟨u, rfl | rfl | rfl⟩ := hm
  · obtain ⟨-, rfl⟩ := (issue_ofCall sz port t k call).rets _ _ _ he
    simp only [issue] at he ⊢
    split_ifs at he ⊢ with hctx h0
    · exact ⟨rfl, rfl, rfl⟩
    · exact absurd he (by simp)
    · exact hrtMutexTryLock_refused h0
  · obtain ⟨-, rfl⟩ := (issue_ofCall sz port t k call).rets _ _ _ he
    simp only [issue] at he ⊢
    split_ifs at he ⊢ with h0
    · exact absurd he (by simp)
    · exact hrtMutexTryLock_refused h0
  · obtain ⟨-, rfl⟩ := (issue_ofCall sz port t k call).rets _ _ _ he
    cases hout : (hrtMutexUnlockCs sz m t k).1 with
    | refused =>
        simp only [issue, hout]
        exact hrtMutexUnlockCs_refused hout
    | handoff w =>
        simp only [issue, hout] at he
        exact absurd he (by simp)
    | released =>
        simp only [issue, hout] at he
        exact absurd he (by simp)

/-- **An action that reports -1 from a call on a mutex changes nothing.** -/
theorem refusal_frame (ho : nextAction sz port t call k c = some o) {e : Event} (he : e ∈ o.evs)
    (hm : e.refusal m) : SameBooks k o.k := by
  cases c with
  | none => exact absurd ho (by simp [nextAction])
  | hop a => exact absurd ho (by simp [nextAction])
  | user =>
      obtain rfl := Option.some.inj ho
      rcases List.mem_cons.mp he with rfl | he'
      · obtain ⟨u, hm | hm | hm⟩ := hm <;> exact absurd hm (by simp)
      · exact issue_refusal_frame port call he' hm
  | yield a => exact absurd (Option.some.inj ho ▸ he) List.not_mem_nil
  | pend a => exact absurd (Option.some.inj ho ▸ he) List.not_mem_nil
  | resumed a =>
      obtain rfl := Option.some.inj ho
      cases a with
      | ret c' code => exact ⟨rfl, rfl, rfl⟩
      | sendAgain q item => exact issue_refusal_frame port (.queueSend q item) he hm
      | recvAgain q => exact issue_refusal_frame port (.queueRecv q) he hm
  | semTake i =>
      obtain rfl := Option.some.inj ho
      obtain ⟨u, rfl | rfl | rfl⟩ := hm <;> simp only [semTakeAction] at he <;> split at he <;>
        exact absurd he (by simp)
  | mutexLock i =>
      obtain rfl := Option.some.inj ho
      simp only [mutexLockAction, hrtMutexLockCs] at he ⊢
      split_ifs at he ⊢
      · obtain ⟨u, rfl | rfl | rfl⟩ := hm <;> exact absurd he (by simp)
      · exact ⟨rfl, rfl, rfl⟩
      · obtain ⟨u, rfl | rfl | rfl⟩ := hm <;> exact absurd he (by simp)
  | queueSend q item =>
      obtain rfl := Option.some.inj ho
      obtain ⟨u, rfl | rfl | rfl⟩ := hm <;> simp only [queueSendAction] at he <;> split at he <;>
        exact absurd he (by simp)
  | queueRecv q =>
      obtain rfl := Option.some.inj ho
      obtain ⟨u, rfl | rfl | rfl⟩ := hm <;> simp only [queueRecvAction] at he <;> split at he <;>
        exact absurd he (by simp)

/-- **The action before the second critical section of a lock** is a failed attempt to lock. -/
theorem failedTry_eq (ho : nextAction sz port t call k c = some o) (hc : o.cont = .mutexLock m) :
    c = .user ∧ call = .mutexLock m ∧ (hrtMutexTryLock sz m t k).1 ≠ 0 ∧
      o.k = (hrtMutexTryLock sz m t k).2 := by
  have hissue : ∀ call, (issue sz port t k call).cont = .mutexLock m →
      call = .mutexLock m ∧ (hrtMutexTryLock sz m t k).1 ≠ 0 ∧
        (issue sz port t k call).k = (hrtMutexTryLock sz m t k).2 := by
    intro call hc
    cases call with
    | mutexLock i =>
        simp only [issue] at hc ⊢
        split_ifs at hc ⊢ with hctx h0
        obtain rfl : i = m := by simpa using hc
        exact ⟨rfl, h0, rfl⟩
    | _ =>
        simp only [issue, sendAttempt, recvAttempt] at hc
        repeat' split at hc
        all_goals simp at hc
  cases c with
  | none => exact absurd ho (by simp [nextAction])
  | hop a => exact absurd ho (by simp [nextAction])
  | user =>
      obtain rfl := Option.some.inj ho
      exact ⟨rfl, hissue call hc⟩
  | yield a => exact absurd (Option.some.inj ho ▸ hc) (by simp)
  | pend a => exact absurd (Option.some.inj ho ▸ hc) (by simp)
  | resumed a =>
      obtain rfl := Option.some.inj ho
      cases a with
      | ret c' code => exact absurd hc (by simp [resume])
      | sendAgain q item => exact absurd (hissue (.queueSend q item) hc).1 (by simp)
      | recvAgain q => exact absurd (hissue (.queueRecv q) hc).1 (by simp)
  | semTake i =>
      obtain rfl := Option.some.inj ho
      simp only [semTakeAction] at hc
      split at hc <;> exact absurd hc (by simp)
  | mutexLock i =>
      obtain rfl := Option.some.inj ho
      simp only [mutexLockAction] at hc
      split at hc <;> exact absurd hc (by simp)
  | queueSend q item =>
      obtain rfl := Option.some.inj ho
      simp only [queueSendAction] at hc
      split at hc <;> exact absurd hc (by simp)
  | queueRecv q =>
      obtain rfl := Option.some.inj ho
      simp only [queueRecvAction] at hc
      split at hc <;> exact absurd hc (by simp)

/-- **The failed attempt before a task parks changes nothing**: the action after which
`hrt_mutex_lock` has its second critical section to run. -/
theorem failedTry_frame (ho : nextAction sz port t call k c = some o) (hc : o.cont = .mutexLock m) :
    SameBooks k o.k := by
  obtain ⟨-, -, h0, hk⟩ := failedTry_eq ho hc
  rw [hk]
  exact hrtMutexTryLock_refused h0

end Refused

/-! ## Unlock calls -/

/-- **The call in progress of task `u` has unlocked mutex `m`**: its critical section is in the log, and
`u` has entered no call since. -/
def UnlockedIn (m u : ℕ) (l : List Event) : Prop :=
  ∃ x y, l = x ++ .mutexUnlocked m u :: y ∧ ∀ d, .call u d ∉ y

/-- An unlock that returns 0 has had its critical section. -/
def UnlockReturnsOk (l : List Event) (e : Event) : Prop :=
  ∀ m u, e = .ret u (.mutexUnlock m) 0 → UnlockedIn m u l

/-- **The unlock invariant**: a task that will return 0 from an unlock after the switch has unlocked, and
so had every unlock that returned 0. -/
structure UnlockInv (s : Sys) : Prop where
  inside : ∀ m u, (s.conts u).after = some (.ret (.mutexUnlock m) 0) → UnlockedIn m u s.log
  returns : Always UnlockReturnsOk s.log

section Unlock

variable {sz : Sizing} {port : Port} {m t : ℕ} {k : Kernel} {call : Call} {c : Cont} {o : Outcome}
  {s s' : Sys}

theorem UnlockedIn.append {l es : List Event} (h : UnlockedIn m t l)
    (hes : ∀ d, .call t d ∉ es) : UnlockedIn m t (l ++ es) := by
  obtain ⟨x, y, rfl, hy⟩ := h
  refine ⟨x, y ++ es, by simp, fun d hd => ?_⟩
  exact (List.mem_append.mp hd).elim (hy d) (hes d)

/-- An outcome of another call reports no unlock. -/
theorem Outcome.OfCall.not_unlock (h : o.OfCall t call) (hne : ∀ i, call ≠ .mutexUnlock i)
    (l : List Event) : AlwaysFrom UnlockReturnsOk l o.evs ∧
      ∀ m, o.cont.after ≠ some (.ret (.mutexUnlock m) 0) := by
  refine ⟨alwaysFrom_of_forall (fun e he l i u hu => ?_) l, fun m hm => ?_⟩
  · rw [hu] at he
    exact absurd (h.rets _ _ _ he).2.symm (hne i)
  · exact absurd (h.after _ _ hm).symm (hne m)

/-- **The unlock itself**: it is refused, or its critical section comes before its return. -/
theorem issue_unlock (i : ℕ) (l : List Event) :
    AlwaysFrom UnlockReturnsOk l (issue sz port t k (.mutexUnlock i)).evs ∧
      ∀ m, (issue sz port t k (.mutexUnlock i)).cont.after = some (.ret (.mutexUnlock m) 0) →
        UnlockedIn m t (l ++ (issue sz port t k (.mutexUnlock i)).evs) := by
  simp only [issue]
  split
  · exact ⟨⟨by simp [UnlockReturnsOk], trivial⟩, by simp [Cont.after]⟩
  · refine ⟨⟨by simp [UnlockReturnsOk], by simp [UnlockReturnsOk], trivial⟩, fun m hm => ?_⟩
    obtain rfl : i = m := by simpa [Cont.after] using hm
    exact ⟨l, [.mutexHandoff i _], rfl, by simp⟩
  · refine ⟨⟨by simp [UnlockReturnsOk], ?_, trivial⟩, by simp [Cont.after]⟩
    intro m u hu
    obtain ⟨rfl, rfl⟩ : t = u ∧ i = m := by simpa using hu
    exact ⟨l, [], rfl, by simp⟩

/-- **What an action does to the record of unlocks.** -/
theorem unlock_action (ho : nextAction sz port t call k c = some o) {l : List Event}
    (hin : ∀ m, c.after = some (.ret (.mutexUnlock m) 0) → UnlockedIn m t l) :
    AlwaysFrom UnlockReturnsOk l o.evs ∧
      ∀ m, o.cont.after = some (.ret (.mutexUnlock m) 0) → UnlockedIn m t (l ++ o.evs) := by
  -- an outcome of a call that is no unlock
  have hother : ∀ {call : Call}, o.OfCall t call → (∀ i, call ≠ .mutexUnlock i) →
      AlwaysFrom UnlockReturnsOk l o.evs ∧
        ∀ m, o.cont.after = some (.ret (.mutexUnlock m) 0) → UnlockedIn m t (l ++ o.evs) :=
    fun hof hne => ⟨(hof.not_unlock hne l).1, fun m hm => absurd hm ((hof.not_unlock hne l).2 m)⟩
  cases c with
  | none => exact absurd ho (by simp [nextAction])
  | hop a => exact absurd ho (by simp [nextAction])
  | user =>
      obtain rfl := Option.some.inj ho
      have hcall : AlwaysFrom UnlockReturnsOk l [.call t call] := ⟨by simp [UnlockReturnsOk], trivial⟩
      have hbody : AlwaysFrom UnlockReturnsOk (l ++ [.call t call]) (issue sz port t k call).evs ∧
          ∀ m, (issue sz port t k call).cont.after = some (.ret (.mutexUnlock m) 0) →
            UnlockedIn m t (l ++ [.call t call] ++ (issue sz port t k call).evs) := by
        by_cases hun : ∃ i, call = .mutexUnlock i
        · obtain ⟨i, rfl⟩ := hun
          exact issue_unlock i _
        · have hoff := (issue_ofCall sz port t k call).not_unlock (fun i hi => hun ⟨i, hi⟩)
            (l ++ [.call t call])
          exact ⟨hoff.1, fun m hm => absurd hm (hoff.2 m)⟩
      exact ⟨alwaysFrom_append.mpr ⟨hcall, hbody.1⟩, fun m hm => by simpa using hbody.2 m hm⟩
  | yield a =>
      obtain rfl := Option.some.inj ho
      exact ⟨trivial, fun m hm => by simpa using hin m hm⟩
  | pend a =>
      obtain rfl := Option.some.inj ho
      exact ⟨trivial, fun m hm => by simpa using hin m hm⟩
  | resumed a =>
      obtain rfl := Option.some.inj ho
      cases a with
      | ret c' code =>
          refine ⟨⟨fun m u hu => ?_, trivial⟩, by simp [resume, Cont.after]⟩
          obtain ⟨rfl, rfl, rfl⟩ : t = u ∧ c' = .mutexUnlock m ∧ code = 0 := by simpa using hu
          exact hin m rfl
      | sendAgain q item => exact hother (sendAttempt_ofCall q item) (by simp)
      | recvAgain q => exact hother (recvAttempt_ofCall q) (by simp)
  | semTake i =>
      obtain rfl := Option.some.inj ho
      exact hother (semTakeAction_ofCall i) (by simp)
  | mutexLock i =>
      obtain rfl := Option.some.inj ho
      exact hother (mutexLockAction_ofCall i) (by simp)
  | queueSend q item =>
      obtain rfl := Option.some.inj ho
      exact hother (queueSendAction_ofCall q item) (by simp)
  | queueRecv q =>
      obtain rfl := Option.some.inj ho
      exact hother (queueRecvAction_ofCall q) (by simp)

/-- **Every step keeps the unlock invariant.** -/
theorem UnlockInv.step (h : UnlockInv s) {a : Interleave.Action}
    (hstep : Interleave.step sz port s a = some s') : UnlockInv s' := by
  -- a task that takes no step of its own: what was logged is no call of its
  have hkeep : ∀ {es : List Event} {id : Option ℕ} (m u : ℕ), (∀ d, .call u d ∉ es) →
      (s.spawned id u).after = some (.ret (.mutexUnlock m) 0) → UnlockedIn m u (s.log ++ es) := by
    intro es id m u hes hu
    rcases s.spawned_cases id u with hs | ⟨-, hs⟩
    · exact (h.inside m u (hs ▸ hu)).append hes
    · rw [hs] at hu
      exact absurd hu (by simp [Cont.after])
  rcases Interleave.step_cases hstep with ⟨t, c, o, -, -, ho, rfl⟩ | ⟨t, c, x, -, hx, rfl⟩ |
    ⟨op, -, rfl⟩ | ⟨-, hlog, id, hconts⟩
  · obtain ⟨hrets, hin⟩ := unlock_action ho (l := s.log) fun m => h.inside m t
    refine ⟨fun m u hu => ?_, always_append.mpr ⟨h.returns, hrets⟩⟩
    by_cases hut : u = t
    · rw [hut, Sys.apply_conts_self] at hu
      exact hut ▸ hin m hu
    · rw [Sys.apply_conts_of_ne _ hut] at hu
      exact hkeep m u (fun d hd => hut (call_mem ho hd)) hu
  · refine ⟨fun m u hu => h.inside m u ?_, h.returns⟩
    by_cases hut : u = t
    · rw [hut, Sys.land_conts_self] at hu
      rw [hut, hx]
      exact hu
    · rwa [Sys.land_conts_of_ne _ hut] at hu
  · obtain ⟨hrets, hcalls⟩ := isr_silent sz s.k op
    refine ⟨fun m u hu => (h.inside m u hu).append (hcalls u), always_append.mpr ⟨h.returns, ?_⟩⟩
    refine alwaysFrom_of_forall (fun e he l m u hu => ?_) _
    rw [hu] at he
    exact absurd he (hrets _ _ _)
  · refine ⟨fun m u hu => ?_, hlog ▸ h.returns⟩
    rw [hconts] at hu
    rw [hlog, ← List.append_nil s.log]
    exact hkeep m u (by simp) hu

theorem UnlockInv.boot (sz : Sizing) (port : Port) (cfg : Option KernelConfig) (objs : ObjectSpecs)
    (mem : Kernel) : UnlockInv (Sys.boot sz port cfg objs mem) where
  inside m u hu := absurd hu (by simp [Sys.boot, Cont.after])
  returns := always_nil

end Unlock

/-! ## The result -/

section Results

variable {sz : Sizing} {port : Port} {cfg : Option KernelConfig} {objs : ObjectSpecs} {mem : Kernel}
  {as : List Interleave.Action} {s : Sys}

/-- The events of mutex `m` in a log. -/
def mutexLog (m : ℕ) (log : List Event) : List (LockEvent ℕ) := log.filterMap (Event.lock m)

/-- After boot every mutex is free and no task is inside a lock call. -/
theorem LockInvs.boot : LockInvs sz (Sys.boot sz port cfg objs mem) where
  locks m := by
    refine ⟨Or.inl ⟨rfl, rfl⟩, fun t ht => ?_, fun t ht => ht.elim, fun t ht => ht.elim⟩
    rw [Kernel.waiters, RingBuffer.toList_eq_nil_iff.mpr rfl] at ht
    exact absurd ht List.not_mem_nil
  ok _ := trivial

/-- **Trace refinement.** In every state reached while parked tasks wait, the log, projected to a
mutex, is a trace of its lock from the free lock to the present one. -/
theorem mutex_trace (hr : sz.Representable)
    (hrun : exec (Interleave.step sz port) (Sys.boot sz port cfg objs mem) as = some s)
    (hwait : Along (Interleave.step sz port) WaitsParked (Sys.boot sz port cfg objs mem) as) (m : ℕ) :
    Trace HandoffLock.Step (lockView sz m (Sys.boot sz port cfg objs mem)) (mutexLog m s.log)
      (lockView sz m s) ∧ LockInvs sz s ∧ PartInv sz s := by
  refine exec_invariant (I := fun s =>
      Trace HandoffLock.Step (lockView sz m (Sys.boot sz port cfg objs mem)) (mutexLog m s.log)
        (lockView sz m s) ∧ LockInvs sz s ∧ PartInv sz s) ?_ ?_ hwait hrun
  · rintro s a s' ⟨htrace, hlocks, hpart⟩ hw hstep
    obtain ⟨es, hlog, hmove, hok⟩ := mutex_refines hr hpart hlocks hw hstep
    refine ⟨?_, ⟨fun m => (hmove m).2, hok⟩, hpart.step hr hstep⟩
    rw [mutexLog, hlog, List.filterMap_append]
    exact htrace.snoc (hmove m).1
  · exact ⟨.nil, LockInvs.boot, PartInv.boot sz port cfg objs mem⟩

/-- The log of a mutex follows the protocol of a handoff lock. -/
theorem mutex_lockProtocol (hr : sz.Representable)
    (hrun : exec (Interleave.step sz port) (Sys.boot sz port cfg objs mem) as = some s)
    (hwait : Along (Interleave.step sz port) WaitsParked (Sys.boot sz port cfg objs mem) as) (m : ℕ) :
    HandoffLock.Protocol (mutexLog m s.log) (lockView sz m s) := by
  refine HandoffLock.protocol_of_trace rfl rfl ?_ (mutex_trace hr hrun hwait m).1
  exact RingBuffer.toList_eq_nil_iff.mpr rfl

/-- The event shows that a task has come to own mutex `m` or gives it up: a return of 0 from
`hrt_mutex_lock` or `hrt_mutex_try_lock`, an acquisition, or the critical section of a successful
`hrt_mutex_unlock`. -/
def Event.changesHands (m : ℕ) (e : Event) : Prop :=
  ∃ u, e = .ret u (.mutexLock m) 0 ∨ e = .ret u (.mutexTryLock m) 0 ∨ e = .mutexAcquired m u ∨
    e = .mutexHandoff m u ∨ e = .mutexUnlocked m u

/-- Only the unlock of `t` projects to the unlock of `t`. -/
theorem unlocked_mem_mutexLog {m t : ℕ} {l : List Event} (h : .unlocked t ∈ mutexLog m l) :
    .mutexUnlocked m t ∈ l := by
  obtain ⟨e, he, hlock⟩ := List.mem_filterMap.mp h
  cases e with
  | mutexUnlocked i u =>
      simp only [Event.lock] at hlock
      split at hlock
      · rename_i him
        obtain rfl : u = t := by simpa using hlock
        exact him ▸ he
      · exact absurd hlock (by simp)
  | ret u c code =>
      cases c <;> simp only [Event.lock] at hlock <;> (try split at hlock) <;>
        exact absurd hlock (by simp)
  | _ =>
      simp only [Event.lock] at hlock
      try split at hlock
      all_goals exact absurd hlock (by simp)

/-- An event by which the mutex changes hands is not the start of a wait. -/
theorem Event.changesHands.lock {m : ℕ} {e : Event} (h : e.changesHands m) :
    ∃ x, e.lock m = some x ∧ ∀ u, x ≠ .parked u := by
  obtain ⟨u, rfl | rfl | rfl | rfl | rfl⟩ := h
  · exact ⟨.returned u, by simp [Event.lock], by simp⟩
  · exact ⟨.returned u, by simp [Event.lock], by simp⟩
  · exact ⟨.acquired u, by simp [Event.lock], by simp⟩
  · exact ⟨.handoff u, by simp [Event.lock], by simp⟩
  · exact ⟨.unlocked u, by simp [Event.lock], by simp⟩

/-- From the return of a lock call to the unlock the mutex is the caller's and does not change
hands. -/
theorem mutex_held {m t : ℕ} {c : Call} {l₁ l₂ : List Event}
    (hprot : HandoffLock.Protocol (mutexLog m s.log) (lockView sz m s))
    (hc : c = .mutexLock m ∨ c = .mutexTryLock m) (hlog : s.log = l₁ ++ .ret t c 0 :: l₂)
    (hun : .mutexUnlocked m t ∉ l₂) :
    (s.k.mutexes m).ownerId = some t ∧ ∀ e ∈ l₂, ¬ e.changesHands m := by
  have hret : Event.lock m (.ret t c 0) = some (.returned t) := by
    rcases hc with rfl | rfl <;> simp [Event.lock]
  have hsplit : mutexLog m s.log = mutexLog m l₁ ++ .returned t :: mutexLog m l₂ := by
    rw [hlog, mutexLog, List.filterMap_append, List.filterMap_cons, hret]
    rfl
  have hrule := hprot.rule
  have hhold := hprot.holder_eq
  rw [hsplit] at hrule hhold
  obtain ⟨hown, hparks⟩ := HandoffLock.exclusive hrule fun hm => hun (unlocked_mem_mutexLog hm)
  refine ⟨(Prod.mk.inj (hhold.symm.trans hown)).1, fun e he hch => ?_⟩
  obtain ⟨x, hx, hnot⟩ := hch.lock
  obtain ⟨u, hu⟩ := hparks x (List.mem_filterMap.mpr ⟨e, he, hx⟩)
  exact hnot u hu

/-- **An unlock that returns 0 while `t` holds the mutex** had its critical section before the lock call
of `t` returned, and is the latest call of its task. -/
theorem unlock_before {m t u : ℕ} {c : Call} {l₁ l₂ a b : List Event} (hunl : UnlockInv s)
    (hlog : s.log = l₁ ++ .ret t c 0 :: l₂) (hhands : ∀ e ∈ l₂, ¬ e.changesHands m)
    (hret : l₂ = a ++ .ret u (.mutexUnlock m) 0 :: b) :
    ∃ x y, l₁ = x ++ .mutexUnlocked m u :: y ∧ ∀ d, .call u d ∉ y ++ a := by
  obtain ⟨x, y, hsplit, hcalls⟩ := hunl.returns (l₁ ++ .ret t c 0 :: a) _ b
    (by rw [hlog, hret]; simp) m u rfl
  rcases List.append_eq_append_iff.mp hsplit with ⟨z, rfl, hz⟩ | ⟨z, rfl, hz⟩
  · -- the critical section would come after the return of `t`
    cases z with
    | nil => exact absurd (List.cons.inj hz).1 (by simp)
    | cons e z =>
        have hmem : .mutexUnlocked m u ∈ l₂ := by
          rw [hret, (List.cons.inj hz).2]
          simp
        exact absurd ⟨u, by simp⟩ (hhands _ hmem)
  · cases z with
    | nil => exact absurd (List.cons.inj hz).1 (by simp)
    | cons e z =>
        obtain ⟨rfl, rfl⟩ := List.cons.inj hz
        refine ⟨x, z, rfl, fun d hd => hcalls d ?_⟩
        rcases List.mem_append.mp hd with hd | hd <;> simp [hd]

/-- **The mutex protocol.** In every state reached while parked tasks wait: the mutex is free exactly if
it has no owner, and then nobody waits for it; the owner does not wait for it. From the moment
`hrt_mutex_lock` or `hrt_mutex_try_lock` returns 0 to `t` until `t` unlocks, `t` is the owner, no lock
call returns 0, nobody acquires or unlocks the mutex, and an unlock by any other task is refused; an
unlock call that returns 0 in that time had its critical section before, and its task has entered no
call since. Tasks that had to wait are served in the order in which they parked, and nobody acquires the
mutex while one of them waits. A call that returns -1, and the attempt of `hrt_mutex_lock` that fails
before it parks, leaves the mutexes, the task table and the ready queues as they were. -/
theorem mutex_protocol (hr : sz.Representable)
    (hrun : exec (Interleave.step sz port) (Sys.boot sz port cfg objs mem) as = some s)
    (hwait : Along (Interleave.step sz port) WaitsParked (Sys.boot sz port cfg objs mem) as) (m : ℕ) :
    ((s.k.mutexes m).locked = false ↔ (s.k.mutexes m).owner = noOwner) ∧
    ((s.k.mutexes m).locked = false → (s.k.mutexes m).waitq.count = 0) ∧
    (∀ t : ℕ, (s.k.mutexes m).owner = t → t ∉ s.k.waiters sz (.mutex m)) ∧
    (∀ (t : ℕ) c l₁ l₂, (c = .mutexLock m ∨ c = .mutexTryLock m) →
      s.log = l₁ ++ .ret t c 0 :: l₂ → .mutexUnlocked m t ∉ l₂ →
      (s.k.mutexes m).locked = true ∧ (s.k.mutexes m).owner = t ∧
      (∀ e ∈ l₂, ¬ e.changesHands m) ∧
      (∀ u a b, l₂ = a ++ .ret u (.mutexUnlock m) 0 :: b →
        ∃ x y, l₁ = x ++ .mutexUnlocked m u :: y ∧ ∀ d, .call u d ∉ y ++ a) ∧
      ∀ u : ℕ, u ≠ t → (hrtMutexUnlockCs sz m u s.k).1 = .refused) ∧
    (HandoffLock.parks (mutexLog m s.log) =
      HandoffLock.handoffs (mutexLog m s.log) ++ s.k.waiters sz (.mutex m)) ∧
    (s.k.waiters sz (.mutex m) ≠ [] → ∀ t,
      (hrtMutexTryLock sz m t s.k).1 = -1 ∧ (hrtMutexLockCs sz m t s.k).1 ≠ .acquired) ∧
    (∀ t c s' es, Interleave.step sz port s (.task t c) = some s' → s'.log = s.log ++ es →
      ((∃ e ∈ es, e.refusal m) ∨ s'.conts t = .mutexLock m) → SameBooks s.k s'.k) := by
  obtain ⟨-, hlocks, hinv⟩ := mutex_trace hr hrun hwait m
  have hprot := mutex_lockProtocol hr hrun hwait m
  have hunl : UnlockInv s :=
    exec_invariant' (fun _ _ _ h hstep => h.step hstep) (UnlockInv.boot sz port cfg objs mem) hrun
  have hwf := (hlocks.locks m).wf
  have hfree : (s.k.mutexes m).locked = false → s.k.waiters sz (.mutex m) = [] := fun hl =>
    (hprot.free (Mutex.ownerId_of_free hl)).2
  refine ⟨?_, fun hl => RingBuffer.toList_eq_nil_iff.mp (hfree hl), fun t ht => ?_, ?_, hprot.fifo,
    fun hne t => ?_, ?_⟩
  · rcases hwf with ⟨hl, ho⟩ | ⟨hl, hpos⟩
    · exact iff_of_true hl ho
    · refine iff_of_false (by rw [hl]; simp) fun ho => ?_
      rw [ho] at hpos
      exact absurd hpos (by decide)
  · rcases hwf with ⟨-, ho⟩ | ⟨hl, -⟩
    · have hneg : noOwner = (t : ℤ) := ho.symm.trans ht
      simp only [noOwner] at hneg
      omega
    · exact hprot.owner_not_waiting t (Mutex.ownerId_of_locked hl ht)
  · intro t c l₁ l₂ hc hlog hun
    obtain ⟨hown, hhands⟩ := mutex_held hprot hc hlog hun
    obtain ⟨hl, ho⟩ := hwf.owner_eq hown
    refine ⟨hl, ho, hhands, fun u a b hret => unlock_before hunl hlog hhands hret, fun u hu => ?_⟩
    have hne : (s.k.mutexes m).owner ≠ u := by
      rw [ho]
      exact fun h => hu (Int.ofNat.inj h).symm
    unfold hrtMutexUnlockCs
    rw [if_pos (Or.inr hne)]
    split <;> rfl
  · have hl : (s.k.mutexes m).locked ≠ false := fun hl => hne (hfree hl)
    constructor
    · unfold hrtMutexTryLock
      rw [if_neg hl]
      split_ifs <;> rfl
    · unfold hrtMutexLockCs
      rw [if_neg hl]
      split_ifs <;> simp
  · intro t c s' es hstep hlog hcase
    rcases Interleave.step_task hstep with ⟨o, -, ho, rfl⟩ | ⟨x, -, rfl⟩
    · obtain rfl : o.evs = es := List.append_cancel_left hlog
      -- the action runs with `t` as the current task, which is not part of the books
      have hbooks : SameBooks (s.setCurrent t).k o.k := by
        rcases hcase with ⟨e, he, hm⟩ | hcont
        · exact refusal_frame ho he hm
        · rw [Sys.apply_conts_self] at hcont
          exact failedTry_frame ho hcont
      exact hbooks
    · exact ⟨rfl, rfl, rfl⟩

/-- Task 0 takes mutex 0, task 1 parks on it, task 0 unlocks and hands it over, task 1's call returns,
and last the unlock call of task 0 returns. -/
def handoverRun : List Interleave.Action :=
  [.main (.createTask ⟨1, 0, 0x20000000, 64, none⟩), .main (.createTask ⟨1, 0, 0x20001000, 64, none⟩),
    .task 0 (.mutexLock 0), .task 1 (.mutexLock 0), .task 1 .yield, .task 1 .yield,
    .task 0 (.mutexUnlock 0), .task 0 .yield, .task 0 .yield, .task 1 .yield, .task 1 .yield,
    .task 0 .yield, .task 0 .yield]

/-- The log of `handoverRun` up to the return of task 1's call. -/
def handoverLog : List Event :=
  [.call 0 (.mutexLock 0), .mutexAcquired 0 0, .ret 0 (.mutexLock 0) 0, .call 1 (.mutexLock 0),
    .mutexParked 0 1, .call 0 (.mutexUnlock 0), .mutexUnlocked 0 0, .mutexHandoff 0 1]

/-- At the end of `handoverRun` task 1 holds the mutex and task 0 cannot unlock it. -/
theorem mutex_protocol_handover :
    ∃ s, exec (Interleave.step .default .posix) (Sys.boot .default .posix none .basic .bss)
        handoverRun = some s ∧
      (s.k.mutexes 0).owner = (1 : ℕ) ∧ (hrtMutexUnlockCs .default 0 0 s.k).1 = .refused := by
  have heval : ((exec (Interleave.step .default .posix)
      (Sys.boot .default .posix none .basic .bss) handoverRun).map fun s => s.log) =
        some (handoverLog ++ .ret 1 (.mutexLock 0) 0 :: [.ret 0 (.mutexUnlock 0) 0]) := by
    decide +kernel
  obtain ⟨s, hs, hlog⟩ := Option.map_eq_some_iff.mp heval
  obtain ⟨-, howner, -, -, hrefused⟩ := (mutex_protocol (by decide) hs (by decide +kernel) 0).2.2.2.1
    1 _ _ _ (Or.inl rfl) hlog (by decide)
  exact ⟨s, hs, howner, hrefused 0 (by decide)⟩

/-- **An unlock can return 0 to one task while another holds the mutex**: in `handoverRun` the call
that handed the mutex to task 1 returns to task 0 after task 1's `hrt_mutex_lock` has returned 0 and
before task 1 unlocks. -/
theorem mutexUnlock_returns_late :
    ∃ s l₁ l₂, exec (Interleave.step .default .posix) (Sys.boot .default .posix none .basic .bss)
        handoverRun = some s ∧
      Along (Interleave.step .default .posix) WaitsParked (Sys.boot .default .posix none .basic .bss)
        handoverRun ∧
      s.log = l₁ ++ .ret 1 (.mutexLock 0) 0 :: l₂ ∧ .mutexUnlocked 0 1 ∉ l₂ ∧
      .ret 0 (.mutexUnlock 0) 0 ∈ l₂ := by
  have heval : ((exec (Interleave.step .default .posix)
      (Sys.boot .default .posix none .basic .bss) handoverRun).map fun s => s.log) =
        some (handoverLog ++ .ret 1 (.mutexLock 0) 0 :: [.ret 0 (.mutexUnlock 0) 0]) := by
    decide +kernel
  obtain ⟨s, hs, hlog⟩ := Option.map_eq_some_iff.mp heval
  exact ⟨s, _, _, hs, by decide +kernel, hlog, by decide, by decide⟩

end Results

end HardRT
