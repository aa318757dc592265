import HardRT.Core.Task

/-! # Mutexes

The critical sections of `src/core/hardrt_mutex.c`: owner-tracked, non-recursive, with FIFO waiters and
direct handoff on unlock. -/

namespace HardRT

open Lib

/-- `hrt_mutex_init`. The cells of the wait ring keep their contents. -/
def hrtMutexInit (m : Mutex) : Mutex :=
  { locked := false
    owner := noOwner
    waitq := { m.waitq with head := 0, tail := 0, count := 0 } }

/-- `_waitq_push` of `hardrt_mutex.c`. -/
def mutexWaitqPush (sz : Sizing) (id : ℕ) (m : Mutex) : Mutex :=
  { m with waitq := m.waitq.push 256 sz.maxTasks id }

/-- `_waitq_pop` of `hardrt_mutex.c`; `none` is `-1`. -/
def mutexWaitqPop (sz : Sizing) (m : Mutex) : Option ℕ × Mutex :=
  ((m.waitq.pop 256 sz.maxTasks).1, { m with waitq := (m.waitq.pop 256 sz.maxTasks).2 })

/-- `hrt_mutex_try_lock`. -/
def hrtMutexTryLock (sz : Sizing) (i me : ℕ) (k : Kernel) : ℤ × Kernel :=
  if sz.maxTasks ≤ me then (-1, k.hrtError .mutexBadCtx)
  else if (k.mutexes i).locked = false then
    (0, k.setMutex i { k.mutexes i with locked := true, owner := me })
  else if (k.mutexes i).owner = me then (-1, k.hrtError .mutexRecursive)
  else (-1, k)

/-- How the second critical section of `hrt_mutex_lock` ends. -/
inductive LockOutcome
  /-- The mutex was free after all and is now the caller's. -/
  | acquired
  /-- The caller already owns it: error, `-1`. -/
  | recursive
  /-- The caller was parked. -/
  | parked
  deriving DecidableEq, Repr

/-- The second critical section of `hrt_mutex_lock`: re-check, else park the caller. -/
def hrtMutexLockCs (sz : Sizing) (i me : ℕ) (k : Kernel) : LockOutcome × Kernel :=
  if (k.mutexes i).locked = false then
    (.acquired, k.setMutex i { k.mutexes i with locked := true, owner := me })
  else if (k.mutexes i).owner = me then (.recursive, k.hrtError .mutexRecursive)
  else (.parked, (k.setMutex i (mutexWaitqPush sz (me % 256) (k.mutexes i))).setState me .blocked)

/-- How the critical section of `hrt_mutex_unlock` ends. -/
inductive UnlockOutcome
  /-- Not called from a task, not locked or not owned by the caller: error, `-1`. -/
  | refused
  /-- Ownership was handed to a waiter, which was made ready. -/
  | handoff (waiter : ℕ)
  /-- Nobody waited; the mutex is free. -/
  | released
  deriving DecidableEq, Repr

/-- The critical section of `hrt_mutex_unlock`. -/
def hrtMutexUnlockCs (sz : Sizing) (i me : ℕ) (k : Kernel) : UnlockOutcome × Kernel :=
  if sz.maxTasks ≤ me then (.refused, k.hrtError .mutexBadCtx)
  else if (k.mutexes i).locked = false ∨ (k.mutexes i).owner ≠ me then
    (.refused, k.hrtError .mutexOwner)
  else match mutexWaitqPop sz (k.mutexes i) with
    | (some waiter, m) =>
        (.handoff waiter,
          hrtMakeReady sz waiter (k.setMutex i { m with locked := true, owner := waiter }))
    | (none, m) => (.released, k.setMutex i { m with locked := false, owner := noOwner })

/-! ## Frames: a mutex operation leaves semaphores and queues alone -/

section Frames

variable {sz : Sizing} {i me : ℕ} {k : Kernel}

theorem hrtMutexTryLock_frame :
    (hrtMutexTryLock sz i me k).2.sems = k.sems ∧
    (hrtMutexTryLock sz i me k).2.queues = k.queues := by
  unfold hrtMutexTryLock
  split_ifs <;> exact ⟨rfl, rfl⟩

theorem hrtMutexLockCs_frame :
    (hrtMutexLockCs sz i me k).2.sems = k.sems ∧
    (hrtMutexLockCs sz i me k).2.queues = k.queues := by
  unfold hrtMutexLockCs
  split_ifs <;> exact ⟨rfl, rfl⟩

theorem hrtMutexUnlockCs_frame :
    (hrtMutexUnlockCs sz i me k).2.sems = k.sems ∧
    (hrtMutexUnlockCs sz i me k).2.queues = k.queues := by
  unfold hrtMutexUnlockCs
  split_ifs
  · exact ⟨rfl, rfl⟩
  · exact ⟨rfl, rfl⟩
  · split
    · exact ⟨hrtMakeReady_sems _ _ _, hrtMakeReady_queues _ _ _⟩
    · exact ⟨rfl, rfl⟩

end Frames

end HardRT
