import HardRT.Core.Task

/-! # Semaphores

The critical sections of `src/core/hardrt_sem.c`. Each definition is what runs between one
`hrt_port_crit_enter` and the matching `hrt_port_crit_exit`, hence atomic; the calls themselves
(`hrt_sem_take` with its two critical sections, the yield after a waking give) are assembled in
`System.Thread`. Return codes are the source's, `0` and `-1`. -/

namespace HardRT

open Lib

/-- `hrt_sem_init`: a binary semaphore. The cells of the wait ring keep their contents. -/
def hrtSemInit (init : ℕ) (s : Sem) : Sem :=
  { maxCount := 1
    count := if init = 0 then 0 else 1
    waitq := { s.waitq with head := 0, tail := 0, count := 0 } }

/-- `hrt_sem_init_counting`: `max_count == 0` is treated as binary, `init` is clamped. -/
def hrtSemInitCounting (init maxCount : ℕ) (s : Sem) : Sem :=
  let maxCount := if maxCount = 0 then 1 else maxCount
  { maxCount := maxCount
    count := (if maxCount < init then maxCount else init) % 256
    waitq := { s.waitq with head := 0, tail := 0, count := 0 } }

/-- `_waitq_push` of `hardrt_sem.c`. -/
def semWaitqPush (sz : Sizing) (id : ℕ) (s : Sem) : Sem :=
  { s with waitq := s.waitq.push 256 sz.maxTasks id }

/-- `_waitq_pop` of `hardrt_sem.c`; `none` is `-1`. -/
def semWaitqPop (sz : Sizing) (s : Sem) : Option ℕ × Sem :=
  ((s.waitq.pop 256 sz.maxTasks).1, { s with waitq := (s.waitq.pop 256 sz.maxTasks).2 })

/-- `hrt_sem_try_take`. -/
def hrtSemTryTake (i : ℕ) (k : Kernel) : ℤ × Kernel :=
  if (k.sems i).count ≠ 0 then
    (0, k.setSem i { k.sems i with count := (k.sems i).count - 1 })
  else (-1, k)

/-- The second critical section of `hrt_sem_take`: re-check the count, else park the caller. The flag
says that a token was taken. -/
def hrtSemTakeCs (sz : Sizing) (i me : ℕ) (k : Kernel) : Bool × Kernel :=
  if (k.sems i).count ≠ 0 then
    (true, k.setSem i { k.sems i with count := (k.sems i).count - 1 })
  else (false, (k.setSem i (semWaitqPush sz (me % 256) (k.sems i))).setState me .blocked)

/-- The critical section of `_give_common`: wake the longest waiter, else store a token, saturating.
Returns the woken task. -/
def giveCommonCs (sz : Sizing) (i : ℕ) (k : Kernel) : Option ℕ × Kernel :=
  match semWaitqPop sz (k.sems i) with
  | (some waiter, s) => (some waiter, hrtMakeReady sz waiter (k.setSem i s))
  | (none, s) =>
      (none, k.setSem i (if s.count < s.maxCount then { s with count := (s.count + 1) % 256 } else s))

/-! ## Frames: a semaphore operation leaves mutexes and queues alone -/

section Frames

variable {sz : Sizing} {i me : ℕ} {k : Kernel}

theorem hrtSemTryTake_frame :
    (hrtSemTryTake i k).2.mutexes = k.mutexes ∧ (hrtSemTryTake i k).2.queues = k.queues := by
  unfold hrtSemTryTake
  split <;> exact ⟨rfl, rfl⟩

theorem hrtSemTakeCs_frame :
    (hrtSemTakeCs sz i me k).2.mutexes = k.mutexes ∧
    (hrtSemTakeCs sz i me k).2.queues = k.queues := by
  unfold hrtSemTakeCs
  split <;> exact ⟨rfl, rfl⟩

theorem giveCommonCs_frame :
    (giveCommonCs sz i k).2.mutexes = k.mutexes ∧ (giveCommonCs sz i k).2.queues = k.queues := by
  unfold giveCommonCs
  split
  · exact ⟨hrtMakeReady_mutexes _ _ _, hrtMakeReady_queues _ _ _⟩
  · exact ⟨rfl, rfl⟩

end Frames

end HardRT
