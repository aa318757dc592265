import HardRT.Lib.HandoffLock
import HardRT.System.Partition
import HardRT.System.Waiting

/-! # Mutexes refine handoff locks

The mutex object together with the continuations of the tasks inside `hrt_mutex_lock` implements
`Lib.HandoffLock`: a task that was passed the mutex and has not returned from its call yet is the
pending owner. `lockView` is the abstraction, `Event.lock` projects the system log to one mutex, and
`mutex_refines` says that every step of the interleaving machine is a move of every lock, provided a
parked task takes no step before it is woken (`WaitsParked`). -/

namespace HardRT

open Lib

/-! ## The abstraction -/

/-- The lock event an event is, at mutex `m`. -/
def Event.lock (m : ℕ) : Event → Option (LockEvent ℕ)
  | .mutexAcquired m' t => if m' = m then some (.acquired t) else none
  | .mutexParked m' t => if m' = m then some (.parked t) else none
  | .mutexUnlocked m' t => if m' = m then some (.unlocked t) else none
  | .mutexHandoff m' t => if m' = m then some (.handoff t) else none
  | .ret t (.mutexLock m') code => if m' = m ∧ code = 0 then some (.returned t) else none
  | .ret t (.mutexTryLock m') code => if m' = m ∧ code = 0 then some (.returned t) else none
  | _ => none

/-- What a call may still return: not from `hrt_mutex_try_lock`, and only success from
`hrt_mutex_lock`. -/
def After.lockOk : After → Prop
  | .ret (.mutexLock _) code => code = 0
  | .ret (.mutexTryLock _) _ => False
  | _ => True

/-- A lock call never ends in a yield, and what it returns later is success. -/
def Cont.lockOk : Cont → Prop
  | .yield (.ret (.mutexLock _) _) => False
  | .yield a | .pend a | .hop a | .resumed a => a.lockOk
  | _ => True

/-- The owner of a mutex as a task. -/
def Mutex.ownerId (M : Mutex) : Option ℕ := if M.locked then some M.owner.toNat else none

/-- The fields of a mutex agree: free without an owner, or locked with a task as owner. -/
def Mutex.WF (M : Mutex) : Prop :=
  (M.locked = false ∧ M.owner = noOwner) ∨ (M.locked = true ∧ 0 ≤ M.owner)

theorem Mutex.ownerId_of_free {M : Mutex} (h : M.locked = false) : M.ownerId = none := by
  simp [Mutex.ownerId, h]

theorem Mutex.ownerId_of_locked {M : Mutex} (h : M.locked = true) {t : ℕ} (ht : M.owner = t) :
    M.ownerId = some t := by
  simp [Mutex.ownerId, h, ht]

/-- The owner field of a consistent mutex that has an owner. -/
theorem Mutex.WF.owner_eq {M : Mutex} (h : M.WF) {t : ℕ} (ht : M.ownerId = some t) :
    M.locked = true ∧ M.owner = t := by
  rcases h with ⟨hl, -⟩ | ⟨hl, hpos⟩
  · rw [Mutex.ownerId_of_free hl] at ht
    exact absurd ht (by simp)
  · refine ⟨hl, ?_⟩
    rw [Mutex.ownerId, if_pos hl] at ht
    have := Option.some.inj ht
    omega

/-- The lock a mutex implements: the owner is pending while its own call waits to return. -/
def lockView (sz : Sizing) (m : ℕ) (s : Sys) : HandoffLock ℕ where
  owner := (s.k.mutexes m).ownerId
  pending := (s.k.mutexes m).ownerId.filter fun w => (s.conts w).awaits (.mutexLock m)
  waiters := s.k.waiters sz (.mutex m)

/-- **What ties a mutex to the tasks inside `hrt_mutex_lock`**: its fields agree; its waiters have
parked calls; a task with a parked call is a waiter or the owner, and lives. -/
structure LockInv (sz : Sizing) (m : ℕ) (s : Sys) : Prop where
  wf : (s.k.mutexes m).WF
  waiting : ∀ t ∈ s.k.waiters sz (.mutex m), (s.conts t).awaits (.mutexLock m)
  awaiting : ∀ t, (s.conts t).awaits (.mutexLock m) →
    t ∈ s.k.waiters sz (.mutex m) ∨ (s.k.mutexes m).ownerId = some t
  alive : ∀ t, (s.conts t).awaits (.mutexLock m) → s.k.stateOf t ≠ .unused

/-- A step is a move of lock `m` that emits `es` and keeps the invariant. -/
def LockStep (sz : Sizing) (m : ℕ) (s s' : Sys) (es : List (LockEvent ℕ)) : Prop :=
  HandoffLock.Step (lockView sz m s) es (lockView sz m s') ∧ LockInv sz m s'

/-! ## The moves -/

section Moves

variable {sz : Sizing} {m t : ℕ} {s s' : Sys}

/-- The waiters of a mutex are read off the mutex. -/
theorem waiters_mutex_congr (sz : Sizing) (h : (s'.k.mutexes m).waitq = (s.k.mutexes m).waitq) :
    s'.k.waiters sz (.mutex m) = s.k.waiters sz (.mutex m) := by
  simp only [Kernel.waiters, Kernel.ring, h]

/-- **Nothing happens at mutex `m`.** -/
theorem LockInv.frame (h : LockInv sz m s) (hmut : s'.k.mutexes m = s.k.mutexes m)
    (haw : ∀ u, (s'.conts u).awaits (.mutexLock m) ↔ (s.conts u).awaits (.mutexLock m))
    (halive : ∀ u, (s.conts u).awaits (.mutexLock m) → s'.k.stateOf u ≠ .unused) :
    LockStep sz m s s' [] := by
  have hwait := waiters_mutex_congr sz (congrArg Mutex.waitq hmut)
  have hview : lockView sz m s' = lockView sz m s := by
    simp only [lockView, hmut, hwait, haw]
  refine ⟨?_, hmut ▸ h.wf, fun u hu => (haw u).mpr (h.waiting u (hwait ▸ hu)), fun u hu => ?_,
    fun u hu => halive u ((haw u).mp hu)⟩
  · rw [hview]
    exact .idle _
  · rw [hwait, hmut]
    exact h.awaiting u ((haw u).mp hu)

/-- **The mutex is free and the call of `t` takes it.** -/
theorem LockInv.acquire (h : LockInv sz m s) (hfree : (s.k.mutexes m).locked = false)
    (hmut : s'.k.mutexes m = { s.k.mutexes m with locked := true, owner := t })
    (haw : ∀ u, (s'.conts u).awaits (.mutexLock m) ↔ (s.conts u).awaits (.mutexLock m))
    (ht : ¬ (s.conts t).awaits (.mutexLock m))
    (halive : ∀ u, (s.conts u).awaits (.mutexLock m) → s'.k.stateOf u ≠ .unused) :
    LockStep sz m s s' [.acquired t, .returned t] := by
  have hwaitq : (s'.k.mutexes m).waitq = (s.k.mutexes m).waitq := by rw [hmut]
  have hwait := waiters_mutex_congr sz hwaitq
  have hnone := Mutex.ownerId_of_free hfree
  have hsome : (s'.k.mutexes m).ownerId = some t := by
    rw [hmut]
    exact Mutex.ownerId_of_locked rfl rfl
  have ht' : ¬ (s'.conts t).awaits (.mutexLock m) := fun hc => ht ((haw t).mp hc)
  have hview : lockView sz m s' = { lockView sz m s with owner := some t } := by
    simp [lockView, hnone, hsome, hwait, ht', Option.filter]
  refine ⟨?_, ?_, fun u hu => (haw u).mpr (h.waiting u (hwait ▸ hu)), fun u hu => ?_,
    fun u hu => halive u ((haw u).mp hu)⟩
  · rw [hview]
    exact .acquire t hnone
  · rw [hmut]
    exact Or.inr ⟨rfl, Int.natCast_nonneg t⟩
  · rw [hwait]
    left
    refine (h.awaiting u ((haw u).mp hu)).resolve_right fun hown => ?_
    rw [hnone] at hown
    exact absurd hown (by simp)

/-- **The mutex is another task's and the call of `t` parks.** -/
theorem LockInv.park (h : LockInv sz m s) (hr : sz.Representable) (hpark : Parkable sz t s.k)
    (hring : (s.k.ring (.mutex m)).WF sz.maxTasks) (hlocked : (s.k.mutexes m).locked = true)
    (howner : (s.k.mutexes m).owner ≠ t)
    (hmut : s'.k.mutexes m = mutexWaitqPush sz (t % 256) (s.k.mutexes m))
    (haw : ∀ u, u ≠ t → ((s'.conts u).awaits (.mutexLock m) ↔ (s.conts u).awaits (.mutexLock m)))
    (ht : (s'.conts t).awaits (.mutexLock m))
    (halive : ∀ u, (s'.conts u).awaits (.mutexLock m) → s'.k.stateOf u ≠ .unused) :
    LockStep sz m s s' [.parked t] := by
  have hwait : s'.k.waiters sz (.mutex m) = s.k.waiters sz (.mutex m) ++ [t] := by
    simp only [Kernel.waiters, Kernel.ring, hmut, mutexWaitqPush]
    exact hpark.toList_push hr hring
  have hid : (s'.k.mutexes m).ownerId = (s.k.mutexes m).ownerId := by
    rw [hmut]
    rfl
  obtain ⟨o, ho⟩ : ∃ o : ℕ, (s.k.mutexes m).owner = o := by
    rcases h.wf with ⟨hl, -⟩ | ⟨-, hpos⟩
    · rw [hlocked] at hl
      exact absurd hl (by simp)
    · exact ⟨(s.k.mutexes m).owner.toNat, by omega⟩
  have hown := Mutex.ownerId_of_locked hlocked ho
  have hot : o ≠ t := fun hot => howner (by rw [ho, hot])
  have hview : lockView sz m s' =
      { lockView sz m s with waiters := (lockView sz m s).waiters ++ [t] } := by
    simp only [lockView, hid, hwait, hown, Option.filter, haw o hot]
  refine ⟨?_, by rw [hmut]; exact h.wf, fun u hu => ?_, fun u hu => ?_, halive⟩
  · rw [hview]
    exact .park hown hot (hpark.fresh (.mutex m))
  · rw [hwait, List.mem_append, List.mem_singleton] at hu
    by_cases hut : u = t
    · exact hut ▸ ht
    · exact (haw u hut).mpr (h.waiting u (hu.resolve_right hut))
  · rw [hwait, List.mem_append, List.mem_singleton, hid]
    by_cases hut : u = t
    · exact Or.inl (Or.inr hut)
    · rcases h.awaiting u ((haw u hut).mp hu) with hmem | hown'
      · exact Or.inl (Or.inl hmem)
      · exact Or.inr hown'

/-- **The owner `t` unlocks and the longest waiting task becomes the owner.** -/
theorem LockInv.handoff (h : LockInv sz m s) {w : ℕ} {rest : List ℕ}
    (hlocked : (s.k.mutexes m).locked = true) (howner : (s.k.mutexes m).owner = t)
    (hl : s.k.waiters sz (.mutex m) = w :: rest)
    (hwait : s'.k.waiters sz (.mutex m) = rest)
    (hmut : (s'.k.mutexes m).locked = true ∧ (s'.k.mutexes m).owner = w)
    (haw : ∀ u, (s'.conts u).awaits (.mutexLock m) ↔ (s.conts u).awaits (.mutexLock m))
    (ht : ¬ (s.conts t).awaits (.mutexLock m))
    (halive : ∀ u, (s.conts u).awaits (.mutexLock m) → s'.k.stateOf u ≠ .unused) :
    LockStep sz m s s' [.unlocked t, .handoff w] := by
  have hown := Mutex.ownerId_of_locked hlocked howner
  have hown' := Mutex.ownerId_of_locked hmut.1 hmut.2
  have hw : (s'.conts w).awaits (.mutexLock m) := (haw w).mpr (h.waiting w (hl ▸ List.mem_cons_self))
  have hview : lockView sz m s' = ⟨some w, some w, rest⟩ := by
    simp [lockView, hown', hwait, hw, Option.filter]
  refine ⟨?_, Or.inr ⟨hmut.1, by rw [hmut.2]; exact Int.natCast_nonneg w⟩, fun u hu => ?_,
    fun u hu => ?_, fun u hu => halive u ((haw u).mp hu)⟩
  · rw [hview]
    refine .handoff hown ?_ hl
    simp [lockView, hown, ht, Option.filter]
  · rw [hwait] at hu
    exact (haw u).mpr (h.waiting u (hl ▸ List.mem_cons_of_mem _ hu))
  · rw [hwait, hown']
    rcases h.awaiting u ((haw u).mp hu) with hmem | hsame
    · rw [hl] at hmem
      rcases List.mem_cons.mp hmem with rfl | hmem
      · exact Or.inr rfl
      · exact Or.inl hmem
    · -- the old owner was `t`, whose call is over
      obtain rfl : t = u := Option.some.inj (hown.symm.trans hsame)
      exact absurd ((haw t).mp hu) ht

/-- **The owner `t` unlocks and nobody waits.** -/
theorem LockInv.release (h : LockInv sz m s) (hlocked : (s.k.mutexes m).locked = true)
    (howner : (s.k.mutexes m).owner = t) (hl : s.k.waiters sz (.mutex m) = [])
    (hwait : s'.k.waiters sz (.mutex m) = [])
    (hmut : (s'.k.mutexes m).locked = false ∧ (s'.k.mutexes m).owner = noOwner)
    (haw : ∀ u, (s'.conts u).awaits (.mutexLock m) ↔ (s.conts u).awaits (.mutexLock m))
    (ht : ¬ (s.conts t).awaits (.mutexLock m))
    (halive : ∀ u, (s.conts u).awaits (.mutexLock m) → s'.k.stateOf u ≠ .unused) :
    LockStep sz m s s' [.unlocked t] := by
  have hown := Mutex.ownerId_of_locked hlocked howner
  have hnone := Mutex.ownerId_of_free hmut.1
  have hpend : (lockView sz m s).pending = none := by
    simp [lockView, hown, ht, Option.filter]
  have hview : lockView sz m s' = { lockView sz m s with owner := none } := by
    simp [lockView, hown, hnone, hwait, hl, ht, Option.filter]
  refine ⟨?_, Or.inl hmut, fun u hu => ?_, fun u hu => ?_, fun u hu => halive u ((haw u).mp hu)⟩
  · rw [hview]
    exact .release hown hpend hl
  · rw [hwait] at hu
    exact absurd hu List.not_mem_nil
  · rcases h.awaiting u ((haw u).mp hu) with hmem | hsame
    · rw [hl] at hmem
      exact absurd hmem List.not_mem_nil
    · obtain rfl : t = u := Option.some.inj (hown.symm.trans hsame)
      exact absurd ((haw t).mp hu) ht

/-- **The call of the next owner returns.** -/
theorem LockInv.ret (h : LockInv sz m s) (hmut : s'.k.mutexes m = s.k.mutexes m)
    (ht : (s.conts t).awaits (.mutexLock m)) (hnot : t ∉ s.k.waiters sz (.mutex m))
    (haw : ∀ u, u ≠ t → ((s'.conts u).awaits (.mutexLock m) ↔ (s.conts u).awaits (.mutexLock m)))
    (ht' : ¬ (s'.conts t).awaits (.mutexLock m))
    (halive : ∀ u, u ≠ t → (s.conts u).awaits (.mutexLock m) → s'.k.stateOf u ≠ .unused) :
    LockStep sz m s s' [.returned t] := by
  have hwait := waiters_mutex_congr sz (congrArg Mutex.waitq hmut)
  have hown := (h.awaiting t ht).resolve_left hnot
  have hpend : (lockView sz m s).pending = some t := by
    simp [lockView, hown, ht, Option.filter]
  have hview : lockView sz m s' = { lockView sz m s with pending := none } := by
    simp [lockView, hmut, hown, hwait, ht', Option.filter]
  have hne : ∀ u, (s'.conts u).awaits (.mutexLock m) → u ≠ t := fun u hu hut => ht' (hut ▸ hu)
  refine ⟨?_, hmut ▸ h.wf, fun u hu => ?_, fun u hu => ?_, fun u hu => ?_⟩
  · rw [hview]
    exact .ret hpend
  · rw [hwait] at hu
    exact (haw u fun hut => hnot (hut ▸ hu)).mpr (h.waiting u hu)
  · rw [hwait, hmut]
    exact h.awaiting u ((haw u (hne u hu)).mp hu)
  · exact halive u (hne u hu) ((haw u (hne u hu)).mp hu)

end Moves

/-! ## Every action of a task is a lock move -/

section Task

variable {sz : Sizing} {port : Port} {m t : ℕ} {call : Call} {s : Sys} {o : Outcome}

/-- The parked calls after an action of a task that neither was nor is inside one. -/
theorem LockInv.outside (h : LockInv sz m s)
    (ho : nextAction sz port t call s.k (s.conts t) = some o)
    (hc : ¬ (s.conts t).awaits (.mutexLock m)) (hc' : ¬ o.cont.awaits (.mutexLock m)) :
    (∀ u, ((s.apply t o).conts u).awaits (.mutexLock m) ↔ (s.conts u).awaits (.mutexLock m)) ∧
    (∀ u, (s.conts u).awaits (.mutexLock m) → (s.apply t o).k.stateOf u ≠ .unused) := by
  obtain ⟨haw, halive⟩ := awaits_others h.alive ho
  refine ⟨fun u => ?_, fun u hu => halive u (fun hut => hc (hut ▸ hu)) hu⟩
  by_cases hu : u = t
  · rw [hu, Sys.apply_conts_self]
    exact iff_of_false hc' hc
  · exact haw u hu

/-- An action that is not about mutex `m`. -/
theorem LockInv.elsewhere (h : LockInv sz m s)
    (ho : nextAction sz port t call s.k (s.conts t) = some o)
    (hc : ¬ (s.conts t).awaits (.mutexLock m)) (hc' : ¬ o.cont.awaits (.mutexLock m))
    (hmut : o.k.mutexes m = s.k.mutexes m)
    (hev : o.evs.filterMap (Event.lock m) = []) :
    LockStep sz m s (s.apply t o) (o.evs.filterMap (Event.lock m)) := by
  obtain ⟨haw, halive⟩ := h.outside ho hc hc'
  rw [hev]
  exact h.frame hmut haw halive

/-- The mutexes after the critical section of an unlock. -/
theorem hrtMutexUnlockCs_mutexes (sz : Sizing) (i t : ℕ) (k : Kernel) :
    ((hrtMutexUnlockCs sz i t k).1 = .refused ∧ (hrtMutexUnlockCs sz i t k).2.mutexes = k.mutexes) ∨
    ((k.mutexes i).locked = true ∧ (k.mutexes i).owner = t ∧
      ((∃ w, (hrtMutexUnlockCs sz i t k).1 = .handoff w ∧
        ((k.mutexes i).waitq.pop 256 sz.maxTasks).1 = some w ∧
        (hrtMutexUnlockCs sz i t k).2.mutexes = Function.update k.mutexes i
          ⟨true, w, ((k.mutexes i).waitq.pop 256 sz.maxTasks).2⟩) ∨
      ((hrtMutexUnlockCs sz i t k).1 = .released ∧
        ((k.mutexes i).waitq.pop 256 sz.maxTasks).1 = none ∧
        (hrtMutexUnlockCs sz i t k).2.mutexes = Function.update k.mutexes i
          ⟨false, noOwner, ((k.mutexes i).waitq.pop 256 sz.maxTasks).2⟩))) := by
  unfold hrtMutexUnlockCs mutexWaitqPop
  split_ifs with hctx hbad
  · exact Or.inl ⟨rfl, rfl⟩
  · exact Or.inl ⟨rfl, rfl⟩
  · rw [not_or, not_not, Bool.not_eq_false] at hbad
    refine Or.inr ⟨hbad.1, hbad.2, ?_⟩
    cases hp : ((k.mutexes i).waitq.pop 256 sz.maxTasks).1 with
    | some w => exact Or.inl ⟨w, rfl, rfl, hrtMakeReady_mutexes _ _ _⟩
    | none => exact Or.inr ⟨rfl, rfl, rfl⟩

/-- A try-lock takes a free mutex or changes no mutex. -/
theorem hrtMutexTryLock_mutexes (sz : Sizing) (i t : ℕ) (k : Kernel) :
    ((hrtMutexTryLock sz i t k).1 = 0 ∧ (k.mutexes i).locked = false ∧
      (hrtMutexTryLock sz i t k).2.mutexes = Function.update k.mutexes i
        { k.mutexes i with locked := true, owner := t }) ∨
    ((hrtMutexTryLock sz i t k).1 = -1 ∧ (hrtMutexTryLock sz i t k).2.mutexes = k.mutexes) := by
  unfold hrtMutexTryLock
  split_ifs with hctx hfree hrec
  · exact Or.inr ⟨rfl, rfl⟩
  · exact Or.inl ⟨rfl, hfree, rfl⟩
  · exact Or.inr ⟨rfl, rfl⟩
  · exact Or.inr ⟨rfl, rfl⟩

/-- Taking a free mutex `i`, seen from mutex `m`. -/
theorem LockInv.acquireAt (h : LockInv sz m s)
    (ho : nextAction sz port t call s.k (s.conts t) = some o)
    (hc : ¬ (s.conts t).awaits (.mutexLock m)) (hc' : ¬ o.cont.awaits (.mutexLock m)) {i : ℕ}
    (hfree : (s.k.mutexes i).locked = false)
    (hmut : o.k.mutexes = Function.update s.k.mutexes i
      { s.k.mutexes i with locked := true, owner := t })
    (hev : o.evs.filterMap (Event.lock m) = if i = m then [.acquired t, .returned t] else []) :
    LockStep sz m s (s.apply t o) (o.evs.filterMap (Event.lock m)) := by
  by_cases him : i = m
  · subst him
    obtain ⟨haw, halive⟩ := h.outside ho hc hc'
    rw [hev, if_pos rfl]
    refine h.acquire hfree ?_ haw hc halive
    show o.k.mutexes i = _
    rw [hmut, Function.update_self]
  · refine h.elsewhere ho hc hc' ?_ (by rw [hev, if_neg him])
    rw [hmut, Function.update_of_ne (Ne.symm him)]

/-- The critical section of an unlock of mutex `i`, seen from mutex `m`. -/
theorem LockInv.unlockAt (h : LockInv sz m s) (hr : sz.Representable)
    (hring : ∀ w, (s.k.ring w).WF sz.maxTasks)
    (ho : nextAction sz port t call s.k (s.conts t) = some o)
    (hc : ¬ (s.conts t).awaits (.mutexLock m)) (hc' : ¬ o.cont.awaits (.mutexLock m)) {i : ℕ}
    (hk : o.k = (hrtMutexUnlockCs sz i t s.k).2)
    (hev : o.evs.filterMap (Event.lock m) = if i = m then
      (match (hrtMutexUnlockCs sz i t s.k).1 with
        | .refused => []
        | .handoff w => [.unlocked t, .handoff w]
        | .released => [.unlocked t]) else []) :
    LockStep sz m s (s.apply t o) (o.evs.filterMap (Event.lock m)) := by
  rcases hrtMutexUnlockCs_mutexes sz i t s.k with
    ⟨hout, hmut⟩ | ⟨hlocked, howner, hcases⟩
  · refine h.elsewhere ho hc hc' (by rw [hk, hmut]) ?_
    rw [hev, hout, ite_self]
  · obtain ⟨hhead, htail⟩ := RingBuffer.pop_spec (hring (.mutex i)) hr.lt.le
    have hwaiters : ∀ {M : Mutex}, o.k.mutexes i = M →
        (s.apply t o).k.waiters sz (.mutex i) = M.waitq.toList sz.maxTasks := by
      rintro M rfl
      rfl
    by_cases him : i = m
    · subst him
      obtain ⟨haw, halive⟩ := h.outside ho hc hc'
      rw [hev, if_pos rfl]
      rcases hcases with ⟨w, hout, hpop, hmut⟩ | ⟨hout, hpop, hmut⟩
      · have hmi : o.k.mutexes i = ⟨true, w, ((s.k.mutexes i).waitq.pop 256 sz.maxTasks).2⟩ := by
          rw [hk, hmut, Function.update_self]
        obtain ⟨rest, hl⟩ := List.head?_eq_some_iff.mp (hhead.symm.trans hpop)
        rw [hout]
        refine h.handoff hlocked howner hl ?_ ?_ haw hc halive
        · rw [hwaiters hmi]
          refine htail.trans ?_
          rw [hl]
          rfl
        · show (o.k.mutexes i).locked = true ∧ (o.k.mutexes i).owner = w
          rw [hmi]
          exact ⟨rfl, rfl⟩
      · have hmi : o.k.mutexes i =
            ⟨false, noOwner, ((s.k.mutexes i).waitq.pop 256 sz.maxTasks).2⟩ := by
          rw [hk, hmut, Function.update_self]
        have hl : s.k.waiters sz (.mutex i) = [] :=
          List.head?_eq_none_iff.mp (hhead.symm.trans hpop)
        rw [hout]
        refine h.release hlocked howner hl ?_ ?_ haw hc halive
        · rw [hwaiters hmi]
          refine htail.trans ?_
          rw [show (s.k.ring (.mutex i)).toList sz.maxTasks = [] from hl]
          rfl
        · show (o.k.mutexes i).locked = false ∧ (o.k.mutexes i).owner = noOwner
          rw [hmi]
          exact ⟨rfl, rfl⟩
    · refine h.elsewhere ho hc hc' ?_ (by rw [hev, if_neg him])
      rcases hcases with ⟨w, -, -, hmut⟩ | ⟨-, -, hmut⟩
      · rw [hk, hmut, Function.update_of_ne (Ne.symm him)]
      · rw [hk, hmut, Function.update_of_ne (Ne.symm him)]

/-- The outcome of an action that is not about mutexes. -/
structure OffMutex (k : Kernel) (o : Outcome) : Prop where
  mutexes : o.k.mutexes = k.mutexes
  evs : ∀ m, o.evs.filterMap (Event.lock m) = []
  cont : ∀ m, ¬ o.cont.awaits (.mutexLock m)
  ok : o.cont.lockOk

/-- The calls on a mutex. -/
def Call.onMutex : Call → Prop
  | .mutexTryLock _ | .mutexLock _ | .mutexUnlock _ => True
  | _ => False

/-- One attempt of `hrt_queue_send` is not about mutexes. -/
theorem sendAttempt_offMutex (q : ℕ) (item : List UInt8) (k : Kernel) :
    OffMutex k (sendAttempt sz t q item k) := by
  simp only [sendAttempt]
  split
  · split <;> exact ⟨hrtQueueTrySendCs_frame.2, fun m => rfl, fun m => not_false, trivial⟩
  · exact ⟨hrtQueueTrySendCs_frame.2, fun m => rfl, fun m => not_false, trivial⟩

/-- One attempt of `hrt_queue_recv` is not about mutexes. -/
theorem recvAttempt_offMutex (q : ℕ) (k : Kernel) : OffMutex k (recvAttempt sz t q k) := by
  simp only [recvAttempt]
  split
  · split <;> exact ⟨hrtQueueTryRecvCs_frame.2, fun m => rfl, fun m => not_false, trivial⟩
  · exact ⟨hrtQueueTryRecvCs_frame.2, fun m => rfl, fun m => not_false, trivial⟩

/-- The second critical section of `hrt_sem_take` is not about mutexes. -/
theorem semTakeAction_offMutex (i : ℕ) (k : Kernel) : OffMutex k (semTakeAction sz t i k) := by
  simp only [semTakeAction]
  split
  · exact ⟨hrtSemTakeCs_frame.1, fun m => rfl, fun m => not_false, trivial⟩
  · exact ⟨hrtSemTakeCs_frame.1, fun m => rfl, fun m => by simp [Cont.awaits], trivial⟩

/-- The second critical section of `hrt_queue_send` is not about mutexes. -/
theorem queueSendAction_offMutex (q : ℕ) (item : List UInt8) (k : Kernel) :
    OffMutex k (queueSendAction sz t q item k) := by
  simp only [queueSendAction]
  split
  · rename_i code bytes w _
    refine ⟨hrtQueueSendCs_frame.2, fun m => ?_, fun m => not_false, trivial⟩
    cases w <;> rfl
  · exact ⟨hrtQueueSendCs_frame.2, fun m => rfl, fun m => by simp [Cont.awaits], trivial⟩

/-- The second critical section of `hrt_queue_recv` is not about mutexes. -/
theorem queueRecvAction_offMutex (q : ℕ) (k : Kernel) : OffMutex k (queueRecvAction sz t q k) := by
  simp only [queueRecvAction]
  split
  · rename_i code bytes w _
    refine ⟨hrtQueueRecvCs_frame.2, fun m => ?_, fun m => not_false, trivial⟩
    cases w <;> rfl
  · exact ⟨hrtQueueRecvCs_frame.2, fun m => rfl, fun m => by simp [Cont.awaits], trivial⟩

/-- A call that is not on a mutex is not about mutexes. -/
theorem issue_offMutex (sz : Sizing) (port : Port) (t : ℕ) (k : Kernel) (hcall : ¬ call.onMutex) :
    OffMutex k (issue sz port t k call) := by
  cases call with
  | createTask a =>
      exact ⟨(hrtCreateTask_objects sz port a k).mutexes, fun m => rfl, fun m => not_false, trivial⟩
  | yield =>
      refine ⟨(hrtYieldBody_objects sz t k).mutexes, fun m => rfl, fun m => ?_, trivial⟩
      simp [issue, Cont.awaits]
  | sleep ms =>
      refine ⟨rfl, fun m => rfl, fun m => ?_, trivial⟩
      simp [issue, Cont.awaits]
  | taskDelete =>
      simp only [issue]
      split
      · exact ⟨rfl, fun m => rfl, fun m => not_false, trivial⟩
      · exact ⟨rfl, fun m => rfl, fun m => by simp [Cont.awaits], trivial⟩
  | setPolicy p => exact ⟨rfl, fun m => rfl, fun m => not_false, trivial⟩
  | setDefaultTimeslice n => exact ⟨rfl, fun m => rfl, fun m => not_false, trivial⟩
  | semTryTake i =>
      simp only [issue]
      split <;> exact ⟨hrtSemTryTake_frame.1, fun m => rfl, fun m => not_false, trivial⟩
  | semTake i =>
      simp only [issue]
      split <;> exact ⟨hrtSemTryTake_frame.1, fun m => rfl, fun m => not_false, trivial⟩
  | semGive i =>
      simp only [issue]
      split
      · exact ⟨giveCommonCs_frame.1, fun m => rfl, fun m => not_false, trivial⟩
      · refine ⟨giveCommonCs_frame.1, fun m => ?_, fun m => not_false, trivial⟩
        simp only [giveEvents]
        split <;> rfl
  | mutexTryLock i => exact absurd trivial hcall
  | mutexLock i => exact absurd trivial hcall
  | mutexUnlock i => exact absurd trivial hcall
  | queueTrySend q item =>
      simp only [issue]
      split
      · split <;> exact ⟨hrtQueueTrySendCs_frame.2, fun m => rfl, fun m => not_false, trivial⟩
      · exact ⟨hrtQueueTrySendCs_frame.2, fun m => rfl, fun m => not_false, trivial⟩
  | queueSend q item => exact sendAttempt_offMutex q item k
  | queueTryRecv q =>
      simp only [issue]
      split
      · split <;> exact ⟨hrtQueueTryRecvCs_frame.2, fun m => rfl, fun m => not_false, trivial⟩
      · exact ⟨hrtQueueTryRecvCs_frame.2, fun m => rfl, fun m => not_false, trivial⟩
  | queueRecv q => exact recvAttempt_offMutex q k

/-- An action that is not about mutexes is no move of any lock. -/
theorem LockInv.off (h : LockInv sz m s)
    (ho : nextAction sz port t call s.k (s.conts t) = some o) (hc : ¬ (s.conts t).awaits (.mutexLock m))
    (hoff : OffMutex s.k o) :
    LockStep sz m s (s.apply t o) (o.evs.filterMap (Event.lock m)) ∧ o.cont.lockOk :=
  ⟨h.elsewhere ho hc (hoff.cont m) (by rw [hoff.mutexes]) (hoff.evs m), hoff.ok⟩

/-- **The first action of a call is a lock move.** -/
theorem issue_lockStep (h : LockInv sz m s) (hr : sz.Representable)
    (hring : ∀ w, (s.k.ring w).WF sz.maxTasks) (hcont : s.conts t = .user)
    (ho : nextAction sz port t call s.k (s.conts t) = some o) :
    LockStep sz m s (s.apply t o) (o.evs.filterMap (Event.lock m)) ∧ o.cont.lockOk := by
  have hc : ¬ (s.conts t).awaits (.mutexLock m) := by rw [hcont]; exact not_false
  have hissue : o = { issue sz port t s.k call with
      evs := .call t call :: (issue sz port t s.k call).evs } := by
    rw [hcont] at ho
    exact (Option.some.inj ho).symm
  have helse : ¬ call.onMutex →
      LockStep sz m s (s.apply t o) (o.evs.filterMap (Event.lock m)) ∧ o.cont.lockOk := by
    intro hcall
    obtain ⟨hmut, hevs, hcon, hok⟩ := issue_offMutex sz port t s.k hcall
    subst hissue
    exact h.off ho hc ⟨hmut, fun m => hevs m, hcon, hok⟩
  cases call with
  | mutexTryLock i =>
      subst hissue
      rcases hrtMutexTryLock_mutexes sz i t s.k with
        ⟨h0, hfree, hmut⟩ | ⟨h1, hmut⟩
      · simp only [issue, if_pos h0] at ho ⊢
        refine ⟨h.acquireAt ho hc not_false hfree hmut ?_, trivial⟩
        by_cases him : i = m <;> simp [Event.lock, List.filterMap_cons, him]
      · simp only [issue, h1] at ho ⊢
        refine h.off ho hc ⟨hmut, fun m => ?_, fun m => not_false, trivial⟩
        simp [Event.lock, List.filterMap_cons]
  | mutexLock i =>
      subst hissue
      by_cases hctx : sz.maxTasks ≤ t
      · simp only [issue, if_pos hctx] at ho ⊢
        refine h.off ho hc ⟨rfl, fun m => ?_, fun m => not_false, trivial⟩
        simp [Event.lock, List.filterMap_cons]
      · rcases hrtMutexTryLock_mutexes sz i t s.k with
          ⟨h0, hfree, hmut⟩ | ⟨h1, hmut⟩
        · simp only [issue, if_neg hctx, if_pos h0] at ho ⊢
          refine ⟨h.acquireAt ho hc not_false hfree hmut ?_, trivial⟩
          by_cases him : i = m <;> simp [Event.lock, List.filterMap_cons, him]
        · simp only [issue, if_neg hctx, h1] at ho ⊢
          exact h.off ho hc ⟨hmut, fun m => rfl, fun m => not_false, trivial⟩
  | mutexUnlock i =>
      subst hissue
      cases hout : (hrtMutexUnlockCs sz i t s.k).1 with
      | refused =>
          simp only [issue, hout] at ho ⊢
          refine ⟨h.unlockAt hr hring ho hc not_false (i := i) rfl ?_, trivial⟩
          rw [hout]
          by_cases him : i = m <;> simp [Event.lock, List.filterMap_cons]
      | handoff w =>
          simp only [issue, hout] at ho ⊢
          refine ⟨h.unlockAt hr hring ho hc not_false (i := i) rfl ?_, trivial⟩
          rw [hout]
          by_cases him : i = m <;> simp [Event.lock, List.filterMap_cons, him]
      | released =>
          simp only [issue, hout] at ho ⊢
          refine ⟨h.unlockAt hr hring ho hc not_false (i := i) rfl ?_, trivial⟩
          rw [hout]
          by_cases him : i = m <;> simp [Event.lock, List.filterMap_cons, him]
  | _ => exact helse not_false

/-- The second critical section of `hrt_mutex_lock` is a lock move: it takes the mutex, is refused, or
parks the caller. -/
theorem mutexLockAction_lockStep (h : LockInv sz m s) (hr : sz.Representable)
    (hring : ∀ w, (s.k.ring w).WF sz.maxTasks) (hpark : Parkable sz t s.k) {i : ℕ}
    (hcont : s.conts t = .mutexLock i)
    (ho : nextAction sz port t call s.k (s.conts t) = some o) :
    LockStep sz m s (s.apply t o) (o.evs.filterMap (Event.lock m)) ∧ o.cont.lockOk := by
  have hc : ¬ (s.conts t).awaits (.mutexLock m) := by rw [hcont]; exact not_false
  have hout : o = mutexLockAction sz t i s.k := by
    rw [hcont] at ho
    exact (Option.some.inj ho).symm
  subst hout
  by_cases hfree : (s.k.mutexes i).locked = false
  · simp only [mutexLockAction, hrtMutexLockCs, if_pos hfree] at ho ⊢
    refine ⟨h.acquireAt ho hc not_false hfree rfl ?_, trivial⟩
    by_cases him : i = m <;> simp [Event.lock, him]
  by_cases hrec : (s.k.mutexes i).owner = t
  · simp only [mutexLockAction, hrtMutexLockCs, if_neg hfree, if_pos hrec] at ho ⊢
    refine h.off ho hc ⟨rfl, fun m => ?_, fun m => not_false, trivial⟩
    simp [Event.lock]
  simp only [mutexLockAction, hrtMutexLockCs, if_neg hfree, if_neg hrec] at ho ⊢
  refine ⟨?_, rfl⟩
  by_cases him : i = m
  · subst him
    obtain ⟨haw, halive⟩ := awaits_others h.alive ho
    have hev : List.filterMap (Event.lock i) [.mutexParked i t] = [.parked t] := by
      simp [Event.lock]
    rw [hev]
    refine h.park hr hpark (hring (.mutex i)) (Bool.of_not_eq_false hfree) hrec ?_ haw ?_ ?_
    · exact Function.update_self _ _ _
    · rw [Sys.apply_conts_self]
      rfl
    · intro u hu
      by_cases hut : u = t
      · subst hut
        simp [Sys.apply]
      · exact halive u hut ((haw u hut).mp hu)
  · refine h.elsewhere ho hc ?_ ?_ ?_
    · intro hcon
      injection hcon with hcall
      injection hcall with hi
      exact him hi
    · exact Function.update_of_ne (Ne.symm him) _ _
    · simp [Event.lock, him]

/-- **The return from `hrt_port_yield_to_scheduler`**: a lock call that was parked on the mutex has been
handed it and returns; anything else is not about it. -/
theorem resume_lockStep (h : LockInv sz m s) (hok : (s.conts t).lockOk) (hinv : PartInv sz s) {a : After}
    (hcont : s.conts t = .resumed a) (hnb : s.k.stateOf t ≠ .blocked)
    (ho : nextAction sz port t call s.k (s.conts t) = some (resume sz t s.k a)) :
    LockStep sz m s (s.apply t (resume sz t s.k a))
      ((resume sz t s.k a).evs.filterMap (Event.lock m)) ∧ (resume sz t s.k a).cont.lockOk := by
  rw [hcont] at hok
  by_cases haw : (s.conts t).awaits (.mutexLock m)
  · obtain rfl : a = .ret (.mutexLock m) 0 := by rwa [hcont] at haw
    have hev : (resume sz t s.k (.ret (.mutexLock m) 0)).evs.filterMap (Event.lock m) =
        [.returned t] := by
      simp [resume, Event.lock]
    rw [hev]
    obtain ⟨hoth, halive⟩ := awaits_others h.alive ho
    refine ⟨h.ret rfl haw (fun hmem => hnb (hinv.part.blocked_of_mem hmem)) hoth ?_ halive, trivial⟩
    rw [Sys.apply_conts_self]
    exact not_false
  · cases a with
    | ret c' code =>
        -- a lock call that waits to return here is one on another mutex
        refine ⟨h.elsewhere ho haw not_false rfl ?_, trivial⟩
        rw [hcont] at haw
        cases c' with
        | mutexLock i =>
            obtain rfl : code = 0 := hok
            have him : i ≠ m := fun him => haw (by rw [him]; rfl)
            simp [resume, Event.lock, him]
        | mutexTryLock i => exact hok.elim
        | _ => rfl
    | sendAgain q item => exact h.off ho haw (sendAttempt_offMutex q item s.k)
    | recvAgain q => exact h.off ho haw (recvAttempt_offMutex q s.k)

/-- **Every action of a task is a lock move**, if a parked task is not blocked any more when its call
returns. -/
theorem task_lockStep (h : LockInv sz m s) (hr : sz.Representable) (hok : (s.conts t).lockOk)
    (hinv : PartInv sz s) (hwait : ∀ a, s.conts t = .resumed a → s.k.stateOf t ≠ .blocked)
    (ho : nextAction sz port t call s.k (s.conts t) = some o) :
    LockStep sz m s (s.apply t o) (o.evs.filterMap (Event.lock m)) ∧ o.cont.lockOk := by
  have hring := hinv.part.wf
  -- what the action is, from the continuation
  have hout : ∀ {c : Cont} {o' : Outcome}, s.conts t = c → nextAction sz port t call s.k c = some o' →
      o = o' := by
    intro c o' hc ho'
    rw [hc] at ho
    exact Option.some.inj (ho.symm.trans ho')
  cases hcont : s.conts t with
  | none => rw [hcont] at ho; exact absurd ho (by simp [nextAction])
  | hop a => rw [hcont] at ho; exact absurd ho (by simp [nextAction])
  | user => exact issue_lockStep h hr hring hcont ho
  | yield a =>
      have hc : ¬ (s.conts t).awaits (.mutexLock m) := by rw [hcont]; exact not_false
      obtain rfl := hout hcont rfl
      rw [hcont] at hok
      refine h.off ho hc ⟨(hrtYieldBody_objects sz t s.k).mutexes, fun m => rfl, ?_, ?_⟩
      · rintro m rfl
        exact hok
      · cases a with
        | ret c' code => cases c' <;> first | exact hok.elim | exact hok
        | sendAgain q item => trivial
        | recvAgain q => trivial
  | pend a =>
      -- the call stays where it is, parked or not
      obtain rfl := hout hcont rfl
      rw [hcont] at hok
      refine ⟨h.frame rfl (fun u => ?_) fun u hu => h.alive u hu, hok⟩
      by_cases hut : u = t
      · rw [hut, Sys.apply_conts_self, hcont]
        exact Iff.rfl
      · exact (awaits_others h.alive ho).1 u hut
  | resumed a =>
      obtain rfl := hout hcont rfl
      exact resume_lockStep h hok hinv hcont (hwait a hcont) ho
  | mutexLock i =>
      exact mutexLockAction_lockStep h hr hring (hinv.parkable t (by rw [hcont]; rfl)) hcont ho
  | semTake i =>
      obtain rfl := hout hcont rfl
      exact h.off ho (by rw [hcont]; exact not_false) (semTakeAction_offMutex i s.k)
  | queueSend q item =>
      obtain rfl := hout hcont rfl
      exact h.off ho (by rw [hcont]; exact not_false) (queueSendAction_offMutex q item s.k)
  | queueRecv q =>
      obtain rfl := hout hcont rfl
      exact h.off ho (by rw [hcont]; exact not_false) (queueRecvAction_offMutex q s.k)

end Task

/-! ## Every step is a lock move -/

section Refinement

variable {sz : Sizing} {port : Port} {m : ℕ} {s s' : Sys}

/-- What the tasks inside lock calls have in common with every mutex. -/
structure LockInvs (sz : Sizing) (s : Sys) : Prop where
  locks : ∀ m, LockInv sz m s
  ok : ∀ t, (s.conts t).lockOk

/-- A fresh context is not inside a lock call. -/
theorem spawned_lockOk (h : ∀ t, (s.conts t).lockOk) (id : Option ℕ) (t : ℕ) :
    (s.spawned id t).lockOk := by
  rcases s.spawned_cases id t with hs | ⟨-, hs⟩
  · rw [hs]
    exact h t
  · rw [hs]
    trivial

/-- ISR operations do not touch mutexes and emit no lock event. -/
theorem isr_offMutex (sz : Sizing) (k : Kernel) (op : Isr) :
    (isrAction sz k op).2.1.mutexes = k.mutexes ∧
    ∀ m, (isrAction sz k op).2.2.filterMap (Event.lock m) = [] := by
  have hpend : ∀ (w : Option ℕ) (k' : Kernel), (pendIfWoken w k').mutexes = k'.mutexes := by
    intro w k'
    cases w <;> rfl
  cases op with
  | semGive i =>
      refine ⟨(hpend _ _).trans giveCommonCs_frame.1, fun m => ?_⟩
      simp only [isrAction, giveEvents]
      split
      · rfl
      · split <;> rfl
  | queueTrySend q item =>
      refine ⟨(hpend _ _).trans hrtQueueTrySendCs_frame.2, fun m => ?_⟩
      simp only [isrAction]
      split
      · cases (hrtQueueTrySendFromIsrCs sz q item k).2.1 <;> rfl
      · rfl
  | queueTryRecv q =>
      refine ⟨(hpend _ _).trans hrtQueueTryRecvCs_frame.2, fun m => ?_⟩
      simp only [isrAction]
      split
      · cases (hrtQueueTryRecvFromIsrCs sz q k).2.2.1 <;> rfl
      · rfl

/-- A step that touches no mutex and no context, and after which every live task still lives. -/
theorem LockInvs.frame (h : LockInvs sz s) (hmut : s'.k.mutexes = s.k.mutexes) (id : Option ℕ)
    (hconts : s'.conts = s.spawned id) (hid : ∀ i, id = some i → s.k.stateOf i = .unused)
    (halive : ∀ u, s'.k.stateOf u = .unused → s.k.stateOf u = .unused) :
    (∀ m, LockStep sz m s s' []) ∧ ∀ t, (s'.conts t).lockOk := by
  refine ⟨fun m => (h.locks m).frame (by rw [hmut]) (fun u => ?_) fun u hu hun => ?_, fun t => ?_⟩
  · rw [hconts]
    exact awaits_spawned (h.locks m).alive hid u
  · exact (h.locks m).alive u hu (halive u hun)
  · rw [hconts]
    exact spawned_lockOk h.ok id t

/-- **Mutexes refine handoff locks**: every step of the interleaving machine in which parked tasks wait
is, at every mutex, a move of its lock that emits the logged events. -/
theorem mutex_refines (hr : sz.Representable) {a : Interleave.Action} (hinv : PartInv sz s)
    (h : LockInvs sz s) (hwait : WaitsParked s a) (hstep : Interleave.step sz port s a = some s') :
    ∃ es, s'.log = s.log ++ es ∧ (∀ m, LockStep sz m s s' (es.filterMap (Event.lock m))) ∧
      ∀ t, (s'.conts t).lockOk := by
  cases a with
  | main c =>
      obtain rfl := Option.some.inj hstep
      cases c with
      | createTask a =>
          exact ⟨[], (List.append_nil _).symm,
            h.frame (hrtCreateTask_objects sz port a s.k).mutexes _ rfl
              (fun i hi => (hrtCreateTask_some hi).2) fun u hu => hrtCreateTask_unused hu⟩
      | setPolicy p =>
          exact ⟨[], (List.append_nil _).symm, h.frame rfl none rfl (by simp) fun u hu => hu⟩
      | setDefaultTimeslice n =>
          exact ⟨[], (List.append_nil _).symm, h.frame rfl none rfl (by simp) fun u hu => hu⟩
  | isr op =>
      obtain rfl := Option.some.inj hstep
      obtain ⟨hmut, hev⟩ := isr_offMutex sz s.k op
      have hmut' : (s.isr sz op).k.mutexes = s.k.mutexes := hmut
      have hf := h.frame hmut' none rfl (by simp) fun u hu => ?_
      · exact ⟨_, rfl, fun m => by rw [hev m]; exact hf.1 m, hf.2⟩
      · exact isr_unused hu
  | tick =>
      obtain rfl := Option.some.inj hstep
      exact ⟨[], (List.append_nil _).symm, h.frame (Interleave.tickIsr_objects sz s.k).mutexes
        none rfl (by simp) fun u hu => (hrtTickIsr_unused_iff sz s.k u).mp hu⟩
  | sched op =>
      obtain rfl := Option.some.inj hstep
      refine ⟨[], (List.append_nil _).symm, h.frame (Interleave.SchedOp.run_objects sz s.k op).mutexes
        none rfl (by simp) fun u hu => ?_⟩
      rwa [Interleave.SchedOp.run_stateOf] at hu
  | task t c =>
      -- making `t` current touches nothing a lock reads
      have hcur : LockInvs sz (s.setCurrent t) := ⟨fun m =>
        ⟨(h.locks m).wf, (h.locks m).waiting, (h.locks m).awaiting, (h.locks m).alive⟩, h.ok⟩
      rcases Interleave.step_task hstep with ⟨o, hact, ho, rfl⟩ | ⟨x, hx, rfl⟩
      · have hmove := fun m => task_lockStep (s := s.setCurrent t) (hcur.locks m) hr (h.ok t)
          (hinv.setCurrent t) hwait.not_blocked ho
        refine ⟨o.evs, rfl, fun m => (hmove m).1, fun u => ?_⟩
        by_cases hut : u = t
        · rw [hut, Sys.apply_conts_self]
          exact (hmove 0).2
        · rw [Sys.apply_conts_of_ne _ hut]
          exact spawned_lockOk h.ok o.spawn u
      · have haw : ∀ u, (((s.setCurrent t).land t x).conts u = (s.conts u)) ∨
            (u = t ∧ ((s.setCurrent t).land t x).conts u = .resumed x) := by
          intro u
          by_cases hut : u = t
          · exact Or.inr ⟨hut, by rw [hut, Sys.land_conts_self]⟩
          · exact Or.inl (Sys.land_conts_of_ne _ hut _)
        refine ⟨[], (List.append_nil _).symm, fun m => (h.locks m).frame rfl (fun u => ?_)
          (fun u hu => (h.locks m).alive u hu), fun u => ?_⟩
        · rcases haw u with hu | ⟨rfl, hu⟩
          · rw [hu]
          · rw [hu, hx]
            exact Iff.rfl
        · rcases haw u with hu | ⟨rfl, hu⟩
          · rw [hu]
            exact h.ok u
          · have hok := h.ok u
            rw [hx] at hok
            rw [hu]
            exact hok

end Refinement

end HardRT
