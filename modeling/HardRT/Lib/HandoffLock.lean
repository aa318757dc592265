import HardRT.Lib.Machine
import Mathlib.Data.List.Nodup

/-! # A lock passed on by handoff

A lock has at most one owner. A task that finds it taken waits in arrival order; unlocking passes
ownership to the longest waiting task, which learns of it later, when its lock call returns. `pending`
is the owner whose lock call has not returned yet.

* `HandoffLock.Step` — the moves, with the events they emit.
* `HandoffLock.Protocol` — what every trace satisfies.
* `HandoffLock.exclusive` — from the return of a lock call to the unlock nobody else is let in. -/

namespace Lib

/-- A lock; `waiters` are the waiting tasks, longest waiting first. -/
structure HandoffLock (τ : Type*) where
  owner : Option τ
  pending : Option τ
  waiters : List τ

/-- What happens at a lock. -/
inductive LockEvent (τ : Type*)
  /-- The lock was free and is now the task's. -/
  | acquired (t : τ)
  /-- The task started to wait. -/
  | parked (t : τ)
  /-- The owner gave the lock up. -/
  | unlocked (t : τ)
  /-- Ownership passed to a waiting task. -/
  | handoff (t : τ)
  /-- The task's lock call returned successfully. -/
  | returned (t : τ)
  deriving DecidableEq

namespace HandoffLock

variable {τ : Type*}

/-- **The moves of a lock.** -/
inductive Step : HandoffLock τ → List (LockEvent τ) → HandoffLock τ → Prop
  /-- Nothing happens at this lock. -/
  | idle (c : HandoffLock τ) : Step c [] c
  /-- The lock is free: the call takes it and returns. -/
  | acquire {c : HandoffLock τ} (t : τ) (h : c.owner = none) :
      Step c [.acquired t, .returned t] { c with owner := some t }
  /-- The lock is another task's: the call waits. -/
  | park {c : HandoffLock τ} {o t : τ} (h : c.owner = some o) (hne : o ≠ t) (ht : t ∉ c.waiters) :
      Step c [.parked t] { c with waiters := c.waiters ++ [t] }
  /-- The owner unlocks and the longest waiting task is the next owner. -/
  | handoff {c : HandoffLock τ} {t w : τ} {rest : List τ} (h : c.owner = some t)
      (hp : c.pending = none) (hw : c.waiters = w :: rest) :
      Step c [.unlocked t, .handoff w] { owner := some w, pending := some w, waiters := rest }
  /-- The owner unlocks and nobody waits. -/
  | release {c : HandoffLock τ} {t : τ} (h : c.owner = some t) (hp : c.pending = none)
      (hw : c.waiters = []) : Step c [.unlocked t] { c with owner := none }
  /-- The call of the next owner returns. -/
  | ret {c : HandoffLock τ} {t : τ} (h : c.pending = some t) :
      Step c [.returned t] { c with pending := none }

/-! ## Reading a log -/

/-- Owner and pending owner after one more event. -/
def holderStep (s : Option τ × Option τ) : LockEvent τ → Option τ × Option τ
  | .acquired t => (some t, some t)
  | .handoff t => (some t, some t)
  | .returned _ => (s.1, none)
  | .unlocked _ => (none, none)
  | .parked _ => s

/-- The owner and the pending owner a log leads to. -/
def holder (l : List (LockEvent τ)) : Option τ × Option τ := l.foldl holderStep (none, none)

/-- The tasks that had to wait, in order. -/
def parks (l : List (LockEvent τ)) : List τ :=
  l.filterMap fun e => match e with
    | .parked t => some t
    | _ => none

/-- The tasks that were passed the lock, in order. -/
def handoffs (l : List (LockEvent τ)) : List τ :=
  l.filterMap fun e => match e with
    | .handoff t => some t
    | _ => none

@[simp] theorem holder_append (l es : List (LockEvent τ)) :
    holder (l ++ es) = es.foldl holderStep (holder l) := by
  simp [holder]

@[simp] theorem parks_append (l es : List (LockEvent τ)) : parks (l ++ es) = parks l ++ parks es :=
  List.filterMap_append

@[simp] theorem handoffs_append (l es : List (LockEvent τ)) :
    handoffs (l ++ es) = handoffs l ++ handoffs es :=
  List.filterMap_append

/-- **What each event requires of the log before it.** -/
def Rule (l : List (LockEvent τ)) : LockEvent τ → Prop
  | .acquired _ => (holder l).1 = none ∧ parks l = handoffs l
  | .parked t => (holder l).1 ≠ none ∧ (holder l).1 ≠ some t
  | .unlocked t => holder l = (some t, none)
  | .handoff t => (holder l).1 = none ∧ ∃ rest, parks l = handoffs l ++ t :: rest
  | .returned t => holder l = (some t, some t)

/-- **The protocol**, as an invariant of the traces of a lock that starts free. -/
structure Protocol (l : List (LockEvent τ)) (c : HandoffLock τ) : Prop where
  holder_eq : holder l = (c.owner, c.pending)
  free : c.owner = none → c.pending = none ∧ c.waiters = []
  pending_owner : ∀ t, c.pending = some t → c.owner = some t
  owner_not_waiting : ∀ t, c.owner = some t → t ∉ c.waiters
  nodup : c.waiters.Nodup
  fifo : parks l = handoffs l ++ c.waiters
  rule : Always Rule l

/-- A lock nobody has ever used follows the protocol. -/
theorem Protocol.initial {c : HandoffLock τ} (ho : c.owner = none) (hp : c.pending = none)
    (hw : c.waiters = []) : Protocol [] c where
  holder_eq := by rw [ho, hp]; rfl
  free _ := ⟨hp, hw⟩
  pending_owner t ht := by rw [hp] at ht; exact absurd ht (by simp)
  owner_not_waiting t ht := by rw [ho] at ht; exact absurd ht (by simp)
  nodup := by rw [hw]; exact List.nodup_nil
  fifo := by rw [hw]; rfl
  rule := always_nil

/-- **Every move keeps the protocol.** -/
theorem Protocol.step {l es : List (LockEvent τ)} {y z : HandoffLock τ} (h : Protocol l y)
    (hs : Step y es z) : Protocol (l ++ es) z := by
  have hfifo := h.fifo
  cases hs with
  | idle => rwa [List.append_nil]
  | acquire t hfree =>
      obtain ⟨hpend, hwait⟩ := h.free hfree
      rw [hwait, List.append_nil] at hfifo
      refine ⟨?_, by simp, ?_, ?_, h.nodup, ?_, always_append.mpr ⟨h.rule, ?_⟩⟩
      · simp [holderStep, hpend]
      · intro u hu
        rw [hpend] at hu
        exact absurd hu (by simp)
      · intro u _
        rw [hwait]
        simp
      · simp [parks, handoffs] at hfifo ⊢
        rw [hfifo, hwait, List.append_nil]
      · refine ⟨⟨?_, hfifo⟩, ?_, trivial⟩
        · rw [h.holder_eq, hfree]
        · simp [Rule, holderStep]
  | @park o t howner hne ht =>
      refine ⟨?_, ?_, h.pending_owner, ?_, ?_, ?_, always_append.mpr ⟨h.rule, ?_, trivial⟩⟩
      · simpa [holderStep] using h.holder_eq
      · intro hnone
        exact absurd (howner.symm.trans hnone) (by simp)
      · intro u hu
        have huo : u = o := Option.some.inj (hu.symm.trans howner)
        rw [List.mem_append, not_or, List.mem_singleton]
        exact ⟨h.owner_not_waiting u hu, fun hut => hne (huo ▸ hut)⟩
      · refine List.nodup_append.mpr ⟨h.nodup, List.nodup_singleton t, fun a ha b hb => ?_⟩
        rw [List.mem_singleton.mp hb]
        rintro rfl
        exact ht ha
      · rw [parks_append, handoffs_append, hfifo]
        simp [parks, handoffs]
      · show (holder l).1 ≠ none ∧ (holder l).1 ≠ some t
        rw [h.holder_eq, howner]
        exact ⟨by simp, fun heq => hne (Option.some.inj heq)⟩
  | @handoff t w rest howner hpend hwait =>
      obtain ⟨hnot, hnd⟩ := List.nodup_cons.mp (hwait ▸ h.nodup)
      rw [hwait] at hfifo
      refine ⟨?_, by simp, ?_, ?_, hnd, ?_, always_append.mpr ⟨h.rule, ?_⟩⟩
      · simp [holderStep]
      · intro u hu
        exact hu
      · intro u hu
        exact Option.some.inj hu ▸ hnot
      · rw [parks_append, handoffs_append, hfifo]
        simp [parks, handoffs]
      · refine ⟨?_, ⟨?_, rest, ?_⟩, trivial⟩
        · show holder l = (some t, none)
          rw [h.holder_eq, howner, hpend]
        · simp [holderStep]
        · rw [parks_append, handoffs_append, hfifo]
          simp [parks, handoffs]
  | @release t howner hpend hwait =>
      refine ⟨?_, fun _ => ⟨hpend, hwait⟩, ?_, by simp, h.nodup, ?_,
        always_append.mpr ⟨h.rule, ?_, trivial⟩⟩
      · simp [holderStep, hpend]
      · intro u hu
        exact absurd (hpend.symm.trans hu) (by simp)
      · rw [parks_append, handoffs_append, hfifo]
        simp [parks, handoffs]
      · show holder l = (some t, none)
        rw [h.holder_eq, howner, hpend]
  | @ret t hpend =>
      have howner := h.pending_owner t hpend
      refine ⟨?_, ?_, by simp, h.owner_not_waiting, h.nodup, ?_,
        always_append.mpr ⟨h.rule, ?_, trivial⟩⟩
      · simp [holderStep, h.holder_eq]
      · intro hnone
        exact absurd (howner.symm.trans hnone) (by simp)
      · rw [parks_append, handoffs_append, hfifo]
        simp [parks, handoffs]
      · show holder l = (some t, some t)
        rw [h.holder_eq, howner, hpend]

/-- Every trace of a lock that starts free follows the protocol. -/
theorem protocol_of_trace {c c' : HandoffLock τ} {l : List (LockEvent τ)} (ho : c.owner = none)
    (hp : c.pending = none) (hw : c.waiters = []) (h : Trace Step c l c') : Protocol l c' :=
  Trace.invariant (I := Protocol) (Protocol.initial ho hp hw) (fun _ _ _ _ hI hs => hI.step hs) h

/-- **Exclusion.** After the lock call of `t` has returned and until `t` unlocks, `t` is the owner and
nothing happens at the lock but further tasks starting to wait: no lock call returns, nobody acquires
the lock and nobody unlocks it. -/
theorem exclusive {l₁ l₂ : List (LockEvent τ)} {t : τ}
    (h : Always Rule (l₁ ++ .returned t :: l₂)) (hun : .unlocked t ∉ l₂) :
    holder (l₁ ++ .returned t :: l₂) = (some t, none) ∧ ∀ e ∈ l₂, ∃ u, e = .parked u := by
  -- the log after the return is read from its front, with `t` as the owner all along
  suffices hgen : ∀ (l₂ l : List (LockEvent τ)), holder l = (some t, none) → AlwaysFrom Rule l l₂ →
      .unlocked t ∉ l₂ → holder (l ++ l₂) = (some t, none) ∧ ∀ e ∈ l₂, ∃ u, e = .parked u by
    obtain ⟨hl, hret, hrest⟩ := always_append.mp h
    rw [List.append_cons]
    refine hgen l₂ (l₁ ++ [.returned t]) ?_ hrest hun
    have hret' : holder l₁ = (some t, some t) := hret
    simp [holderStep, hret']
  clear h hun l₁ l₂
  intro l₂
  induction l₂ with
  | nil =>
      intro l hl _ _
      rw [List.append_nil]
      exact ⟨hl, fun e he => absurd he List.not_mem_nil⟩
  | cons e l₂ ih =>
      intro l hl hall hun
      obtain ⟨he, hrest⟩ := hall
      have hun' : .unlocked t ∉ l₂ := fun hm => hun (List.mem_cons_of_mem _ hm)
      -- with `t` the returned owner, only the start of a wait is allowed
      obtain ⟨u, rfl⟩ : ∃ u, e = .parked u := by
        cases e with
        | acquired u => exact absurd (hl ▸ he.1) (by simp)
        | parked u => exact ⟨u, rfl⟩
        | unlocked u =>
            have hu : (some t, none) = (some u, (none : Option τ)) := hl.symm.trans he
            obtain rfl : t = u := Option.some.inj (Prod.mk.inj hu).1
            exact absurd List.mem_cons_self hun
        | handoff u => exact absurd (hl ▸ he.1) (by simp)
        | returned u =>
            have hu : (some t, (none : Option τ)) = (some u, some u) := hl.symm.trans he
            exact absurd (Prod.mk.inj hu).2 (by simp)
      obtain ⟨hhold, hparks⟩ := ih (l ++ [.parked u]) (by simp [holderStep, hl]) hrest hun'
      refine ⟨by rw [List.append_cons]; exact hhold, fun e he' => ?_⟩
      rcases List.mem_cons.mp he' with rfl | hmem
      · exact ⟨u, rfl⟩
      · exact hparks e hmem

end HandoffLock

end Lib
