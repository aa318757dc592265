import HardRT.Core.Types
import HardRT.Lib.Partition
import Mathlib.Data.Nat.Find

/-! # Ready queues

`rq_push`, `rq_pop` and the selection function `hrt__pick_next_ready` of `src/core/hardrt_core.c`, with
two descriptions of what the queues hold:

* `ReadyWF` — every ring is well formed; enough to know what a pick returns (`pickNextReady_spec`).
* `ReadySet sz k Q` — the queues hold exactly the ids satisfying `Q`, each once and in the queue of its
  own priority. `ReadySet.push` and `ReadySet.pick` say how a push and a pick move `Q`; every
  ready-set result of the ports is an instance at its own `Q`. -/

namespace HardRT

open Lib

/-! ## The queue helpers -/

/-- `rq_push`: append `id` to the ready queue of priority `p`, or latch an error and do nothing when
the priority is out of range or the ring is full. -/
def rqPush (sz : Sizing) (p id : ℕ) (k : Kernel) : Kernel :=
  if sz.maxPrio ≤ p then k.hrtError .invalidPrio
  else if sz.maxTasks ≤ (k.rq p).count then k.hrtError .rqOverflow
  else k.setRq p ((k.rq p).put 256 sz.maxTasks (id % 256))

/-- `rq_pop`: remove the head of the ready queue of priority `p`; `none` is `-1`. -/
def rqPop (sz : Sizing) (p : ℕ) (k : Kernel) : Option ℕ × Kernel :=
  (((k.rq p).pop 256 sz.maxTasks).1, k.setRq p ((k.rq p).pop 256 sz.maxTasks).2)

/-- The loop of `hrt__pick_next_ready` over the priorities still to try. -/
def pickLoop (sz : Sizing) : List ℕ → Kernel → ℕ × Kernel
  | [], k => (sz.idleId, k)
  | p :: ps, k =>
      match rqPop sz p k with
      | (some id, k') => (id, k')
      | (none, k') => pickLoop sz ps k'

/-- `hrt__pick_next_ready`: pop the first non-empty ready queue; `HRT_IDLE_ID` if all are empty. -/
def hrtPickNextReady (sz : Sizing) (k : Kernel) : ℕ × Kernel :=
  pickLoop sz (List.range sz.maxPrio) k

/-! ## Accepted and refused pushes -/

/-- `rq_push(p, id)` gets past its checks. -/
def RqAccepts (sz : Sizing) (k : Kernel) (p : ℕ) : Prop :=
  p < sz.maxPrio ∧ (k.rq p).count < sz.maxTasks

instance (sz : Sizing) (k : Kernel) (p : ℕ) : Decidable (RqAccepts sz k p) :=
  inferInstanceAs (Decidable (_ ∧ _))

/-- An accepted push stores at the tail and advances. -/
theorem rqPush_of_accepts {sz : Sizing} {k : Kernel} {p : ℕ} (h : RqAccepts sz k p) (id : ℕ) :
    rqPush sz p id k = k.setRq p ((k.rq p).put 256 sz.maxTasks (id % 256)) := by
  unfold rqPush
  rw [if_neg (Nat.not_le.mpr h.1), if_neg (Nat.not_le.mpr h.2)]

/-- A refused push leaves the rings alone. -/
theorem rqPush_rq_of_not_accepts {sz : Sizing} {k : Kernel} {p : ℕ} (h : ¬ RqAccepts sz k p) (id : ℕ) :
    (rqPush sz p id k).rq = k.rq := by
  unfold rqPush
  split_ifs with h1 h2
  · rfl
  · rfl
  · exact absurd ⟨Nat.not_le.mp h1, Nat.not_le.mp h2⟩ h

/-- What a push does to the rings depends on the rings alone. -/
theorem rqPush_rq_congr {sz : Sizing} {k k' : Kernel} (h : k'.rq = k.rq) (p id : ℕ) :
    (rqPush sz p id k').rq = (rqPush sz p id k).rq := by
  unfold rqPush
  rw [h]
  split_ifs
  · exact h
  · exact h
  · simp only [Kernel.setRq, h]

/-- What a call `rq_push(p, id)` appends, and to which queue. -/
def rqAccepted (sz : Sizing) (k : Kernel) (p id : ℕ) : List (ℕ × ℕ) :=
  if RqAccepts sz k p then [(p, id % 256)] else []

/-! ## Frames -/

section Frames

variable (sz : Sizing) (p id : ℕ) (k : Kernel)

@[simp] theorem rqPush_tcbs : (rqPush sz p id k).tcbs = k.tcbs := by
  unfold rqPush; split_ifs <;> rfl

@[simp] theorem rqPush_current : (rqPush sz p id k).current = k.current := by
  unfold rqPush; split_ifs <;> rfl

@[simp] theorem rqPush_tick : (rqPush sz p id k).tick = k.tick := by
  unfold rqPush; split_ifs <;> rfl

@[simp] theorem rqPush_tickHz : (rqPush sz p id k).tickHz = k.tickHz := by
  unfold rqPush; split_ifs <;> rfl

@[simp] theorem rqPush_policy : (rqPush sz p id k).policy = k.policy := by
  unfold rqPush; split_ifs <;> rfl

@[simp] theorem rqPush_pend : (rqPush sz p id k).pend = k.pend := by
  unfold rqPush; split_ifs <;> rfl

@[simp] theorem rqPush_sems : (rqPush sz p id k).sems = k.sems := by
  unfold rqPush; split_ifs <;> rfl

@[simp] theorem rqPush_mutexes : (rqPush sz p id k).mutexes = k.mutexes := by
  unfold rqPush; split_ifs <;> rfl

@[simp] theorem rqPush_queues : (rqPush sz p id k).queues = k.queues := by
  unfold rqPush; split_ifs <;> rfl

@[simp] theorem rqPush_ring : (rqPush sz p id k).ring = k.ring := by
  funext w; cases w <;> simp [Kernel.ring]

end Frames

/-- The selection loop changes nothing but ready queues. -/
theorem pickLoop_frame (sz : Sizing) :
    ∀ (ps : List ℕ) (k : Kernel), ∃ rq, (pickLoop sz ps k).2 = { k with rq := rq }
  | [], k => ⟨k.rq, rfl⟩
  | p :: ps, k => by
      rw [pickLoop, rqPop]
      split
      · rename_i id k' heq
        rw [Prod.mk.injEq] at heq
        exact ⟨_, heq.2.symm⟩
      · rename_i k' heq
        rw [Prod.mk.injEq] at heq
        obtain ⟨rq, hrq⟩ := pickLoop_frame sz ps k'
        rw [← heq.2] at hrq
        exact ⟨rq, by rw [← heq.2, hrq]; rfl⟩

/-- `hrt__pick_next_ready` changes nothing but ready queues. -/
theorem hrtPickNextReady_frame (sz : Sizing) (k : Kernel) :
    ∃ rq, (hrtPickNextReady sz k).2 = { k with rq := rq } :=
  pickLoop_frame sz _ k

/-- `hrt__pick_next_ready` does not touch `g_current`. -/
theorem hrtPickNextReady_current (sz : Sizing) (k : Kernel) :
    (hrtPickNextReady sz k).2.current = k.current := by
  obtain ⟨rq, h⟩ := hrtPickNextReady_frame sz k
  rw [h]

/-! ## What a pick returns -/

/-- Every ready ring is well formed. -/
def ReadyWF (sz : Sizing) (k : Kernel) : Prop := ∀ p < sz.maxPrio, (k.rq p).WF sz.maxTasks

instance (sz : Sizing) (k : Kernel) : Decidable (ReadyWF sz k) :=
  inferInstanceAs (Decidable (∀ _ < _, _))

/-- The kernel after the head of ready queue `p` has been dropped. -/
def dropReady (sz : Sizing) (p : ℕ) (k : Kernel) : Kernel :=
  k.setRq p ((k.rq p).drop 256 sz.maxTasks)

/-- Popping an empty ready queue changes nothing. -/
theorem rqPop_of_empty {sz : Sizing} {p : ℕ} {k : Kernel} (h : k.readyList sz p = []) :
    rqPop sz p k = (none, k) := by
  have hc : (k.rq p).count = 0 := RingBuffer.toList_eq_nil_iff.mp h
  simp [rqPop, RingBuffer.pop, hc, Kernel.setRq]

/-- A queue that has a head has a positive count. -/
theorem count_ne_zero_of_cons {sz : Sizing} {p id : ℕ} {rest : List ℕ} {k : Kernel}
    (h : k.readyList sz p = id :: rest) : (k.rq p).count ≠ 0 := by
  intro hc
  rw [Kernel.readyList, RingBuffer.toList_eq_nil_iff.mpr hc] at h
  exact List.cons_ne_nil _ _ h.symm

/-- The list view after dropping the head of queue `p`. -/
theorem readyList_dropReady {sz : Sizing} {p id : ℕ} {rest : List ℕ} {k : Kernel}
    (hwf : (k.rq p).WF sz.maxTasks) (hr : sz.Representable) (h : k.readyList sz p = id :: rest)
    (q : ℕ) :
    (dropReady sz p k).readyList sz q = if q = p then rest else k.readyList sz q := by
  have hdrop := RingBuffer.toList_drop hwf hr.lt.le (count_ne_zero_of_cons h)
  rw [Kernel.readyList, hdrop] at h
  rw [dropReady, Kernel.readyList_setRq, (List.cons.inj h).2]

/-- Dropping the head of a non-empty queue keeps the rings well formed. -/
theorem ReadyWF.dropReady {sz : Sizing} {k : Kernel} {p id : ℕ} {rest : List ℕ}
    (hwf : ReadyWF sz k) (hr : sz.Representable) (h : k.readyList sz p = id :: rest) :
    ReadyWF sz (dropReady sz p k) := by
  intro q hq
  unfold HardRT.dropReady Kernel.setRq
  by_cases hqp : q = p
  · subst hqp
    simpa using (hwf q hq).drop hr.lt.le (count_ne_zero_of_cons h)
  · simpa [hqp] using hwf q hq

/-- The selection loop passes over empty queues. -/
theorem pickLoop_append_of_empty {sz : Sizing} {k : Kernel} {pre : List ℕ} (ps : List ℕ)
    (hpre : ∀ q ∈ pre, k.readyList sz q = []) : pickLoop sz (pre ++ ps) k = pickLoop sz ps k := by
  induction pre with
  | nil => rfl
  | cons q pre ih =>
      rw [List.cons_append, pickLoop, rqPop_of_empty (hpre q List.mem_cons_self)]
      exact ih fun q' hq' => hpre q' (List.mem_cons_of_mem _ hq')

/-- A pick that finds every queue empty returns `HRT_IDLE_ID` and changes nothing. -/
theorem pickNextReady_of_empty {sz : Sizing} {k : Kernel}
    (h : ∀ p < sz.maxPrio, k.readyList sz p = []) : hrtPickNextReady sz k = (sz.idleId, k) := by
  have hloop := pickLoop_append_of_empty [] fun q (hq : q ∈ List.range sz.maxPrio) =>
    h q (List.mem_range.mp hq)
  rw [List.append_nil] at hloop
  exact hloop

/-- A pick reads the head cell of the first queue that is not empty and drops it, whatever the size of
the rings. -/
theorem pickNextReady_of_count {sz : Sizing} {k : Kernel} {p : ℕ} (hp : p < sz.maxPrio)
    (hpre : ∀ q < p, k.readyList sz q = []) (hc : (k.rq p).count ≠ 0) :
    hrtPickNextReady sz k = ((k.rq p).buf (k.rq p).head, dropReady sz p k) := by
  obtain ⟨r, hr⟩ := Nat.exists_eq_add_of_lt hp
  have hsplit : List.range sz.maxPrio = List.range p ++ p :: List.range' (p + 1) r := by
    rw [hr, Nat.add_assoc, List.range_eq_range', ← List.range'_append_1, Nat.zero_add,
      ← List.range_eq_range', List.range'_succ]
  rw [hrtPickNextReady, hsplit, pickLoop_append_of_empty _ fun q hq => hpre q (List.mem_range.mp hq)]
  simp [pickLoop, rqPop, RingBuffer.pop, hc, dropReady]

/-- **What `hrt__pick_next_ready` does.** Either every ready queue is empty, it returns `HRT_IDLE_ID`
and changes nothing; or it removes and returns the head of the first non-empty queue. -/
theorem pickNextReady_spec {sz : Sizing} {k : Kernel} (hr : sz.Representable) (hwf : ReadyWF sz k) :
    ((∀ p < sz.maxPrio, k.readyList sz p = []) ∧ hrtPickNextReady sz k = (sz.idleId, k)) ∨
    ∃ p id rest, p < sz.maxPrio ∧ (∀ q < p, k.readyList sz q = []) ∧
      k.readyList sz p = id :: rest ∧ hrtPickNextReady sz k = (id, dropReady sz p k) := by
  by_cases hempty : ∀ p < sz.maxPrio, k.readyList sz p = []
  · exact Or.inl ⟨hempty, pickNextReady_of_empty hempty⟩
  · right
    have hex : ∃ p, p < sz.maxPrio ∧ k.readyList sz p ≠ [] := by simpa using hempty
    classical
    -- the least priority whose queue holds something
    obtain ⟨hp, hne⟩ := Nat.find_spec hex
    have hpre : ∀ q < Nat.find hex, k.readyList sz q = [] := fun q hq =>
      not_not.mp fun hq' => Nat.find_min hex hq ⟨hq.trans hp, hq'⟩
    have hc : (k.rq (Nat.find hex)).count ≠ 0 := fun hc => hne (RingBuffer.toList_eq_nil_iff.mpr hc)
    have hl := RingBuffer.toList_drop (hwf _ hp) hr.lt.le hc
    exact ⟨Nat.find hex, _, _, hp, hpre, hl, pickNextReady_of_count hp hpre hc⟩

/-- A pick takes the head of a queue above which all queues are empty. -/
theorem pickNextReady_of_head {sz : Sizing} {k : Kernel} (hr : sz.Representable) (hwf : ReadyWF sz k)
    {p id : ℕ} {rest : List ℕ} (hp : p < sz.maxPrio) (hpre : ∀ q < p, k.readyList sz q = [])
    (hl : k.readyList sz p = id :: rest) : hrtPickNextReady sz k = (id, dropReady sz p k) := by
  rcases pickNextReady_spec hr hwf with ⟨hempty, -⟩ | ⟨p', id', rest', hp', hpre', hl', heq⟩
  · rw [hempty p hp] at hl
    exact absurd hl (by simp)
  · -- both are the first queue that is not empty
    obtain rfl : p' = p := by
      rcases Nat.lt_trichotomy p' p with hlt | heq | hgt
      · rw [hpre p' hlt] at hl'
        exact absurd hl' (by simp)
      · exact heq
      · rw [hpre' p hgt] at hl
        exact absurd hl (by simp)
    rw [hl] at hl'
    rw [heq, (List.cons.inj hl').1]

/-- A pick keeps the rings well formed. -/
theorem ReadyWF.pick {sz : Sizing} {k : Kernel} (hwf : ReadyWF sz k) (hr : sz.Representable) :
    ReadyWF sz (hrtPickNextReady sz k).2 := by
  rcases pickNextReady_spec hr hwf with ⟨-, heq⟩ | ⟨p, id, rest, -, -, hl, heq⟩
  · rwa [heq]
  · rw [heq]
    exact hwf.dropReady hr hl

/-! ## Pushing keeps the rings well formed -/

/-- `rq_push` keeps every ring well formed. -/
theorem ReadyWF.push {sz : Sizing} {k : Kernel} (hwf : ReadyWF sz k) (hr : sz.Representable)
    (p id : ℕ) : ReadyWF sz (rqPush sz p id k) := by
  intro q hq
  unfold rqPush Kernel.setRq
  split_ifs with h1 h2
  · exact hwf q hq
  · exact hwf q hq
  · by_cases hqp : q = p
    · subst hqp
      simpa using (hwf q hq).put hr.lt (by omega) _
    · simpa [hqp] using hwf q hq

/-- The only entry a push can add is the pushed id, in the queue it was pushed to. -/
theorem mem_readyList_push {sz : Sizing} {k : Kernel} (hwf : ReadyWF sz k) (hr : sz.Representable)
    {p id q j : ℕ} (hq : q < sz.maxPrio) (hj : j ∈ (rqPush sz p id k).readyList sz q) :
    j ∈ k.readyList sz q ∨ (q = p ∧ j = id % 256) := by
  unfold rqPush at hj
  split_ifs at hj with h1 h2
  · exact Or.inl hj
  · exact Or.inl hj
  · by_cases hqp : q = p
    · subst hqp
      rw [Kernel.readyList_setRq, if_pos rfl,
        RingBuffer.toList_put (hwf q hq) hr.lt (by omega)] at hj
      rcases List.mem_append.mp hj with hj | hj
      · exact Or.inl hj
      · exact Or.inr ⟨rfl, by simpa using hj⟩
    · left
      rwa [Kernel.readyList_setRq, if_neg hqp] at hj

/-- A push leaves the queues of the other priorities alone. -/
theorem readyList_push_of_ne {sz : Sizing} {k : Kernel} {p id q : ℕ} (hq : q ≠ p) :
    (rqPush sz p id k).readyList sz q = k.readyList sz q := by
  unfold rqPush
  split_ifs
  · rfl
  · rfl
  · rw [Kernel.readyList_setRq, if_neg hq]

/-- A push can only append. -/
theorem readyList_push_append {sz : Sizing} {k : Kernel} (hwf : ReadyWF sz k) (hr : sz.Representable)
    (p id : ℕ) {q : ℕ} (hq : q < sz.maxPrio) :
    ∃ l, (rqPush sz p id k).readyList sz q = k.readyList sz q ++ l := by
  unfold rqPush
  split_ifs with h1 h2
  · exact ⟨[], (List.append_nil _).symm⟩
  · exact ⟨[], (List.append_nil _).symm⟩
  · by_cases hqp : q = p
    · subst hqp
      rw [Kernel.readyList_setRq, if_pos rfl,
        RingBuffer.toList_put (hwf q hq) hr.lt (by omega)]
      exact ⟨_, rfl⟩
    · rw [Kernel.readyList_setRq, if_neg hqp]
      exact ⟨[], (List.append_nil _).symm⟩

/-- After a push at a valid priority the queue is not empty, whether or not there was room. -/
theorem readyList_push_ne_nil {sz : Sizing} {k : Kernel} (hwf : ReadyWF sz k) (hr : sz.Representable)
    {p : ℕ} (hp : p < sz.maxPrio) (id : ℕ) : (rqPush sz p id k).readyList sz p ≠ [] := by
  unfold rqPush
  rw [if_neg (Nat.not_le.mpr hp)]
  split_ifs with hfull
  · intro hnil
    have hc : (k.rq p).count = 0 := RingBuffer.toList_eq_nil_iff.mp hnil
    have := sz.maxTasks_pos
    omega
  · rw [Kernel.readyList_setRq, if_pos rfl, RingBuffer.toList_put (hwf p hp) hr.lt (by omega)]
    simp

/-! ## Growth -/

/-- **How ready queues grow**: an entry of `k'` was one of `k`, or it is a ready task in the queue of
its own priority. -/
structure ReadyGrows (sz : Sizing) (k k' : Kernel) : Prop where
  wf : ReadyWF sz k'
  mem : ∀ p < sz.maxPrio, ∀ id ∈ k'.readyList sz p,
    id ∈ k.readyList sz p ∨ (k'.stateOf id = .ready ∧ (k'.tcbs id).prio = p)

namespace ReadyGrows

variable {sz : Sizing} {k k' k₁ : Kernel}

/-- The queues are the same. -/
theorem of_rq (hwf : ReadyWF sz k) (hrq : k'.rq = k.rq) : ReadyGrows sz k k' := by
  refine ⟨fun p hp => hrq ▸ hwf p hp, fun p _ id hid => Or.inl ?_⟩
  rwa [Kernel.readyList_congr hrq] at hid

/-- The later queues hold fewer entries. -/
theorem of_subset (hwf : ReadyWF sz k')
    (hsub : ∀ p < sz.maxPrio, ∀ id ∈ k'.readyList sz p, id ∈ k.readyList sz p) :
    ReadyGrows sz k k' :=
  ⟨hwf, fun p hp id hid => Or.inl (hsub p hp id hid)⟩

/-- A ready task is pushed to the queue of its priority. -/
theorem push (hwf : ReadyWF sz k) (hr : sz.Representable) {id : ℕ} (hid : id < sz.maxTasks)
    (hst : k.stateOf id = .ready) : ReadyGrows sz k (rqPush sz (k.tcbs id).prio id k) := by
  refine ⟨hwf.push hr _ _, fun p hp j hj => ?_⟩
  rcases mem_readyList_push hwf hr hp hj with hold | ⟨rfl, rfl⟩
  · exact Or.inl hold
  · rw [hr.mod_eq hid]
    exact Or.inr ⟨by rw [Kernel.stateOf, rqPush_tcbs]; exact hst, by rw [rqPush_tcbs]⟩

/-- Growth composes if the second part keeps ready tasks ready and changes no priority. -/
theorem trans (h : ReadyGrows sz k k₁) (h' : ReadyGrows sz k₁ k')
    (hkeep : ∀ id, k₁.stateOf id = .ready →
      k'.stateOf id = .ready ∧ (k'.tcbs id).prio = (k₁.tcbs id).prio) : ReadyGrows sz k k' := by
  refine ⟨h'.wf, fun p hp id hid => ?_⟩
  rcases h'.mem p hp id hid with hold | hnew
  · rcases h.mem p hp id hold with hold | ⟨hst, hp'⟩
    · exact Or.inl hold
    · obtain ⟨hst', hprio⟩ := hkeep id hst
      exact Or.inr ⟨hst', hprio.trans hp'⟩
  · exact Or.inr hnew

/-- After other changes, a ready task is pushed to the queue of its priority. -/
theorem then_push (h : ReadyGrows sz k k₁) (hr : sz.Representable) {id : ℕ} (hid : id < sz.maxTasks)
    (hst : k₁.stateOf id = .ready) : ReadyGrows sz k (rqPush sz (k₁.tcbs id).prio id k₁) := by
  refine h.trans (push h.wf hr hid hst) fun j hj => ⟨?_, by rw [rqPush_tcbs]⟩
  rw [Kernel.stateOf, rqPush_tcbs]
  exact hj

end ReadyGrows

/-- **A pick** either finds every queue empty, or it returns an entry of the first queue that is not;
the queues only get shorter. -/
theorem pick_entry {sz : Sizing} {k : Kernel} (hr : sz.Representable) (hwf : ReadyWF sz k) :
    ((∀ p < sz.maxPrio, k.readyList sz p = []) ∧ hrtPickNextReady sz k = (sz.idleId, k)) ∨
    ∃ p, p < sz.maxPrio ∧ (∀ q < p, k.readyList sz q = []) ∧
      (hrtPickNextReady sz k).1 ∈ k.readyList sz p ∧ ReadyWF sz (hrtPickNextReady sz k).2 ∧
      ∀ q < sz.maxPrio, ∀ id ∈ (hrtPickNextReady sz k).2.readyList sz q, id ∈ k.readyList sz q := by
  rcases pickNextReady_spec hr hwf with hidle | ⟨p, id, rest, hp, hpre, hl, heq⟩
  · exact Or.inl hidle
  · right
    rw [heq]
    refine ⟨p, hp, hpre, by rw [hl]; exact List.mem_cons_self, hwf.dropReady hr hl, ?_⟩
    intro q _ j hj
    rw [readyList_dropReady (hwf p hp) hr hl] at hj
    split_ifs at hj with hqp
    · rw [hqp, hl]
      exact List.mem_cons_of_mem _ hj
    · exact hj

/-- **Every entry of the ready queues satisfies `E`**, given the queue it is in and its id. -/
structure QueuedAll (sz : Sizing) (k : Kernel) (E : ℕ → ℕ → Prop) : Prop where
  wf : ReadyWF sz k
  all : ∀ p < sz.maxPrio, ∀ id ∈ k.readyList sz p, E p id

/-- **A property of entries along growth**: the old entries have to keep it, and ready tasks have to
have it in the queue of their own priority. -/
theorem QueuedAll.grow {sz : Sizing} {k k' : Kernel} {E E' : ℕ → ℕ → Prop} (h : QueuedAll sz k E)
    (hg : ReadyGrows sz k k') (hold : ∀ p < sz.maxPrio, ∀ id ∈ k.readyList sz p, E p id → E' p id)
    (hnew : ∀ id, k'.stateOf id = .ready → E' (k'.tcbs id).prio id) : QueuedAll sz k' E' := by
  refine ⟨hg.wf, fun p hp id hid => ?_⟩
  rcases hg.mem p hp id hid with hmem | ⟨hst, rfl⟩
  · exact hold p hp id hmem (h.all p hp id hmem)
  · exact hnew id hst

/-! ## Queues that hold a given set of tasks -/

/-- **The ready queues hold exactly the tasks in `Q`**: each of them once, in the queue of its own
priority, and nothing else. -/
structure ReadySet (sz : Sizing) (k : Kernel) (Q : ℕ → Prop) : Prop where
  wf : ReadyWF sz k
  nodup : ∀ p < sz.maxPrio, (k.readyList sz p).Nodup
  mem_iff : ∀ p < sz.maxPrio, ∀ id, id ∈ k.readyList sz p ↔ Q id ∧ (k.tcbs id).prio = p
  lt : ∀ id, Q id → id < sz.maxTasks

namespace ReadySet

variable {sz : Sizing} {k : Kernel} {Q : ℕ → Prop}

/-- The set may be described differently. -/
theorem congr (h : ReadySet sz k Q) {Q' : ℕ → Prop} (hQ : ∀ id, Q id ↔ Q' id) : ReadySet sz k Q' :=
  (funext fun id => propext (hQ id) : Q = Q') ▸ h

/-- Only the queues and the priorities of the queued tasks matter. -/
theorem of_eq (h : ReadySet sz k Q) {k' : Kernel} (hrq : k'.rq = k.rq)
    (hprio : ∀ id, Q id → (k'.tcbs id).prio = (k.tcbs id).prio) : ReadySet sz k' Q := by
  have hlist : ∀ p, k'.readyList sz p = k.readyList sz p := Kernel.readyList_congr hrq
  refine ⟨fun p hp => hrq ▸ h.wf p hp, fun p hp => hlist p ▸ h.nodup p hp, fun p hp id => ?_, h.lt⟩
  rw [hlist, h.mem_iff p hp id]
  refine and_congr_right fun hq => ?_
  rw [hprio id hq]

/-- A task outside the set leaves room in every ring. -/
theorem count_lt (h : ReadySet sz k Q) {p id : ℕ} (hp : p < sz.maxPrio) (hid : id < sz.maxTasks)
    (hQ : ¬ Q id) : (k.rq p).count < sz.maxTasks := by
  rw [← RingBuffer.length_toList sz.maxTasks (k.rq p)]
  refine length_lt_of_notMem (h.nodup p hp) (fun j hj => ?_) hid (fun hj => ?_)
  · exact h.lt j ((h.mem_iff p hp j).mp hj).1
  · exact hQ ((h.mem_iff p hp id).mp hj).1

/-- Pushing a task outside the set never fails. -/
theorem rqPush_eq (h : ReadySet sz k Q) {id : ℕ} (hid : id < sz.maxTasks) (hQ : ¬ Q id)
    (hp : (k.tcbs id).prio < sz.maxPrio) :
    rqPush sz (k.tcbs id).prio id k =
      k.setRq (k.tcbs id).prio ((k.rq (k.tcbs id).prio).put 256 sz.maxTasks (id % 256)) := by
  have hc := h.count_lt hp hid hQ
  rw [rqPush, if_neg (by omega), if_neg (by omega)]

/-- The queues after pushing a task outside the set: its own queue grows at the end. -/
theorem readyList_push (h : ReadySet sz k Q) (hr : sz.Representable) {id : ℕ}
    (hid : id < sz.maxTasks) (hQ : ¬ Q id) (hp : (k.tcbs id).prio < sz.maxPrio) (p : ℕ) :
    (rqPush sz (k.tcbs id).prio id k).readyList sz p =
      if p = (k.tcbs id).prio then k.readyList sz p ++ [id] else k.readyList sz p := by
  rw [h.rqPush_eq hid hQ hp, Kernel.readyList_setRq]
  split_ifs with hpe
  · rw [RingBuffer.toList_put (h.wf _ hp) hr.lt (h.count_lt hp hid hQ), hr.mod_eq hid, hpe]
    rfl
  · rfl

/-- **Push.** Pushing a task outside the set adds it. -/
theorem push (h : ReadySet sz k Q) (hr : sz.Representable) {id : ℕ} (hid : id < sz.maxTasks)
    (hQ : ¬ Q id) (hp : (k.tcbs id).prio < sz.maxPrio) :
    ReadySet sz (rqPush sz (k.tcbs id).prio id k) fun j => j = id ∨ Q j := by
  have hlist := h.readyList_push hr hid hQ hp
  refine ⟨h.wf.push hr _ _, fun p hpp => ?_, fun p hpp j => ?_, ?_⟩
  · rw [hlist]
    split_ifs with hpe
    · refine List.nodup_append.mpr ⟨h.nodup p hpp, by simp, ?_⟩
      intro a ha b hb
      rw [List.mem_singleton.mp hb]
      rintro rfl
      exact hQ ((h.mem_iff p hpp a).mp ha).1
    · exact h.nodup p hpp
  · rw [hlist, rqPush_tcbs]
    split_ifs with hpe
    · rw [List.mem_append, h.mem_iff p hpp j, List.mem_singleton]
      constructor
      · rintro (⟨hq, hj⟩ | rfl)
        · exact ⟨Or.inr hq, hj⟩
        · exact ⟨Or.inl rfl, hpe.symm⟩
      · rintro ⟨rfl | hq, hj⟩
        · exact Or.inr rfl
        · exact Or.inl ⟨hq, hj⟩
    · rw [h.mem_iff p hpp j]
      constructor
      · rintro ⟨hq, hj⟩
        exact ⟨Or.inr hq, hj⟩
      · rintro ⟨rfl | hq, hj⟩
        · exact absurd hj.symm hpe
        · exact ⟨hq, hj⟩
  · rintro j (rfl | hj)
    · exact hid
    · exact h.lt j hj

/-- **Pick.** A pick either finds the set empty of valid priorities, returns `HRT_IDLE_ID` and changes
nothing, or removes one member of the set, of the smallest priority that has one. -/
theorem pick (h : ReadySet sz k Q) (hr : sz.Representable) :
    ((∀ p < sz.maxPrio, k.readyList sz p = []) ∧ hrtPickNextReady sz k = (sz.idleId, k)) ∨
    ∃ p id, p < sz.maxPrio ∧ Q id ∧ (k.tcbs id).prio = p ∧
      (∀ q < p, k.readyList sz q = []) ∧ (k.readyList sz p).head? = some id ∧
      hrtPickNextReady sz k = (id, dropReady sz p k) ∧
      ReadySet sz (dropReady sz p k) fun j => Q j ∧ j ≠ id := by
  rcases pickNextReady_spec hr h.wf with hidle | ⟨p, id, rest, hp, hpre, hl, heq⟩
  · exact Or.inl hidle
  · right
    have hnd := h.nodup p hp
    rw [hl] at hnd
    obtain ⟨hnotin, hnd'⟩ := List.nodup_cons.mp hnd
    have hid := (h.mem_iff p hp id).mp (by rw [hl]; exact List.mem_cons_self)
    refine ⟨p, id, hp, hid.1, hid.2, hpre, by rw [hl]; rfl, heq, ?_⟩
    have hlist := readyList_dropReady (h.wf p hp) hr hl
    refine ⟨h.wf.dropReady hr hl, fun q hq => ?_, fun q hq j => ?_, fun j hj => h.lt j hj.1⟩
    · rw [hlist]
      split_ifs with hqp
      · exact hnd'
      · exact h.nodup q hq
    · rw [hlist]
      show _ ↔ (Q j ∧ j ≠ id) ∧ (k.tcbs j).prio = q
      split_ifs with hqp
      · -- the popped queue: its tail is the queue without its head
        subst hqp
        have hm := h.mem_iff q hp j
        rw [hl, List.mem_cons] at hm
        constructor
        · intro hj
          have hQj := hm.mp (Or.inr hj)
          exact ⟨⟨hQj.1, fun hji => hnotin (hji ▸ hj)⟩, hQj.2⟩
        · rintro ⟨⟨hQj, hne⟩, hpj⟩
          exact (hm.mpr ⟨hQj, hpj⟩).resolve_left hne
      · rw [h.mem_iff q hq j]
        constructor
        · rintro ⟨hQj, hpj⟩
          refine ⟨⟨hQj, ?_⟩, hpj⟩
          rintro rfl
          exact hqp (hpj.symm.trans hid.2)
        · rintro ⟨⟨hQj, -⟩, hpj⟩
          exact ⟨hQj, hpj⟩

end ReadySet

end HardRT
