import HardRT.Core.Tick
import HardRT.Lib.LevelQueue

/-! # The order of the ready queues

What a step adds to the ready queues, entry by entry, and the order in which the entries will be picked.

* `Appends sz k k' l` — the queues of `k'` are those of `k` with the entries `l` appended; one lemma per
  function that pushes.
* `queuedOrder sz k` — the entries in the order in which they would be picked; `queuedOrder_pick` says
  that a pick takes the first.
* `enqueued sz k k'` — the ids by which the queues grew, as one observes them. -/

namespace HardRT

open Lib

/-! ## Appended entries -/

/-- **The ready queues of `k'` are those of `k` with entries appended**: `l` lists them in order, each
with the queue it went to. -/
structure Appends (sz : Sizing) (k k' : Kernel) (l : List (ℕ × ℕ)) : Prop where
  wf : ReadyWF sz k'
  lt : ∀ e ∈ l, e.1 < sz.maxPrio
  lists : ∀ p < sz.maxPrio, k'.readyList sz p = k.readyList sz p ++ entriesAt p l

/-- At most the entry `id` was appended, to queue `p`. -/
def AppendsOne (sz : Sizing) (k k' : Kernel) (p id : ℕ) : Prop :=
  Appends sz k k' [] ∨ Appends sz k k' [(p, id)]

namespace Appends

variable {sz : Sizing} {k k₁ k' : Kernel} {l l' : List (ℕ × ℕ)}

/-- The queues are the same. -/
theorem of_rq (hwf : ReadyWF sz k) (hrq : k'.rq = k.rq) : Appends sz k k' [] := by
  refine ⟨fun p hp => hrq ▸ hwf p hp, by simp, fun p _ => ?_⟩
  rw [Kernel.readyList_congr hrq]
  simp

/-- Only the queues matter. -/
theorem congr (h : Appends sz k k₁ l) (hrq : k'.rq = k₁.rq) : Appends sz k k' l := by
  refine ⟨fun p hp => hrq ▸ h.wf p hp, h.lt, fun p hp => ?_⟩
  rw [Kernel.readyList_congr hrq]
  exact h.lists p hp

/-- Appending composes. -/
theorem trans (h : Appends sz k k₁ l) (h' : Appends sz k₁ k' l') : Appends sz k k' (l ++ l') := by
  refine ⟨h'.wf, fun e he => ?_, fun p hp => ?_⟩
  · exact (List.mem_append.mp he).elim (h.lt e) (h'.lt e)
  · rw [h'.lists p hp, h.lists p hp, entriesAt_append, List.append_assoc]

/-- An accepted `rq_push`. -/
theorem push (hwf : ReadyWF sz k) (hr : sz.Representable) {p id : ℕ} (hid : id < sz.maxTasks)
    (hacc : RqAccepts sz k p) : Appends sz k (rqPush sz p id k) [(p, id)] := by
  refine ⟨hwf.push hr p id, by simpa using hacc.1, fun q hq => ?_⟩
  rw [entriesAt_cons, entriesAt_nil, List.append_nil, rqPush_of_accepts hacc, Kernel.readyList_setRq]
  split_ifs with hqp
  · rw [hqp, RingBuffer.toList_put (hwf p hacc.1) hr.lt hacc.2, hr.mod_eq hid]
    rfl
  · rw [List.append_nil]

/-- The head of a queue stays its head. -/
theorem head? (h : Appends sz k k' l) {p id : ℕ} (hp : p < sz.maxPrio)
    (hid : (k.readyList sz p).head? = some id) : (k'.readyList sz p).head? = some id := by
  rw [h.lists p hp, List.head?_append, hid]
  rfl

end Appends

namespace AppendsOne

variable {sz : Sizing} {k k₁ k' : Kernel} {p id : ℕ}

theorem congr (h : AppendsOne sz k k₁ p id) (hrq : k'.rq = k₁.rq) : AppendsOne sz k k' p id :=
  h.imp (fun h => h.congr hrq) fun h => h.congr hrq

/-- What comes before may change anything but the queues. -/
theorem of_rq (h : AppendsOne sz k₁ k' p id) (hrq : k₁.rq = k.rq) : AppendsOne sz k k' p id := by
  have hlist : ∀ q, k₁.readyList sz q = k.readyList sz q := Kernel.readyList_congr hrq
  rcases h with h | h
  · exact Or.inl ⟨h.wf, h.lt, fun q hq => hlist q ▸ h.lists q hq⟩
  · exact Or.inr ⟨h.wf, h.lt, fun q hq => hlist q ▸ h.lists q hq⟩

/-- `rq_push`. -/
theorem push (hwf : ReadyWF sz k) (hr : sz.Representable) (hid : id < sz.maxTasks) (p : ℕ) :
    AppendsOne sz k (rqPush sz p id k) p id := by
  by_cases hacc : RqAccepts sz k p
  · exact Or.inr (.push hwf hr hid hacc)
  · exact Or.inl (.of_rq hwf (rqPush_rq_of_not_accepts hacc id))

/-- `hrt__make_ready`. -/
theorem makeReady (hwf : ReadyWF sz k) (hr : sz.Representable) (hid : id < sz.maxTasks) :
    AppendsOne sz k (hrtMakeReady sz id k) (k.tcbs id).prio id :=
  (push hwf hr hid _).congr (hrtMakeReady_rq sz id k)

/-- The body of `hrt_yield`. -/
theorem yieldBody (hwf : ReadyWF sz k) (hr : sz.Representable) (hid : id < sz.maxTasks) :
    AppendsOne sz k (hrtYieldBody sz id k) (k.tcbs id).prio id := by
  by_cases hst : k.stateOf id = .ready
  · exact (push hwf hr hid _).congr (hrtYieldBody_rq sz id k hst)
  · rw [hrtYieldBody, if_neg hst]
    exact Or.inl (.of_rq hwf rfl)

/-- `hrt__on_scheduler_entry`, for the task that just left the CPU. -/
theorem entry (hwf : ReadyWF sz k) (hr : sz.Representable) (hid : id < sz.maxTasks)
    (hcur : k.current = some id) :
    AppendsOne sz k (hrtOnSchedulerEntry sz k) (k.tcbs id).prio id := by
  unfold hrtOnSchedulerEntry
  rw [hcur]
  simp only
  split
  · have h := push (k := k.modifyTcb id fun t => { t with sliceLeft := t.timesliceCfg })
      hwf hr hid (k.tcbs id).prio
    simp only [Kernel.modifyTcb, Function.update_self] at h ⊢
    exact h.of_rq rfl
  · exact Or.inl (.of_rq hwf rfl)

/-- The outgoing half of `hrt__schedule`. -/
theorem saveOutgoing (hwf : ReadyWF sz k) (hr : sz.Representable) (oldSp : ℕ)
    (hid : k.stateOf id = .ready → id < sz.maxTasks) (hcur : k.current = some id) :
    AppendsOne sz k (saveOutgoing sz oldSp k) (k.tcbs id).prio id := by
  unfold HardRT.saveOutgoing
  split
  · exact Or.inl (.of_rq hwf rfl)
  · rw [hcur]
    simp only
    split
    · rename_i hst
      rw [stateOf_setSp] at hst
      have h := push (k := setSp id oldSp k) (fun p hp => (setSp_rq id oldSp k) ▸ hwf p hp)
        hr (hid hst) (k.tcbs id).prio
      have hprio : ((setSp id oldSp k).tcbs id).prio = (k.tcbs id).prio := by simp
      rw [hprio]
      exact h.of_rq (setSp_rq id oldSp k)
    · exact Or.inl (.of_rq hwf (setSp_rq id oldSp k))

end AppendsOne

/-! ## The order of the picks -/

/-- **The queued entries in the order in which they would be picked.** -/
def queuedOrder (sz : Sizing) (k : Kernel) : List ℕ := levels sz.maxPrio (k.readyList sz)

/-- The task that `hrt__pick_next_ready` takes from the queues, if there is one. -/
def picked (sz : Sizing) (k : Kernel) : List ℕ :=
  if queuedOrder sz k = [] then [] else [(hrtPickNextReady sz k).1]

/-- **A pick takes the first entry.** -/
theorem queuedOrder_pick {sz : Sizing} {k : Kernel} (hr : sz.Representable) (hwf : ReadyWF sz k) :
    queuedOrder sz k = picked sz k ++ queuedOrder sz (hrtPickNextReady sz k).2 := by
  rcases pickNextReady_spec hr hwf with ⟨hempty, heq⟩ | ⟨p, id, rest, hp, hpre, hl, heq⟩
  · have hnil : queuedOrder sz k = [] := levels_eq_nil hempty
    rw [picked, if_pos hnil, heq]
    rfl
  · have hpop := levels_pop hp hpre hl
    have hne : queuedOrder sz k ≠ [] := by
      rw [queuedOrder, hpop]
      simp
    have hrest : queuedOrder sz (dropReady sz p k) =
        levels sz.maxPrio fun q => if q = p then rest else k.readyList sz q :=
      levels_congr fun q _ => readyList_dropReady (hwf p hp) hr hl q
    rw [picked, if_neg hne, heq, hrest]
    exact hpop

/-- **An entry that comes last**: if no queue after its own holds anything, it will be picked last. -/
theorem Appends.queuedOrder {sz : Sizing} {k k' : Kernel} {e : ℕ × ℕ} (h : Appends sz k k' [e])
    (hlast : ∀ q < sz.maxPrio, e.1 < q → k.readyList sz q = []) :
    queuedOrder sz k' = queuedOrder sz k ++ [e.2] := by
  rw [HardRT.queuedOrder, HardRT.queuedOrder, ← levels_push (h.lt e List.mem_cons_self) hlast]
  refine levels_congr fun q hq => ?_
  rw [h.lists q hq, entriesAt_cons, entriesAt_nil, List.append_nil]

/-! ## Observed entries -/

/-- **The ids by which the ready queues grew** from `k` to `k'`. -/
def enqueued (sz : Sizing) (k k' : Kernel) : List ℕ :=
  levels sz.maxPrio fun p => (k'.readyList sz p).drop (k.readyList sz p).length

/-- A single appended entry is observed as such. -/
theorem Appends.enqueued_nil {sz : Sizing} {k k' : Kernel} (h : Appends sz k k' []) :
    enqueued sz k k' = [] :=
  levels_eq_nil fun p hp => by rw [h.lists p hp]; simp

theorem Appends.enqueued_singleton {sz : Sizing} {k k' : Kernel} {e : ℕ × ℕ}
    (h : Appends sz k k' [e]) : enqueued sz k k' = [e.2] := by
  have hpush := levels_push (n := sz.maxPrio) (f := fun _ => []) (a := e.2)
    (h.lt e List.mem_cons_self) fun _ _ _ => rfl
  rw [levels_eq_nil (f := fun _ => []) fun _ _ => rfl] at hpush
  rw [enqueued, ← List.nil_append [e.2], ← hpush]
  refine levels_congr fun p hp => ?_
  rw [h.lists p hp, entriesAt_cons]
  simp

/-! ## Ticks -/

/-- The sleepers that the next tick wakes, in the order of the wake loop. -/
def dueSleepers (sz : Sizing) (k : Kernel) : List ℕ :=
  (List.range sz.maxTasks).filter fun i => wakesAt k ((k.tick + 1) % 2 ^ 32) i

/-- The entry that waking the sleeper `i` adds. -/
def wakeEntry (k : Kernel) (i : ℕ) : ℕ × ℕ := ((k.tcbs i).prio, i)

section Tick

variable {sz : Sizing} {k : Kernel}

/-- One iteration of the wake loop. -/
theorem AppendsOne.wakeOne {s : Kernel × Bool} {i : ℕ} (hwf : ReadyWF sz s.1) (hr : sz.Representable)
    (hi : i < sz.maxTasks) : AppendsOne sz s.1 (wakeOne sz s i).1 (s.1.tcbs i).prio i := by
  unfold HardRT.wakeOne
  split
  · exact makeReady hwf hr hi
  · exact Or.inl (.of_rq hwf rfl)

/-- The queues are still well formed afterwards. -/
theorem AppendsOne.wf {k' : Kernel} {p id : ℕ} (h : AppendsOne sz k k' p id) : ReadyWF sz k' :=
  h.elim Appends.wf Appends.wf

/-- **A tick appends** to the queues. -/
theorem Appends.tick (hwf : ReadyWF sz k) (hr : sz.Representable) :
    ∃ l, Appends sz k (hrtTickIsr sz k) l := by
  have hloop : ∀ (is : List ℕ) (s : Kernel × Bool), ReadyWF sz s.1 → (∀ i ∈ is, i < sz.maxTasks) →
      ∃ l, Appends sz s.1 (is.foldl (HardRT.wakeOne sz) s).1 l := by
    intro is
    induction is with
    | nil => exact fun s hs _ => ⟨[], .of_rq hs rfl⟩
    | cons i is ih =>
        intro s hs his
        have hone := AppendsOne.wakeOne hs hr (his i List.mem_cons_self)
        obtain ⟨l, hl⟩ := ih (HardRT.wakeOne sz s i) hone.wf fun j hj => his j (List.mem_cons_of_mem _ hj)
        rcases hone with h | h
        · exact ⟨_, h.trans hl⟩
        · exact ⟨_, h.trans hl⟩
  obtain ⟨l, hl⟩ := hloop (List.range sz.maxTasks) (hrtIncTick k, false) hwf
    fun i hi => List.mem_range.mp hi
  exact ⟨l, Appends.congr ⟨hl.wf, hl.lt, hl.lists⟩ (hrtTickIsr_rq sz k)⟩

end Tick

end HardRT
