import HardRT.Core.Task

/-! # One scheduling decision

`hrt__schedule` puts the outgoing task back if it is ready and takes the first task of the first ready
queue. From books that are in order this is the best choice among all ready tasks, and the books are in
order afterwards.

* `ReadyOthers sz k cur` — the books: every ready task other than `cur` is queued once, in the queue of
  its own priority, and nothing else is queued.
* `enqueueOrder sz k cur p` — the ready tasks of priority `p` in the order in which they were enqueued,
  the outgoing one last.
* `schedule_decision` — the task made current heads the enqueue order of the most urgent priority that
  has a ready task; the others stay queued in order. -/

namespace HardRT

open Lib

/-- **The books before a decision.** `cur` is the current slot; the ready queues hold exactly the other
ready tasks, each once and in the queue of its own priority; every task has a valid priority; and the
idle slot holds no ready task. -/
structure ReadyOthers (sz : Sizing) (k : Kernel) (cur : ℕ) : Prop where
  set : ReadySet sz k fun id => (id < sz.maxTasks ∧ k.stateOf id = .ready) ∧ id ≠ cur
  prio : ∀ id < sz.maxTasks, k.stateOf id ≠ .unused → (k.tcbs id).prio < sz.maxPrio
  idle : k.stateOf sz.idleId ≠ .ready
  cur_lt : cur < sz.maxTasks
  current : k.current = some cur

/-- **The ready tasks of priority `p` in the order in which they were enqueued**, the outgoing task
counting as enqueued last. -/
def enqueueOrder (sz : Sizing) (k : Kernel) (cur p : ℕ) : List ℕ :=
  k.readyList sz p ++ if k.stateOf cur = .ready ∧ (k.tcbs cur).prio = p then [cur] else []

section Decision

variable {sz : Sizing} {k : Kernel} {cur oldSp : ℕ}

/-- **The outgoing half** leaves all ready tasks queued, in the order in which they were enqueued. -/
theorem ReadyOthers.requeue (h : ReadyOthers sz k cur) (hr : sz.Representable) (h0 : oldSp ≠ 0) :
    ReadySet sz (saveOutgoing sz oldSp k) (fun id => id < sz.maxTasks ∧ k.stateOf id = .ready) ∧
    ∀ p, (saveOutgoing sz oldSp k).readyList sz p = enqueueOrder sz k cur p := by
  by_cases hst : k.stateOf cur = .ready
  · -- the outgoing task joins the others at the end of its queue
    have hp := h.prio cur h.cur_lt (by rw [hst]; simp)
    have hsp : ∀ id, ((setSp cur oldSp k).tcbs id).prio = (k.tcbs id).prio := by
      intro id
      rw [setSp_tcbs]
      by_cases hid : id = cur
      · subst hid; simp
      · simp [hid]
    have hset : ReadySet sz (setSp cur oldSp k)
        fun id => (id < sz.maxTasks ∧ k.stateOf id = .ready) ∧ id ≠ cur :=
      h.set.of_eq (setSp_rq cur oldSp k) fun id _ => hsp id
    have hout : ¬ ((cur < sz.maxTasks ∧ k.stateOf cur = .ready) ∧ cur ≠ cur) := fun hq => hq.2 rfl
    have hpush := hset.push hr h.cur_lt hout (by rw [hsp]; exact hp)
    have hlist := hset.readyList_push hr h.cur_lt hout (by rw [hsp]; exact hp)
    rw [hsp] at hpush hlist
    rw [saveOutgoing_of_ready h0 h.current hst]
    refine ⟨hpush.congr fun id => ?_, fun p => ?_⟩
    · by_cases hid : id = cur
      · subst hid
        simp [h.cur_lt, hst]
      · simp [hid]
    · rw [hlist p, enqueueOrder, Kernel.readyList, setSp_rq]
      by_cases hpe : p = (k.tcbs cur).prio
      · rw [if_pos hpe, if_pos ⟨hst, hpe.symm⟩]
        rfl
      · rw [if_neg hpe, if_neg fun hc => hpe hc.2.symm, List.append_nil]
        rfl
  · -- the outgoing task has left the ready set
    have hrq : (saveOutgoing sz oldSp k).rq = k.rq := by
      refine saveOutgoing_rq fun t ht => ?_
      obtain rfl : cur = t := Option.some.inj (h.current.symm.trans ht)
      exact hst
    refine ⟨?_, fun p => ?_⟩
    · refine (h.set.of_eq hrq fun id _ => (saveOutgoing_same sz oldSp k id).2).congr fun id => ?_
      refine and_iff_left_of_imp ?_
      rintro ⟨-, hid⟩ rfl
      exact hst hid
    · rw [enqueueOrder, if_neg fun hc => hst hc.1, List.append_nil, Kernel.readyList, hrq]
      rfl

/-- Every ready task is in the enqueue order of its priority. -/
theorem ReadyOthers.mem_enqueueOrder (h : ReadyOthers sz k cur) {id : ℕ} (hid : id < sz.maxTasks)
    (hst : k.stateOf id = .ready) : id ∈ enqueueOrder sz k cur (k.tcbs id).prio := by
  rw [enqueueOrder, List.mem_append]
  by_cases hcur : id = cur
  · subst hcur
    exact Or.inr (by simp [hst])
  · have hp := h.prio id hid (by rw [hst]; simp)
    exact Or.inl ((h.set.mem_iff _ hp id).mpr ⟨⟨⟨hid, hst⟩, hcur⟩, rfl⟩)

/-- **What a switch decides.** Either no task is ready and the idle slot becomes current; or the head of
the enqueue order of the most urgent ready tasks does, and its queue is left with the rest. -/
theorem ReadyOthers.schedule_cases (h : ReadyOthers sz k cur) (hr : sz.Representable) (h0 : oldSp ≠ 0) :
    ((∀ id < sz.maxTasks, k.stateOf id ≠ .ready) ∧
      (hrtSchedule sz oldSp k).2.current = some sz.idleId ∧
      ∀ p < sz.maxPrio, enqueueOrder sz k cur p = [] ∧
        (hrtSchedule sz oldSp k).2.readyList sz p = []) ∨
    ∃ n rest, n < sz.maxTasks ∧ k.stateOf n = .ready ∧
      (hrtSchedule sz oldSp k).2.current = some n ∧
      (∀ id < sz.maxTasks, k.stateOf id = .ready → (k.tcbs n).prio ≤ (k.tcbs id).prio) ∧
      enqueueOrder sz k cur (k.tcbs n).prio = n :: rest ∧
      ∀ q, (hrtSchedule sz oldSp k).2.readyList sz q =
        if q = (k.tcbs n).prio then rest else enqueueOrder sz k cur q := by
  obtain ⟨hset, horder⟩ := h.requeue hr h0
  -- a ready task is queued, so queues that are empty leave no ready task
  have hnone : ∀ id < sz.maxTasks, k.stateOf id = .ready →
      (saveOutgoing sz oldSp k).readyList sz (k.tcbs id).prio ≠ [] := by
    intro id hid hst hnil
    have hm := h.mem_enqueueOrder hid hst
    rw [← horder, hnil] at hm
    exact absurd hm List.not_mem_nil
  rcases hset.pick hr with ⟨hempty, heq⟩ | ⟨p, id, hp, hid, hpid, hpre, hhead, heq, -⟩
  · -- nothing is queued: the idle slot is taken and the queues stay empty
    have hsched : (hrtSchedule sz oldSp k).2 =
        { saveOutgoing sz oldSp k with current := some sz.idleId } := by rw [hrtSchedule, heq]
    refine Or.inl ⟨fun id hid hst => ?_, by rw [hsched], fun p hp => ⟨?_, ?_⟩⟩
    · exact hnone id hid hst (hempty _ (h.prio id hid (by rw [hst]; simp)))
    · rw [← horder, hempty p hp]
    · rw [hsched]
      exact hempty p hp
  · have hsched : (hrtSchedule sz oldSp k).2 =
        { dropReady sz p (saveOutgoing sz oldSp k) with current := some id } := by rw [hrtSchedule, heq]
    obtain ⟨rest, hl⟩ := List.head?_eq_some_iff.mp hhead
    obtain rfl : (k.tcbs id).prio = p := (saveOutgoing_same sz oldSp k id).2.symm.trans hpid
    refine Or.inr ⟨id, rest, hid.1, hid.2, by rw [hsched], fun j hj hst => ?_, ?_, fun q => ?_⟩
    · -- a more urgent ready task would be in a queue that the scan found empty
      by_contra hlt
      exact hnone j hj hst (hpre _ (Nat.not_le.mp hlt))
    · rw [← horder, hl]
    · rw [hsched, ← horder, ← readyList_dropReady (hset.wf _ hp) hr hl]
      rfl

/-- In a list without repetitions, removing the head is filtering it out. -/
theorem filter_ne_head {id : ℕ} {rest : List ℕ} (hnd : (id :: rest).Nodup) :
    (id :: rest).filter (fun j => j ≠ id) = rest := by
  have hnotin := (List.nodup_cons.mp hnd).1
  rw [List.filter_cons_of_neg (by simp), List.filter_eq_self]
  intro j hj
  simpa using fun hji : j = id => hnotin (hji ▸ hj)

/-- The queues after a switch are the enqueue orders without the task made current. -/
theorem ReadyOthers.schedule_lists (h : ReadyOthers sz k cur) (hr : sz.Representable) (h0 : oldSp ≠ 0)
    {n : ℕ} (hn : (hrtSchedule sz oldSp k).2.current = some n) {p : ℕ} (hp : p < sz.maxPrio) :
    n ∉ (hrtSchedule sz oldSp k).2.readyList sz p ∧
    (hrtSchedule sz oldSp k).2.readyList sz p = (enqueueOrder sz k cur p).filter fun id => id ≠ n := by
  obtain ⟨hset, horder⟩ := h.requeue hr h0
  rcases h.schedule_cases hr h0 with ⟨-, -, hnil⟩ | ⟨n', rest, -, -, hcur, -, hl, hlists⟩
  · rw [(hnil p hp).1, (hnil p hp).2]
    exact ⟨List.not_mem_nil, rfl⟩
  · obtain rfl : n' = n := Option.some.inj (hcur.symm.trans hn)
    have hnodup := hset.nodup p hp
    rw [horder] at hnodup
    rw [hlists]
    -- the task picked leaves its own queue at the head, and no other queue holds it
    split_ifs with hpe
    · rw [hpe, hl] at hnodup ⊢
      rw [filter_ne_head hnodup]
      exact ⟨(List.nodup_cons.mp hnodup).1, rfl⟩
    · have hnotin : n' ∉ enqueueOrder sz k cur p := by
        rw [← horder, hset.mem_iff p hp, (saveOutgoing_same sz oldSp k n').2]
        exact fun hm => hpe hm.2.symm
      refine ⟨hnotin, (List.filter_eq_self.mpr fun j hj => ?_).symm⟩
      simpa using fun hji : j = n' => hnotin (hji ▸ hj)

/-- **The books are in order after a switch**, with the new current task in place of the old one. -/
theorem ReadyOthers.schedule (h : ReadyOthers sz k cur) (hr : sz.Representable) (h0 : oldSp ≠ 0)
    {n : ℕ} (hn : (hrtSchedule sz oldSp k).2.current = some n) (hlt : n < sz.maxTasks) :
    ReadyOthers sz (hrtSchedule sz oldSp k).2 n := by
  obtain ⟨hset, horder⟩ := h.requeue hr h0
  have hsame := hrtSchedule_same sz oldSp k
  have hgrow := (schedule_entry hr h.set.wf oldSp fun t ht _ => by
    rw [← Option.some.inj (h.current.symm.trans ht)]; exact h.cur_lt).1
  refine ⟨⟨hgrow.wf, fun p hp => ?_, fun p hp id => ?_, fun id hid => hid.1.1⟩, fun id hid hst => ?_,
    ?_, hlt, hn⟩
  · rw [(h.schedule_lists hr h0 hn hp).2]
    have hnodup := hset.nodup p hp
    rw [horder] at hnodup
    exact hnodup.filter _
  · rw [(h.schedule_lists hr h0 hn hp).2, List.mem_filter, ← horder, hset.mem_iff p hp,
      (saveOutgoing_same sz oldSp k id).2, (hsame id).1, (hsame id).2.1, decide_eq_true_eq,
      and_right_comm]
  · rw [(hsame id).2.1]
    exact h.prio id hid ((hsame id).1 ▸ hst)
  · rw [(hsame _).1]
    exact h.idle

/-- **One scheduling decision.** From books in order, `hrt__schedule` with a saved stack pointer makes
the following task `n` current: `HRT_IDLE_ID` exactly if no task is ready; otherwise a ready task of the
smallest priority among all ready tasks, the outgoing one included, which was enqueued first among those
of its priority. `n` is in no ready queue, the other ready tasks are queued once each and in the order
they had, and no task's state, quantum or wake tick has changed. -/
theorem schedule_decision (sz : Sizing) (hr : sz.Representable) (k : Kernel) (cur oldSp : ℕ)
    (h : ReadyOthers sz k cur) (h0 : oldSp ≠ 0) :
    ∃ n, (hrtSchedule sz oldSp k).2.current = some n ∧
      (n = sz.idleId ↔ ∀ id < sz.maxTasks, k.stateOf id ≠ .ready) ∧
      (n ≠ sz.idleId → n < sz.maxTasks ∧ k.stateOf n = .ready ∧
        (∀ id < sz.maxTasks, k.stateOf id = .ready → (k.tcbs n).prio ≤ (k.tcbs id).prio) ∧
        (enqueueOrder sz k cur (k.tcbs n).prio).head? = some n) ∧
      (∀ p < sz.maxPrio, n ∉ (hrtSchedule sz oldSp k).2.readyList sz p ∧
        (hrtSchedule sz oldSp k).2.readyList sz p =
          (enqueueOrder sz k cur p).filter fun id => id ≠ n) ∧
      ReadyOthers sz (hrtSchedule sz oldSp k).2 n ∧
      ∀ id, (hrtSchedule sz oldSp k).2.stateOf id = k.stateOf id ∧
        ((hrtSchedule sz oldSp k).2.tcbs id).sliceLeft = (k.tcbs id).sliceLeft ∧
        ((hrtSchedule sz oldSp k).2.tcbs id).wakeTick = (k.tcbs id).wakeTick := by
  have hsame := hrtSchedule_same sz oldSp k
  rcases h.schedule_cases hr h0 with ⟨hnone, hcur, -⟩ | ⟨n, rest, hlt, hst, hcur, hmin, hl, -⟩
  · exact ⟨sz.idleId, hcur, iff_of_true rfl hnone, fun hne => absurd rfl hne,
      fun p hp => h.schedule_lists hr h0 hcur hp, h.schedule hr h0 hcur sz.idleId_lt,
      fun id => ⟨(hsame id).1, (hsame id).2.2⟩⟩
  · have hne : n ≠ sz.idleId := by
      rintro rfl
      exact h.idle hst
    exact ⟨n, hcur, iff_of_false hne fun hall => hall n hlt hst,
      fun _ => ⟨hlt, hst, hmin, by rw [hl]; rfl⟩, fun p hp => h.schedule_lists hr h0 hcur hp,
      h.schedule hr h0 hcur hlt, fun id => ⟨(hsame id).1, (hsame id).2.2⟩⟩

end Decision

/-- Three ready tasks: task 0 runs at priority 1, tasks 1 and 2 wait at the same priority. -/
def threeReady : Kernel :=
  { Kernel.bss with
    tcbs := fun id => { Tcb.zero with prio := 1, state := if id < 3 then .ready else .unused }
    rq := fun p => if p = 1 then ⟨fun i => i + 1, 0, 2, 2⟩ else ⟨fun _ => 0, 0, 0, 0⟩
    current := some 0 }

/-- The books of `threeReady` are in order. -/
theorem threeReady_books : ReadyOthers .default threeReady 0 := by
  have hlist : ∀ p, threeReady.readyList .default p = if p = 1 then [1, 2] else [] := by
    intro p
    by_cases hp : p = 1
    · subst hp; decide
    · simp [Kernel.readyList, threeReady, hp]
  have hst : ∀ id, threeReady.stateOf id = .ready ↔ id < 3 := by
    intro id
    simp [Kernel.stateOf, threeReady]
  refine ⟨⟨by decide, fun p _ => ?_, fun p _ id => ?_, fun id hid => hid.1.1⟩,
    fun id _ _ => by decide +revert,
    by decide, by decide, rfl⟩
  · rw [hlist]
    split_ifs <;> simp
  · rw [hlist, hst]
    show _ ↔ _ ∧ 1 = p
    split_ifs with hp
    · simp [hp, Sizing.default]
      omega
    · simp [Ne.symm hp]

/-- The next task in turn is chosen, and the outgoing one goes to the end of the queue. -/
theorem schedule_decision_threeReady :
    (hrtSchedule .default 4096 threeReady).2.current = some 1 ∧
    (hrtSchedule .default 4096 threeReady).2.readyList .default 1 = [2, 0] := by
  obtain ⟨n, hcur, -, -, hlists, -⟩ := schedule_decision .default (by decide) threeReady 0 4096
    threeReady_books (by decide)
  have hn : (hrtSchedule .default 4096 threeReady).2.current = some 1 := by decide
  obtain rfl : n = 1 := Option.some.inj (hcur.symm.trans hn)
  exact ⟨hcur, (hlists 1 (by decide)).2.trans (by decide)⟩

end HardRT
