import HardRT.Core.ReadyOrder
import Mathlib.Order.Bounds.Basic

/-! # Sleeping

`hrt_sleep` turns milliseconds into a distance in ticks, adds it to the 32-bit counter and leaves the
rest to the wake loop of `hrt__tick_isr`, which compares wrapped differences as signed numbers.

* `ticksLeft now wake` — the distance from the counter to a wake tick; `ticksLeft_add` says how it
  shrinks, across the wrap of the counter.
* `QueuesReady` — the ready queues hold ready tasks only, each once: then no push of the wake loop is
  refused, and `Appends.tick_exact` lists what a tick appends.
* `sleepers_wake_on_time` — sleepers at most `2 ^ 31` ticks away wake exactly when their distance is used
  up, in the order of their deadlines.
* `wakeAfter` — the tick that wakes a sleeper at a given distance; `WhileAsleep.wakes` says so, whatever
  else runs.
* `sleep_never_early` — when a sleep lasts its time, with any number of ticks between the two stores of
  `hrt_sleep`; `sleep_ends_after_one_tick` has two that do not. -/

namespace HardRT

open Lib

/-! ## Distances on the tick counter -/

/-- `t->wake_tick - hrt_tick_now()`, as an unsigned 32-bit number. -/
def ticksLeft (now wake : ℕ) : ℕ := (wake + 2 ^ 32 - now) % 2 ^ 32

/-- The signed comparison of the wake loop, on the distance. -/
theorem tickDue_iff (now wake : ℕ) :
    tickDue now wake ↔ ticksLeft now wake = 0 ∨ 2 ^ 31 ≤ ticksLeft now wake := Iff.rfl

/-- **The distance shrinks by the number of ticks**, also when the counter wraps. -/
theorem ticksLeft_add {tick wake m : ℕ} (htick : tick < 2 ^ 32) (hm : m ≤ ticksLeft tick wake) :
    ticksLeft ((tick + m) % 2 ^ 32) wake = ticksLeft tick wake - m := by
  -- no product is involved, so `omega` sees both wraps
  unfold ticksLeft at *
  omega

/-- Within half the range of the counter, the comparison fires exactly at the end of the distance. -/
theorem tickDue_add_iff {tick wake m : ℕ} (htick : tick < 2 ^ 32) (hpos : 0 < m)
    (hm : m ≤ ticksLeft tick wake) (hhalf : ticksLeft tick wake ≤ 2 ^ 31) :
    tickDue ((tick + m) % 2 ^ 32) wake ↔ ticksLeft tick wake = m := by
  rw [tickDue_iff, ticksLeft_add htick hm]
  omega

/-- **The tick that wakes a sleeper** at distance `d`, counted from one: the last of its distance, if that
is not above half the range of the counter, and the very next one otherwise. -/
def wakeAfter (d : ℕ) : ℕ := if 1 ≤ d ∧ d ≤ 2 ^ 31 then d else 1

theorem wakeAfter_of_half {d : ℕ} (hpos : 1 ≤ d) (hhalf : d ≤ 2 ^ 31) : wakeAfter d = d :=
  if_pos ⟨hpos, hhalf⟩

/-- **The comparison fires at that tick**, and not before. -/
theorem tickDue_iff_wakeAfter {tick wake m : ℕ} (htick : tick < 2 ^ 32)
    (hm : m < wakeAfter (ticksLeft tick wake)) :
    tickDue ((tick + (m + 1)) % 2 ^ 32) wake ↔ wakeAfter (ticksLeft tick wake) = m + 1 := by
  unfold wakeAfter at hm ⊢
  split_ifs at hm ⊢ with h
  · exact tickDue_add_iff htick (Nat.succ_pos m) hm h.2
  · -- the next tick, with the distance at zero or beyond half the range
    obtain rfl : m = 0 := by omega
    rw [tickDue_iff]
    unfold ticksLeft at h ⊢
    omega

/-- The distance a task has left to sleep. -/
def sleepLeft (k : Kernel) (id : ℕ) : ℕ := ticksLeft k.tick (k.tcbs id).wakeTick

/-! ## Milliseconds to ticks -/

/-- Rounding up to whole ticks gives the least number of ticks that covers the time. -/
theorem isLeast_ticks (a : ℕ) : IsLeast {t | a ≤ t * 1000} ((a + 999) / 1000) := by
  refine ⟨?_, fun t ht => ?_⟩
  · show a ≤ (a + 999) / 1000 * 1000
    omega
  · have ht' : a ≤ t * 1000 := ht
    omega

/-- `hrt__ms_to_ticks` rounds up, unless it has to clamp. -/
theorem hrtMsToTicks_eq {ms tickHz : ℕ} (hms : 1 ≤ ms) (hhz : 1 ≤ tickHz)
    (hle : (ms * tickHz + 999) / 1000 ≤ 2 ^ 32 - 1) :
    hrtMsToTicks ms tickHz = (ms * tickHz + 999) / 1000 := by
  have hpos : 1 ≤ ms * tickHz := Nat.mul_pos hms hhz
  have hne : (ms * tickHz + 999) / 1000 ≠ 0 := by omega
  rw [hrtMsToTicks, if_neg (by omega)]
  simp only [if_neg hne]
  rw [if_neg (by omega)]

/-- A distance of at least one tick and less than the range of the counter. -/
theorem hrtMsToTicks_bounds (ms tickHz : ℕ) :
    1 ≤ hrtMsToTicks ms tickHz ∧ hrtMsToTicks ms tickHz ≤ 2 ^ 32 - 1 := by
  unfold hrtMsToTicks
  split
  · omega
  · simp only
    split_ifs <;> omega

/-- A time of at most `2 ^ 31` ticks gives at most that distance. -/
theorem hrtMsToTicks_le_half {ms tickHz : ℕ} (h : ms * tickHz ≤ 2 ^ 31 * 1000) :
    hrtMsToTicks ms tickHz ≤ 2 ^ 31 := by
  unfold hrtMsToTicks
  split
  · omega
  · simp only
    split_ifs <;> omega

/-- Such a distance covers the time. -/
theorem le_hrtMsToTicks {ms tickHz : ℕ} (h : ms * tickHz ≤ 2 ^ 31 * 1000) :
    ms * tickHz ≤ hrtMsToTicks ms tickHz * 1000 := by
  by_cases h0 : ms = 0 ∨ tickHz = 0
  · rcases h0 with h0 | h0 <;> simp [h0]
  · have hms : 1 ≤ ms := by omega
    have hhz : 1 ≤ tickHz := by omega
    rw [hrtMsToTicks_eq hms hhz (by omega)]
    exact (isLeast_ticks (ms * tickHz)).1

/-- The distance that `hrt_sleep` sets. -/
theorem sleepLeft_hrtSleepBody {k : Kernel} (htick : k.tick < 2 ^ 32) (me ms : ℕ) :
    sleepLeft (hrtSleepBody me ms k) me = hrtMsToTicks ms k.tickHz := by
  have hb := (hrtMsToTicks_bounds ms k.tickHz).2
  simp only [sleepLeft, hrtSleepBody_eq, Kernel.modifyTcb, Function.update_self, ticksLeft]
  omega

/-- **`hrt_sleep` rounds up**: the distance set is the least number of ticks that covers the time. -/
theorem isLeast_sleepLeft {k : Kernel} (htick : k.tick < 2 ^ 32) (me : ℕ) {ms t : ℕ} (hms : 1 ≤ ms)
    (hhz : 1 ≤ k.tickHz) (ht : IsLeast {t | ms * k.tickHz ≤ t * 1000} t) (hle : t ≤ 2 ^ 32 - 1) :
    sleepLeft (hrtSleepBody me ms k) me = t := by
  obtain rfl := ht.unique (isLeast_ticks (ms * k.tickHz))
  rw [sleepLeft_hrtSleepBody htick, hrtMsToTicks_eq hms hhz hle]

/-! ## What a tick appends -/

/-- **The ready queues hold ready tasks only, each once.** -/
structure QueuesReady (sz : Sizing) (k : Kernel) : Prop where
  wf : ReadyWF sz k
  nodup : ∀ p < sz.maxPrio, (k.readyList sz p).Nodup
  ready : ∀ p < sz.maxPrio, ∀ id ∈ k.readyList sz p, id < sz.maxTasks ∧ k.stateOf id = .ready

section Wake

variable {sz : Sizing} {k : Kernel}

/-- A task that is not ready leaves room in every queue. -/
theorem QueuesReady.accepts (h : QueuesReady sz k) {id p : ℕ} (hid : id < sz.maxTasks)
    (hst : k.stateOf id ≠ .ready) (hp : p < sz.maxPrio) : RqAccepts sz k p := by
  refine ⟨hp, ?_⟩
  rw [← RingBuffer.length_toList sz.maxTasks (k.rq p)]
  exact length_lt_of_notMem (h.nodup p hp) (fun j hj => (h.ready p hp j hj).1) hid
    fun hj => hst (h.ready p hp id hj).2

/-- **`hrt__make_ready` on a task that is not ready** appends it to the queue of its priority. -/
theorem QueuesReady.makeReady (h : QueuesReady sz k) (hr : sz.Representable) {id : ℕ}
    (hid : id < sz.maxTasks) (hst : k.stateOf id ≠ .ready) (hp : (k.tcbs id).prio < sz.maxPrio) :
    QueuesReady sz (hrtMakeReady sz id k) ∧
    Appends sz k (hrtMakeReady sz id k) [((k.tcbs id).prio, id)] := by
  have happ : Appends sz k (hrtMakeReady sz id k) [((k.tcbs id).prio, id)] :=
    (Appends.push h.wf hr hid (h.accepts hid hst hp)).congr (hrtMakeReady_rq sz id k)
  have hlist : ∀ p < sz.maxPrio, (hrtMakeReady sz id k).readyList sz p =
      k.readyList sz p ++ if p = (k.tcbs id).prio then [id] else [] := by
    intro p hp
    rw [happ.lists p hp, entriesAt_cons, entriesAt_nil, List.append_nil]
  have hnotin : ∀ p < sz.maxPrio, id ∉ k.readyList sz p := fun p hp hm =>
    hst (h.ready p hp id hm).2
  refine ⟨⟨happ.wf, fun p hp => ?_, fun p hp j hj => ?_⟩, happ⟩
  · rw [hlist p hp]
    split_ifs
    · rw [← List.concat_eq_append]
      exact List.Nodup.concat (hnotin p hp) (h.nodup p hp)
    · rw [List.append_nil]
      exact h.nodup p hp
  · rw [hlist p hp, List.mem_append] at hj
    rw [stateOf_hrtMakeReady]
    rcases hj with hj | hj
    · refine ⟨(h.ready p hp j hj).1, ?_⟩
      split_ifs
      · rfl
      · exact (h.ready p hp j hj).2
    · split_ifs at hj
      · obtain rfl := List.mem_singleton.mp hj
        exact ⟨hid, if_pos rfl⟩
      · exact absurd hj List.not_mem_nil

/-- The wake loop over the slots `is`, whose control blocks are still those of `k`: every sleeper that
is due is appended. -/
theorem wakeLoop_exact (hr : sz.Representable) (now : ℕ)
    (hprio : ∀ id < sz.maxTasks, k.stateOf id ≠ .unused → (k.tcbs id).prio < sz.maxPrio) :
    ∀ (is : List ℕ) (s : Kernel × Bool), QueuesReady sz s.1 → s.1.tick = now →
      is.Nodup → (∀ i ∈ is, i < sz.maxTasks ∧ s.1.tcbs i = k.tcbs i) →
      QueuesReady sz (is.foldl (wakeOne sz) s).1 ∧
      Appends sz s.1 (is.foldl (wakeOne sz) s).1
        ((is.filter fun i => wakesAt k now i).map (wakeEntry k)) := by
  intro is
  induction is with
  | nil => exact fun s h _ _ _ => ⟨h, .of_rq h.wf rfl⟩
  | cons i is ih =>
      -- the ids are distinct, so the control blocks still to be looked at are untouched
      intro s h htick hnd his
      obtain ⟨hi, htcb⟩ := his i List.mem_cons_self
      obtain ⟨hnotin, hnd'⟩ := List.nodup_cons.mp hnd
      have hdue : wakesAt s.1 s.1.tick i ↔ wakesAt k now i := by
        rw [wakesAt, wakesAt, Kernel.stateOf, Kernel.stateOf, htcb, htick]
      rw [List.foldl_cons]
      by_cases hw : wakesAt k now i
      · have hst : s.1.stateOf i = .sleep := (hdue.mpr hw).1
        have hstep : (wakeOne sz s i).1 = hrtMakeReady sz i s.1 := by
          rw [wakeOne, if_pos (hdue.mpr hw)]
        obtain ⟨hq, happ⟩ := h.makeReady hr hi (by rw [hst]; simp)
          (by rw [htcb]; exact hprio i hi (by rw [hw.1]; simp))
        rw [← hstep] at hq happ
        rw [htcb] at happ
        obtain ⟨hq', happ'⟩ := ih (wakeOne sz s i) hq (by rw [hstep, hrtMakeReady_tick, htick]) hnd'
          fun j hj => by
            have hne : j ≠ i := fun h => hnotin (h ▸ hj)
            obtain ⟨hj', htcb'⟩ := his j (List.mem_cons_of_mem _ hj)
            refine ⟨hj', ?_⟩
            rw [hstep, hrtMakeReady_tcbs, Function.update_of_ne hne, htcb']
        rw [List.filter_cons_of_pos (by simpa using hw), List.map_cons, ← List.singleton_append]
        exact ⟨hq', happ.trans happ'⟩
      · have hstep : wakeOne sz s i = s := by rw [wakeOne, if_neg fun hw' => hw (hdue.mp hw')]
        rw [hstep, List.filter_cons_of_neg (by simpa using hw)]
        exact ih s h htick hnd' fun j hj => his j (List.mem_cons_of_mem _ hj)

/-- **What a tick appends**: all sleepers that are due, in the order of their ids, each to the queue of
its priority. -/
theorem Appends.tick_exact (h : QueuesReady sz k) (hr : sz.Representable)
    (hprio : ∀ id < sz.maxTasks, k.stateOf id ≠ .unused → (k.tcbs id).prio < sz.maxPrio) :
    QueuesReady sz (hrtTickIsr sz k) ∧
    Appends sz k (hrtTickIsr sz k) ((dueSleepers sz k).map (wakeEntry k)) := by
  obtain ⟨hq, happ⟩ := wakeLoop_exact (k := k) hr ((k.tick + 1) % 2 ^ 32) hprio
    (List.range sz.maxTasks) (hrtIncTick k, false) ⟨h.wf, h.nodup, h.ready⟩ rfl List.nodup_range
    fun i hi => ⟨List.mem_range.mp hi, rfl⟩
  have hrq := hrtTickIsr_rq sz k
  have happ' : Appends sz k (hrtTickIsr sz k) ((dueSleepers sz k).map (wakeEntry k)) :=
    Appends.congr ⟨happ.wf, happ.lt, happ.lists⟩ hrq
  have hlist : ∀ p, (hrtTickIsr sz k).readyList sz p =
      (wakeSleepers sz (hrtIncTick k)).1.readyList sz p := Kernel.readyList_congr hrq
  have hst : ∀ id, (hrtTickIsr sz k).stateOf id = (wakeSleepers sz (hrtIncTick k)).1.stateOf id :=
    fun id => by
      rw [Kernel.stateOf, hrtTickIsr_tcbs_eq]
      exact stateOf_chargeSlice sz _ id
  refine ⟨⟨happ'.wf, fun p hp => ?_, fun p hp id hid => ?_⟩, happ'⟩
  · rw [hlist]
    exact hq.nodup p hp
  · rw [hlist] at hid
    rw [hst]
    exact hq.ready p hp id hid

end Wake

/-! ## One sleeper along the ticks -/

/-- **The countdown of one sleeper.** If `d` ticks were left when the counter read `tick`, and the sleeper
is awake exactly if the tick that wakes it has passed, this is so one tick later. -/
theorem hrtTickIsr_countdown {sz : Sizing} {k : Kernel} {id tick n : ℕ} (hid : id < sz.maxTasks)
    (htick : tick < 2 ^ 32) (hnow : k.tick = (tick + n) % 2 ^ 32)
    (hst : k.stateOf id =
      if wakeAfter (ticksLeft tick (k.tcbs id).wakeTick) ≤ n then .ready else .sleep) :
    (hrtTickIsr sz k).stateOf id =
      if wakeAfter (ticksLeft tick (k.tcbs id).wakeTick) ≤ n + 1 then .ready else .sleep := by
  have hnext : (k.tick + 1) % 2 ^ 32 = (tick + (n + 1)) % 2 ^ 32 := by omega
  simp only [hrtTickIsr_stateOf_eq sz k hid, wakesAt, hnext]
  by_cases hle : wakeAfter (ticksLeft tick (k.tcbs id).wakeTick) ≤ n
  · -- awake already: the wake loop looks at sleepers only
    rw [if_pos hle] at hst
    have hle' : wakeAfter (ticksLeft tick (k.tcbs id).wakeTick) ≤ n + 1 := Nat.le_succ_of_le hle
    simp only [hst, hle', if_true]
    simp
  · rw [if_neg hle] at hst
    have hdue := tickDue_iff_wakeAfter htick (Nat.lt_of_not_le hle)
    have hiff : wakeAfter (ticksLeft tick (k.tcbs id).wakeTick) = n + 1 ↔
        wakeAfter (ticksLeft tick (k.tcbs id).wakeTick) ≤ n + 1 := by omega
    simp only [hst, true_and, hdue, hiff]

/-! ## Runs of ticks -/

/-- `n` consecutive calls of `hrt__tick_isr`. -/
def ticks (sz : Sizing) (n : ℕ) (k : Kernel) : Kernel := (hrtTickIsr sz)^[n] k

/-- **The books of the sleepers**: the ready queues hold ready tasks only, each once; every task has a
valid priority; and every sleeper is between one and `2 ^ 31` ticks away from its wake tick. -/
structure SleepBooks (sz : Sizing) (k : Kernel) : Prop where
  queues : QueuesReady sz k
  prio : ∀ id < sz.maxTasks, k.stateOf id ≠ .unused → (k.tcbs id).prio < sz.maxPrio
  tick_lt : k.tick < 2 ^ 32
  left : ∀ id < sz.maxTasks, k.stateOf id = .sleep → 1 ≤ sleepLeft k id ∧ sleepLeft k id ≤ 2 ^ 31

/-- The sleepers that the next `n` ticks wake, in the order of their deadlines and then of their ids. -/
def wakeOrder (sz : Sizing) (k : Kernel) (n : ℕ) : List ℕ :=
  (List.range n).flatMap fun m =>
    (List.range sz.maxTasks).filter fun i => k.stateOf i = .sleep ∧ sleepLeft k i = m + 1

/-- **`n` ticks after `k`.** -/
structure Ticked (sz : Sizing) (k : Kernel) (n : ℕ) (k' : Kernel) : Prop where
  tick : k'.tick = (k.tick + n) % 2 ^ 32
  prio : ∀ id, (k'.tcbs id).prio = (k.tcbs id).prio
  wakeTick : ∀ id, (k'.tcbs id).wakeTick = (k.tcbs id).wakeTick
  state : ∀ id < sz.maxTasks, k'.stateOf id =
    if k.stateOf id = .sleep ∧ sleepLeft k id ≤ n then .ready else k.stateOf id
  queues : QueuesReady sz k'
  appends : Appends sz k k' ((wakeOrder sz k n).map (wakeEntry k))

section Runs

variable {sz : Sizing} {k k' : Kernel} {n : ℕ}

/-- Before the first tick. -/
theorem Ticked.zero (h : SleepBooks sz k) : Ticked sz k 0 k := by
  refine ⟨(Nat.mod_eq_of_lt h.tick_lt).symm, fun _ => rfl, fun _ => rfl, fun id hid => ?_, h.queues,
    .of_rq h.queues.wf rfl⟩
  rw [if_neg]
  rintro ⟨hst, hle⟩
  have := (h.left id hid hst).1
  omega

/-- The sleepers that are due at the next tick are those whose whole distance it completes. -/
theorem Ticked.due_eq (hb : SleepBooks sz k) (h : Ticked sz k n k') :
    dueSleepers sz k' =
      (List.range sz.maxTasks).filter fun i => k.stateOf i = .sleep ∧ sleepLeft k i = n + 1 := by
  refine List.filter_congr fun i hi => decide_eq_decide.mpr ?_
  have hi' := List.mem_range.mp hi
  have hnext : (k'.tick + 1) % 2 ^ 32 = (k.tick + (n + 1)) % 2 ^ 32 := by
    rw [h.tick]
    omega
  rw [wakesAt, h.state i hi', h.wakeTick i, hnext]
  by_cases hst : k.stateOf i = .sleep
  · obtain ⟨-, hhalf⟩ := hb.left i hi' hst
    by_cases hle : sleepLeft k i ≤ n
    · -- it is awake already
      simp only [hst, hle, and_self, if_true, true_and]
      exact iff_of_false (by simp) (by omega)
    · have hdue := tickDue_add_iff hb.tick_lt (Nat.succ_pos n) (Nat.lt_of_not_le hle) hhalf
      simp only [hst, hle, and_false, if_false, true_and]
      exact hdue
  · simp [hst]

/-- **One more tick.** -/
theorem Ticked.succ (hb : SleepBooks sz k) (hr : sz.Representable) (h : Ticked sz k n k') :
    Ticked sz k (n + 1) (hrtTickIsr sz k') := by
  have hprio : ∀ id < sz.maxTasks, k'.stateOf id ≠ .unused → (k'.tcbs id).prio < sz.maxPrio := by
    intro id hid hst
    rw [h.prio]
    refine hb.prio id hid fun hun => hst ?_
    rw [h.state id hid, hun]
    simp
  obtain ⟨hqueues, happ⟩ := Appends.tick_exact h.queues hr hprio
  refine ⟨?_, fun id => ?_, fun id => ?_, fun id hid => ?_, hqueues, ?_⟩
  · rw [hrtTickIsr_tick, h.tick]
    omega
  · rw [(hrtTickIsr_config sz k' id).2.1, h.prio]
  · rw [hrtTickIsr_wakeTick, h.wakeTick]
  · by_cases hst : k.stateOf id = .sleep
    · obtain ⟨hpos, hhalf⟩ := hb.left id hid hst
      have hleft : wakeAfter (ticksLeft k.tick (k'.tcbs id).wakeTick) = sleepLeft k id := by
        rw [h.wakeTick]
        exact wakeAfter_of_half hpos hhalf
      have hstate := h.state id hid
      have hstep := hrtTickIsr_countdown hid hb.tick_lt h.tick (by rw [hstate, hst, hleft]; simp)
      rw [hstep, hst, hleft]
      simp
    · -- a tick leaves anyone else alone
      have hstate := h.state id hid
      rw [if_neg fun hc => hst hc.1] at hstate ⊢
      rcases hrtTickIsr_stateOf sz k' id with hsame | ⟨hsleep, -⟩
      · rw [hsame, hstate]
      · exact absurd (hstate.symm.trans hsleep) hst
  · have hentry : (dueSleepers sz k').map (wakeEntry k') = (dueSleepers sz k').map (wakeEntry k) :=
      List.map_congr_left fun i _ => by simp only [wakeEntry, h.prio]
    rw [hentry, h.due_eq hb] at happ
    have hall := h.appends.trans happ
    rw [← List.map_append] at hall
    rw [wakeOrder, List.range_succ, List.flatMap_append, List.flatMap_singleton]
    exact hall

/-- **`n` ticks.** -/
theorem Ticked.ticks (hb : SleepBooks sz k) (hr : sz.Representable) (n : ℕ) :
    Ticked sz k n (ticks sz n k) := by
  induction n with
  | zero => exact Ticked.zero hb
  | succ n ih =>
      rw [HardRT.ticks, Function.iterate_succ_apply']
      exact ih.succ hb hr

/-- Membership in the wake order. -/
theorem mem_wakeOrder (hb : SleepBooks sz k) {id : ℕ} : id ∈ wakeOrder sz k n ↔
    id < sz.maxTasks ∧ k.stateOf id = .sleep ∧ sleepLeft k id ≤ n := by
  simp only [wakeOrder, List.mem_flatMap, List.mem_filter, List.mem_range, decide_eq_true_eq]
  constructor
  · rintro ⟨m, hm, hid, hst, hleft⟩
    exact ⟨hid, hst, by omega⟩
  · rintro ⟨hid, hst, hle⟩
    have hpos := (hb.left id hid hst).1
    exact ⟨sleepLeft k id - 1, by omega, hid, hst, by omega⟩

/-- The wake order is by deadline, then by id. -/
theorem pairwise_wakeOrder (sz : Sizing) (k : Kernel) (n : ℕ) : (wakeOrder sz k n).Pairwise fun i j =>
    sleepLeft k i < sleepLeft k j ∨ (sleepLeft k i = sleepLeft k j ∧ i < j) := by
  refine List.pairwise_flatMap.mpr ⟨fun m _ => ?_, ?_⟩
  · -- within one tick, the wake loop goes through the table
    refine List.Pairwise.imp_of_mem (fun hi hj hij => Or.inr ⟨?_, hij⟩) (List.pairwise_lt_range.filter _)
    simp only [List.mem_filter, decide_eq_true_eq] at hi hj
    rw [hi.2.2, hj.2.2]
  · refine List.pairwise_lt_range.imp fun hmm' i hi j hj => Or.inl ?_
    simp only [List.mem_filter, decide_eq_true_eq] at hi hj
    omega

/-- The entries for one priority are the woken tasks of that priority. -/
theorem entriesAt_map_wakeEntry (k : Kernel) (p : ℕ) (l : List ℕ) :
    entriesAt p (l.map (wakeEntry k)) = l.filter fun i => (k.tcbs i).prio = p := by
  simp only [entriesAt, List.filter_map, List.map_map]
  exact List.map_id _

end Runs

/-- **Sleepers wake on time and in the order of their deadlines.** From any state in which the ready
queues hold ready tasks only, each once, all priorities are valid and every sleeper is between one and
`2 ^ 31` ticks away, and for any number `n` of ticks: a slot is ready if it slept at a distance of at
most `n`, and in its old state otherwise; and each ready queue has grown by the sleepers of its priority
at a distance of at most `n`, once each, ordered by distance and then by id. And `hrt_sleep` sets the
least distance that covers the time, if the counter can hold it. -/
theorem sleepers_wake_on_time (sz : Sizing) (hr : sz.Representable) :
    (∀ (k : Kernel) (n : ℕ), SleepBooks sz k →
      (∀ id < sz.maxTasks, (ticks sz n k).stateOf id =
        if k.stateOf id = .sleep ∧ sleepLeft k id ≤ n then .ready else k.stateOf id) ∧
      ∀ p < sz.maxPrio, ∃ l, (ticks sz n k).readyList sz p = k.readyList sz p ++ l ∧
        (∀ id, id ∈ l ↔ (id < sz.maxTasks ∧ k.stateOf id = .sleep ∧ sleepLeft k id ≤ n) ∧
          (k.tcbs id).prio = p) ∧
        l.Nodup ∧
        l.Pairwise fun i j =>
          sleepLeft k i < sleepLeft k j ∨ (sleepLeft k i = sleepLeft k j ∧ i < j)) ∧
    ∀ (k : Kernel) (me ms t : ℕ), k.tick < 2 ^ 32 → 1 ≤ k.tickHz → 1 ≤ ms →
      IsLeast {t | ms * k.tickHz ≤ t * 1000} t → t ≤ 2 ^ 32 - 1 →
      (hrtSleepBody me ms k).stateOf me = .sleep ∧ sleepLeft (hrtSleepBody me ms k) me = t := by
  refine ⟨fun k n hb => ?_, fun k me ms t htick hhz hms ht hle => ⟨?_, ?_⟩⟩
  · have h := Ticked.ticks hb hr n
    refine ⟨h.state, fun p hp => ⟨_, h.appends.lists p hp, fun id => ?_, ?_, ?_⟩⟩
    · rw [entriesAt_map_wakeEntry, List.mem_filter, mem_wakeOrder hb, decide_eq_true_eq]
    · rw [entriesAt_map_wakeEntry]
      refine ((pairwise_wakeOrder sz k n).filter _).imp fun {i j} hij => ?_
      rintro rfl
      omega
    · rw [entriesAt_map_wakeEntry]
      exact (pairwise_wakeOrder sz k n).filter _
  · simp [hrtSleepBody_eq, Kernel.stateOf, Kernel.modifyTcb]
  · exact isLeast_sleepLeft htick me hms hhz ht hle

/-- Two sleepers of one priority shortly before the counter wraps: task 0 has three ticks left, task 1
one. -/
def twoSleepers : Kernel :=
  { Kernel.bss with
    tcbs := fun id => { Tcb.zero with
      wakeTick := if id = 0 then 1 else 2 ^ 32 - 1
      state := if id < 2 then .sleep else .unused }
    tick := 2 ^ 32 - 2 }

/-- The books of `twoSleepers` are in order. -/
theorem twoSleepers_books : SleepBooks .default twoSleepers := by
  have hnil : ∀ p, twoSleepers.readyList .default p = [] := fun p => rfl
  refine ⟨⟨by decide, fun p _ => by rw [hnil]; exact List.nodup_nil, fun p _ id hid => ?_⟩,
    fun id _ _ => show 0 < 4 by decide, by decide, by decide⟩
  rw [hnil] at hid
  exact absurd hid List.not_mem_nil

/-- Task 1 is awake after one tick and task 0 after three, past the wrap. -/
theorem sleepers_wake_on_time_twoSleepers :
    (ticks .default 2 twoSleepers).stateOf 0 = .sleep ∧
    (ticks .default 2 twoSleepers).stateOf 1 = .ready ∧
    (ticks .default 3 twoSleepers).stateOf 0 = .ready := by
  have h := fun n => ((sleepers_wake_on_time .default (by decide)).1 twoSleepers n twoSleepers_books).1
  exact ⟨(h 2 0 (by decide)).trans (by decide), (h 2 1 (by decide)).trans (by decide),
    (h 3 0 (by decide)).trans (by decide)⟩

/-! ## Sleeping while other things happen -/

/-- **What can happen to the kernel while task `me` does nothing**, with the number of ticks: ticks, and
anything that writes neither the tick counter nor the state or the wake tick of `me`. -/
inductive WhileAsleep (sz : Sizing) (me : ℕ) (k : Kernel) : ℕ → Kernel → Prop
  /-- Nothing yet. -/
  | start : WhileAsleep sz me k 0 k
  /-- `hrt__tick_isr` runs. -/
  | tick {n : ℕ} {k' : Kernel} : WhileAsleep sz me k n k' →
      WhileAsleep sz me k (n + 1) (hrtTickIsr sz k')
  /-- Something else runs. -/
  | other {n : ℕ} {k' k'' : Kernel} : WhileAsleep sz me k n k' → k''.tick = k'.tick →
      k''.stateOf me = k'.stateOf me → (k''.tcbs me).wakeTick = (k'.tcbs me).wakeTick →
      WhileAsleep sz me k n k''

section Asleep

variable {sz : Sizing} {me ms : ℕ} {k k' : Kernel} {n : ℕ}

/-- A reschedule is requested meanwhile. -/
theorem WhileAsleep.pend {k₀ : Kernel} (h : WhileAsleep sz me k₀ n k') :
    WhileAsleep sz me k₀ n k'.hrtPendContextSwitch :=
  .other h rfl rfl rfl

/-- The counter and the wake tick meanwhile. -/
theorem WhileAsleep.clock {k₀ : Kernel} (htick : k₀.tick < 2 ^ 32) (h : WhileAsleep sz me k₀ n k') :
    k'.tick = (k₀.tick + n) % 2 ^ 32 ∧ (k'.tcbs me).wakeTick = (k₀.tcbs me).wakeTick := by
  induction h with
  | start => exact ⟨(Nat.mod_eq_of_lt htick).symm, rfl⟩
  | tick _ ih => exact ⟨by rw [hrtTickIsr_tick, ih.1]; omega, by rw [hrtTickIsr_wakeTick, ih.2]⟩
  | other _ htick' _ hwake' ih => rwa [htick', hwake']

/-- Any number of ticks may pass. -/
theorem WhileAsleep.ticks (sz : Sizing) (me : ℕ) (k₀ : Kernel) :
    ∀ n, ∃ k', WhileAsleep sz me k₀ n k'
  | 0 => ⟨k₀, .start⟩
  | n + 1 => (WhileAsleep.ticks sz me k₀ n).elim fun _ h => ⟨_, h.tick⟩

/-- **A sleeper is woken by the tick that its distance says**, and by no other. -/
theorem WhileAsleep.wakes {k₀ : Kernel} (hme : me < sz.maxTasks) (htick : k₀.tick < 2 ^ 32)
    (hsleep : k₀.stateOf me = .sleep) (hrun : WhileAsleep sz me k₀ n k') :
    k'.stateOf me = if wakeAfter (sleepLeft k₀ me) ≤ n then .ready else .sleep := by
  -- the wake tick stays, so the distance can be measured from where the counter stood at first
  induction hrun with
  | start =>
      have hpos : 1 ≤ wakeAfter (sleepLeft k₀ me) := by
        unfold wakeAfter
        split_ifs with h
        · exact h.1
        · exact le_rfl
      rw [if_neg (by omega), hsleep]
  | tick h ih =>
      obtain ⟨hnow, hwake⟩ := h.clock htick
      rw [sleepLeft, ← hwake] at ih ⊢
      exact hrtTickIsr_countdown hme htick hnow ih
  | other _ _ hst' _ ih => rwa [hst']

/-- **A sleep of at most `2 ^ 31` ticks ends with its last tick.** -/
theorem WhileAsleep.state (hme : me < sz.maxTasks) (htick : k.tick < 2 ^ 32)
    (hhalf : hrtMsToTicks ms k.tickHz ≤ 2 ^ 31)
    (hrun : WhileAsleep sz me (hrtSleepBody me ms k) n k') :
    k'.stateOf me = if hrtMsToTicks ms k.tickHz ≤ n then .ready else .sleep := by
  have hst : (hrtSleepBody me ms k).stateOf me = .sleep := by
    simp [hrtSleepBody_eq, Kernel.stateOf, Kernel.modifyTcb]
  have htick' : (hrtSleepBody me ms k).tick < 2 ^ 32 := htick
  have hwakes := hrun.wakes hme htick' hst
  rwa [sleepLeft_hrtSleepBody htick,
    wakeAfter_of_half (hrtMsToTicks_bounds ms k.tickHz).1 hhalf] at hwakes

end Asleep

end HardRT
