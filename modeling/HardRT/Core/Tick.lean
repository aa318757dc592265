import HardRT.Core.Task

/-! # The tick handler

`hrt__tick_isr` of `src/core/hardrt_sched.c`: advance time, wake every sleeper that is due, charge the
quantum of the current task, and request a reschedule if a task woke or the quantum ran out. -/

namespace HardRT

open Lib

/-- `(int32_t)(t->wake_tick - hrt_tick_now()) <= 0`, the wrap-safe comparison of the wake loop. -/
def tickDue (now wake : ℕ) : Prop :=
  (wake + 2 ^ 32 - now) % 2 ^ 32 = 0 ∨ 2 ^ 31 ≤ (wake + 2 ^ 32 - now) % 2 ^ 32

instance (now wake : ℕ) : Decidable (tickDue now wake) :=
  inferInstanceAs (Decidable (_ ∨ _))

/-- A sleeper the wake loop makes ready when the counter reads `now`. -/
def wakesAt (k : Kernel) (now id : ℕ) : Prop :=
  k.stateOf id = .sleep ∧ tickDue now (k.tcbs id).wakeTick

instance (k : Kernel) (now id : ℕ) : Decidable (wakesAt k now id) :=
  inferInstanceAs (Decidable (_ ∧ _))

/-- `hrt__inc_tick`. -/
def hrtIncTick (k : Kernel) : Kernel := { k with tick := (k.tick + 1) % 2 ^ 32 }

/-- One iteration of the wake loop; the flag is `triggerPendSV`. -/
def wakeOne (sz : Sizing) (s : Kernel × Bool) (i : ℕ) : Kernel × Bool :=
  if wakesAt s.1 s.1.tick i then (hrtMakeReady sz i s.1, true) else s

/-- The wake loop over the whole task table. -/
def wakeSleepers (sz : Sizing) (k : Kernel) : Kernel × Bool :=
  (List.range sz.maxTasks).foldl (wakeOne sz) (k, false)

/-- The quantum accounting of `hrt__tick_isr`; the flag says that the quantum ran out. -/
def chargeSlice (sz : Sizing) (k : Kernel) : Kernel × Bool :=
  match k.current with
  | none => (k.hrtError .invalidId, false)
  | some cur =>
      if sz.maxTasks ≤ cur then (k.hrtError .invalidId, false)
      else if k.stateOf cur = .ready ∧ k.policy.sliced ∧ 0 < (k.tcbs cur).timesliceCfg ∧
          0 < (k.tcbs cur).sliceLeft then
        (k.modifyTcb cur fun t => { t with sliceLeft := t.sliceLeft - 1 },
          (k.tcbs cur).sliceLeft = 1)
      else (k, false)

/-- `hrt__tick_isr`. -/
def hrtTickIsr (sz : Sizing) (k : Kernel) : Kernel :=
  let w := wakeSleepers sz (hrtIncTick k)
  let c := chargeSlice sz w.1
  if w.2 || c.2 then c.1.hrtPendContextSwitch else c.1

/-! ## Invariants of the wake loop -/

/-- **Induction over the wake loop** from any point on: a property of the pair (kernel, flag) that holds
there and is kept by waking a due sleeper holds after it. -/
theorem foldl_wakeOne_induction {sz : Sizing} (I : Kernel × Bool → Prop) {is : List ℕ}
    {s : Kernel × Bool} (h0 : I s)
    (hstep : ∀ s i, I s → i ∈ is → wakesAt s.1 s.1.tick i → I (hrtMakeReady sz i s.1, true)) :
    I (is.foldl (wakeOne sz) s) := by
  induction is generalizing s with
  | nil => exact h0
  | cons i is ih =>
      rw [List.foldl_cons]
      refine ih ?_ fun s j hs hj => hstep s j hs (List.mem_cons_of_mem _ hj)
      unfold wakeOne
      split
      · exact hstep s i h0 List.mem_cons_self ‹_›
      · exact h0

/-- **Induction over the wake loop.** A property of the pair (kernel, flag) that holds before the loop
and is kept by waking a due sleeper holds after it. -/
theorem wakeSleepers_induction {sz : Sizing} {k : Kernel} (I : Kernel × Bool → Prop)
    (h0 : I (k, false))
    (hstep : ∀ s i, I s → i < sz.maxTasks → wakesAt s.1 s.1.tick i →
      I (hrtMakeReady sz i s.1, true)) : I (wakeSleepers sz k) :=
  foldl_wakeOne_induction I h0 fun s i hs hi => hstep s i hs (List.mem_range.mp hi)

/-- The wake loop over the slots `is` makes those of them ready that are due, and changes no other
state. -/
theorem foldl_wakeOne_stateOf (sz : Sizing) (is : List ℕ) (s : Kernel × Bool) (i : ℕ) :
    (is.foldl (wakeOne sz) s).1.stateOf i =
      if i ∈ is ∧ wakesAt s.1 s.1.tick i then .ready else s.1.stateOf i := by
  induction is generalizing s with
  | nil => simp
  | cons j is ih =>
      rw [List.foldl_cons, ih]
      by_cases hw : wakesAt s.1 s.1.tick j
      · rw [wakeOne, if_pos hw]
        by_cases hij : i = j
        · -- once woken, it is not asleep any more
          subst hij
          simp [hw]
        · have hsame : wakesAt (hrtMakeReady sz j s.1) (hrtMakeReady sz j s.1).tick i ↔
              wakesAt s.1 s.1.tick i := by
            rw [wakesAt, wakesAt, stateOf_hrtMakeReady, if_neg hij, hrtMakeReady_tcbs,
              Function.update_of_ne hij, hrtMakeReady_tick]
          simp only [hsame, stateOf_hrtMakeReady, List.mem_cons, hij, false_or, if_false]
      · rw [wakeOne, if_neg hw]
        by_cases hij : i = j
        · subst hij
          simp [hw]
        · simp only [List.mem_cons, hij, false_or]

/-- The wake loop leaves everything but control blocks and ready queues alone. -/
theorem wakeSleepers_frame (sz : Sizing) (k : Kernel) :
    (wakeSleepers sz k).1.current = k.current ∧ (wakeSleepers sz k).1.tick = k.tick ∧
    (wakeSleepers sz k).1.tickHz = k.tickHz ∧ (wakeSleepers sz k).1.policy = k.policy ∧
    (wakeSleepers sz k).1.pend = k.pend ∧ (wakeSleepers sz k).1.sems = k.sems ∧
    (wakeSleepers sz k).1.mutexes = k.mutexes ∧ (wakeSleepers sz k).1.queues = k.queues := by
  refine wakeSleepers_induction (k := k) (fun s => s.1.current = k.current ∧ s.1.tick = k.tick ∧
    s.1.tickHz = k.tickHz ∧ s.1.policy = k.policy ∧ s.1.pend = k.pend ∧ s.1.sems = k.sems ∧
    s.1.mutexes = k.mutexes ∧ s.1.queues = k.queues) (by simp) ?_
  intro s i hs _ _
  simpa using hs

/-- The kernel a tick leaves, before the reschedule request. -/
def tickCore (sz : Sizing) (k : Kernel) : Kernel :=
  (chargeSlice sz (wakeSleepers sz (hrtIncTick k)).1).1

/-- A tick either requests a reschedule or does not; nothing else depends on it. -/
theorem hrtTickIsr_cases (sz : Sizing) (k : Kernel) :
    hrtTickIsr sz k = (tickCore sz k).hrtPendContextSwitch ∨ hrtTickIsr sz k = tickCore sz k := by
  unfold hrtTickIsr tickCore
  simp only
  split
  · exact Or.inl rfl
  · exact Or.inr rfl

/-- The quantum accounting changes at most one control block. -/
theorem chargeSlice_frame (sz : Sizing) (k : Kernel) :
    (chargeSlice sz k).1.current = k.current ∧ (chargeSlice sz k).1.tick = k.tick ∧
    (chargeSlice sz k).1.tickHz = k.tickHz ∧ (chargeSlice sz k).1.policy = k.policy ∧
    (chargeSlice sz k).1.pend = k.pend ∧ (chargeSlice sz k).1.sems = k.sems ∧
    (chargeSlice sz k).1.mutexes = k.mutexes ∧ (chargeSlice sz k).1.queues = k.queues ∧
    (chargeSlice sz k).1.rq = k.rq := by
  unfold chargeSlice
  split
  · simp [Kernel.hrtError]
  · split_ifs <;> simp [Kernel.hrtError, Kernel.modifyTcb]

/-- The quantum accounting only ever changes `slice_left`. -/
theorem chargeSlice_tcbs (sz : Sizing) (k : Kernel) (j : ℕ) :
    ∃ n, (chargeSlice sz k).1.tcbs j = { k.tcbs j with sliceLeft := n } := by
  unfold chargeSlice
  split
  · exact ⟨_, rfl⟩
  · rename_i cur _
    split_ifs
    · exact ⟨_, rfl⟩
    · by_cases h : j = cur
      · subst h
        exact ⟨(k.tcbs j).sliceLeft - 1, by simp [Kernel.modifyTcb]⟩
      · exact ⟨(k.tcbs j).sliceLeft, by simp [Kernel.modifyTcb, h]⟩
    · exact ⟨_, rfl⟩

/-- The quantum accounting changes no task's state. -/
@[simp] theorem stateOf_chargeSlice (sz : Sizing) (k : Kernel) (j : ℕ) :
    (chargeSlice sz k).1.stateOf j = k.stateOf j := by
  obtain ⟨n, hn⟩ := chargeSlice_tcbs sz k j
  rw [Kernel.stateOf, hn]
  rfl

/-- **A tick changes states from sleeping to ready only.** -/
theorem hrtTickIsr_stateOf (sz : Sizing) (k : Kernel) (j : ℕ) :
    (hrtTickIsr sz k).stateOf j = k.stateOf j ∨
    (k.stateOf j = .sleep ∧ (hrtTickIsr sz k).stateOf j = .ready) := by
  have hwake : ∀ i, (wakeSleepers sz (hrtIncTick k)).1.stateOf i = k.stateOf i ∨
      (k.stateOf i = .sleep ∧ (wakeSleepers sz (hrtIncTick k)).1.stateOf i = .ready) := by
    refine wakeSleepers_induction (k := hrtIncTick k) (fun s => ∀ i, s.1.stateOf i = k.stateOf i ∨
      (k.stateOf i = .sleep ∧ s.1.stateOf i = .ready)) (fun i => Or.inl rfl) ?_
    intro s i hs _ hw i'
    rw [stateOf_hrtMakeReady]
    by_cases hi : i' = i
    · subst hi
      rw [if_pos rfl]
      rcases hs i' with hsame | ⟨hsleep, -⟩
      · exact Or.inr ⟨hsame ▸ hw.1, rfl⟩
      · exact Or.inr ⟨hsleep, rfl⟩
    · rw [if_neg hi]
      exact hs i'
  have hcore : (tickCore sz k).stateOf j = k.stateOf j ∨
      (k.stateOf j = .sleep ∧ (tickCore sz k).stateOf j = .ready) := by
    rw [tickCore, stateOf_chargeSlice]
    exact hwake j
  rcases hrtTickIsr_cases sz k with h | h
  · rw [h]
    exact hcore
  · rw [h]
    exact hcore

/-- **The state of a slot after a tick**: ready if it slept and is due, and otherwise as before. -/
theorem hrtTickIsr_stateOf_eq (sz : Sizing) (k : Kernel) {id : ℕ} (hid : id < sz.maxTasks) :
    (hrtTickIsr sz k).stateOf id =
      if wakesAt k ((k.tick + 1) % 2 ^ 32) id then .ready else k.stateOf id := by
  have hloop := foldl_wakeOne_stateOf sz (List.range sz.maxTasks) (hrtIncTick k, false) id
  have hcore : (tickCore sz k).stateOf id =
      if wakesAt k ((k.tick + 1) % 2 ^ 32) id then .ready else k.stateOf id := by
    rw [tickCore, stateOf_chargeSlice, wakeSleepers, hloop]
    simp only [List.mem_range, hid, true_and]
    rfl
  rcases hrtTickIsr_cases sz k with h | h
  · rw [h]
    exact hcore
  · rw [h]
    exact hcore

/-- A tick neither frees a slot nor fills one. -/
theorem hrtTickIsr_unused_iff (sz : Sizing) (k : Kernel) (j : ℕ) :
    (hrtTickIsr sz k).stateOf j = .unused ↔ k.stateOf j = .unused := by
  rcases hrtTickIsr_stateOf sz k j with h | ⟨h1, h2⟩
  · rw [h]
  · simp [h1, h2]

/-- A tick neither blocks nor unblocks a task. -/
theorem hrtTickIsr_blocked_iff (sz : Sizing) (k : Kernel) (j : ℕ) :
    (hrtTickIsr sz k).stateOf j = .blocked ↔ k.stateOf j = .blocked := by
  rcases hrtTickIsr_stateOf sz k j with h | ⟨h1, h2⟩
  · rw [h]
  · simp [h1, h2]

/-- A tick leaves ready tasks ready. -/
theorem hrtTickIsr_ready {sz : Sizing} {k : Kernel} {j : ℕ} (h : k.stateOf j = .ready) :
    (hrtTickIsr sz k).stateOf j = .ready := by
  rcases hrtTickIsr_stateOf sz k j with hs | ⟨-, hs⟩
  · exact hs.trans h
  · exact hs

/-- A tick leaves the current task and the policy alone and withdraws no request. -/
theorem hrtTickIsr_frame (sz : Sizing) (k : Kernel) :
    (hrtTickIsr sz k).current = k.current ∧ (hrtTickIsr sz k).policy = k.policy ∧
    (k.pend = true → (hrtTickIsr sz k).pend = true) := by
  obtain ⟨hcur, -, -, hpol, hpend, -⟩ := wakeSleepers_frame sz (hrtIncTick k)
  obtain ⟨hcur', -, -, hpol', hpend', -⟩ := chargeSlice_frame sz (wakeSleepers sz (hrtIncTick k)).1
  have hc : (tickCore sz k).current = k.current := hcur'.trans hcur
  have hp : (tickCore sz k).policy = k.policy := hpol'.trans hpol
  have hb : (tickCore sz k).pend = k.pend := hpend'.trans hpend
  rcases hrtTickIsr_cases sz k with h | h
  · rw [h]
    exact ⟨hc, hp, fun _ => rfl⟩
  · rw [h]
    exact ⟨hc, hp, fun hk => hb.trans hk⟩

/-- A tick advances the counter by one, modulo its width. -/
theorem hrtTickIsr_tick (sz : Sizing) (k : Kernel) :
    (hrtTickIsr sz k).tick = (k.tick + 1) % 2 ^ 32 := by
  have hwake := (wakeSleepers_frame sz (hrtIncTick k)).2.1
  have hcharge := (chargeSlice_frame sz (wakeSleepers sz (hrtIncTick k)).1).2.1
  rcases hrtTickIsr_cases sz k with h | h
  · rw [h]
    exact hcharge.trans hwake
  · rw [h]
    exact hcharge.trans hwake

/-- A tick leaves the tick rate alone. -/
theorem hrtTickIsr_tickHz (sz : Sizing) (k : Kernel) : (hrtTickIsr sz k).tickHz = k.tickHz := by
  have hwake := (wakeSleepers_frame sz (hrtIncTick k)).2.2.1
  have hcharge := (chargeSlice_frame sz (wakeSleepers sz (hrtIncTick k)).1).2.2.1
  rcases hrtTickIsr_cases sz k with h | h
  · rw [h]
    exact hcharge.trans hwake
  · rw [h]
    exact hcharge.trans hwake

/-- The queues after a tick are those after its wake loop. -/
theorem hrtTickIsr_rq (sz : Sizing) (k : Kernel) :
    (hrtTickIsr sz k).rq = (wakeSleepers sz (hrtIncTick k)).1.rq := by
  obtain ⟨-, -, -, -, -, -, -, -, hrq⟩ := chargeSlice_frame sz (wakeSleepers sz (hrtIncTick k)).1
  rcases hrtTickIsr_cases sz k with h | h
  · rw [h]
    exact hrq
  · rw [h]
    exact hrq

/-- **A tick that wakes somebody requests a reschedule**; any other leaves the ready queues alone. -/
theorem hrtTickIsr_pend_or_rq (sz : Sizing) (k : Kernel) :
    (hrtTickIsr sz k).pend = true ∨ (hrtTickIsr sz k).rq = k.rq := by
  have hloop : (wakeSleepers sz (hrtIncTick k)).2 = true ∨
      (wakeSleepers sz (hrtIncTick k)).1.rq = k.rq :=
    wakeSleepers_induction (fun s => s.2 = true ∨ s.1.rq = k.rq) (Or.inr rfl)
      fun s i _ _ _ => Or.inl rfl
  rcases hloop with hw | hw
  · left
    simp only [hrtTickIsr, hw, Bool.true_or, if_true]
    rfl
  · exact Or.inr ((hrtTickIsr_rq sz k).trans hw)

/-! ## The quantum -/

/-- The wake loop refills the sleepers that are due and leaves the other control blocks alone. -/
theorem wakeSleepers_tcbs (sz : Sizing) (k : Kernel) (j : ℕ) :
    (wakeSleepers sz k).1.tcbs j = k.tcbs j ∨
    (wakesAt k k.tick j ∧ (wakeSleepers sz k).1.tcbs j = (k.tcbs j).refill) := by
  have hloop : (wakeSleepers sz k).1.tick = k.tick ∧ ((wakeSleepers sz k).1.tcbs j = k.tcbs j ∨
      (wakesAt k k.tick j ∧ (wakeSleepers sz k).1.tcbs j = (k.tcbs j).refill)) := by
    refine wakeSleepers_induction (fun s => s.1.tick = k.tick ∧ (s.1.tcbs j = k.tcbs j ∨
      (wakesAt k k.tick j ∧ s.1.tcbs j = (k.tcbs j).refill))) ⟨rfl, Or.inl rfl⟩ ?_
    rintro s i ⟨htick, hs⟩ _ hwakes
    refine ⟨by rw [hrtMakeReady_tick, htick], ?_⟩
    rw [hrtMakeReady_tcbs]
    by_cases hj : j = i
    · subst hj
      rw [Function.update_self]
      -- a task woken here was asleep, so it was not woken before
      rcases hs with hs | ⟨-, hs⟩
      · have hdue : wakesAt k k.tick j := by
          rw [wakesAt, Kernel.stateOf, hs, htick] at hwakes
          exact hwakes
        exact Or.inr ⟨hdue, by rw [hs]; rfl⟩
      · have hst := hwakes.1
        rw [Kernel.stateOf, hs] at hst
        exact absurd hst (by simp [Tcb.refill])
    · rw [Function.update_of_ne hj]
      exact hs
  exact hloop.2

/-- The quantum accounting takes one tick off the ready current task, or changes nothing; the flag is
set when the last one is gone. -/
theorem chargeSlice_spec (sz : Sizing) (k : Kernel) (j : ℕ) :
    (chargeSlice sz k).1.tcbs j = k.tcbs j ∨
    (k.current = some j ∧ (k.tcbs j).state = .ready ∧ k.policy.sliced = true ∧
      0 < (k.tcbs j).sliceLeft ∧
      (chargeSlice sz k).1.tcbs j = { k.tcbs j with sliceLeft := (k.tcbs j).sliceLeft - 1 } ∧
      ((k.tcbs j).sliceLeft = 1 → (chargeSlice sz k).2 = true) ∧ j < sz.maxTasks) := by
  unfold chargeSlice
  split
  · exact Or.inl rfl
  · rename_i cur hcur
    split_ifs with hlt hcond
    · exact Or.inl rfl
    · by_cases hj : j = cur
      · subst hj
        refine Or.inr ⟨hcur, hcond.1, hcond.2.1, hcond.2.2.2, by simp [Kernel.modifyTcb], fun h1 => ?_,
          Nat.not_le.mp hlt⟩
        simpa using h1
      · exact Or.inl (by simp [Kernel.modifyTcb, hj])
    · exact Or.inl rfl

/-- The reschedule request at the end of a tick touches no control block. -/
theorem hrtTickIsr_tcbs_eq (sz : Sizing) (k : Kernel) :
    (hrtTickIsr sz k).tcbs = (tickCore sz k).tcbs := by
  rcases hrtTickIsr_cases sz k with h | h
  · rw [h]
    rfl
  · rw [h]

/-- A quantum that runs out requests a reschedule. -/
theorem hrtTickIsr_pend {sz : Sizing} {k : Kernel}
    (h : (chargeSlice sz (wakeSleepers sz (hrtIncTick k)).1).2 = true) :
    (hrtTickIsr sz k).pend = true := by
  simp only [hrtTickIsr, h, Bool.or_true, if_true]
  rfl

/-- **What a tick does to one control block**: a due sleeper is refilled, and then the current task is
charged if it is ready and in the table; a quantum that runs out requests a reschedule. -/
theorem hrtTickIsr_tcbs (sz : Sizing) (k : Kernel) (j : ℕ) :
    ∃ b, (b = k.tcbs j ∨ (wakesAt k ((k.tick + 1) % 2 ^ 32) j ∧ b = (k.tcbs j).refill)) ∧
      ((hrtTickIsr sz k).tcbs j = b ∨
        (k.current = some j ∧ b.state = .ready ∧ k.policy.sliced = true ∧ 0 < b.sliceLeft ∧
          (hrtTickIsr sz k).tcbs j = { b with sliceLeft := b.sliceLeft - 1 } ∧
          (b.sliceLeft = 1 → (hrtTickIsr sz k).pend = true) ∧ j < sz.maxTasks)) := by
  refine ⟨(wakeSleepers sz (hrtIncTick k)).1.tcbs j, wakeSleepers_tcbs sz (hrtIncTick k) j, ?_⟩
  obtain ⟨hcur, -, -, hpol, -⟩ := wakeSleepers_frame sz (hrtIncTick k)
  rw [hrtTickIsr_tcbs_eq]
  rcases chargeSlice_spec sz (wakeSleepers sz (hrtIncTick k)).1 j with
    hs | ⟨hc, hst, hsl, hpos, hs, h1, hlt⟩
  · exact Or.inl hs
  · exact Or.inr ⟨hcur.symm.trans hc, hst, hpol ▸ hsl, hpos, hs, fun h => hrtTickIsr_pend (h1 h), hlt⟩

/-- A tick changes no wake tick. -/
theorem hrtTickIsr_wakeTick (sz : Sizing) (k : Kernel) (j : ℕ) :
    ((hrtTickIsr sz k).tcbs j).wakeTick = (k.tcbs j).wakeTick := by
  obtain ⟨b, hb, htcb⟩ := hrtTickIsr_tcbs sz k j
  have hwake : b.wakeTick = (k.tcbs j).wakeTick := by
    rcases hb with rfl | ⟨-, rfl⟩
    · rfl
    · rfl
  rcases htcb with htcb | ⟨-, -, -, -, htcb, -⟩
  · rw [htcb, hwake]
  · rw [htcb]
    exact hwake

/-- A tick changes no task's configuration and no saved stack pointer. -/
theorem hrtTickIsr_config (sz : Sizing) (k : Kernel) (j : ℕ) :
    ((hrtTickIsr sz k).tcbs j).timesliceCfg = (k.tcbs j).timesliceCfg ∧
    ((hrtTickIsr sz k).tcbs j).prio = (k.tcbs j).prio ∧
    ((hrtTickIsr sz k).tcbs j).sp = (k.tcbs j).sp := by
  obtain ⟨b, hb, htcb | ⟨-, -, -, -, htcb, -⟩⟩ := hrtTickIsr_tcbs sz k j
  · rcases hb with rfl | ⟨-, rfl⟩
    · rw [htcb]
      exact ⟨rfl, rfl, rfl⟩
    · rw [htcb]
      exact ⟨rfl, rfl, rfl⟩
  · rcases hb with rfl | ⟨-, rfl⟩
    · rw [htcb]
      exact ⟨rfl, rfl, rfl⟩
    · rw [htcb]
      exact ⟨rfl, rfl, rfl⟩

/-- **The current task is charged** under a policy with quanta, if the wake loop leaves it ready. -/
theorem hrtTickIsr_charge_of {sz : Sizing} {k : Kernel} {cur : ℕ} {b : Tcb} (hcur : k.current = some cur)
    (hlt : cur < sz.maxTasks) (hb : (wakeSleepers sz (hrtIncTick k)).1.tcbs cur = b)
    (hst : b.state = .ready) (hpol : k.policy.sliced = true) (hcfg : 0 < b.timesliceCfg)
    (hleft : 0 < b.sliceLeft) :
    (hrtTickIsr sz k).tcbs cur = { b with sliceLeft := b.sliceLeft - 1 } ∧
    (b.sliceLeft = 1 → (hrtTickIsr sz k).pend = true) := by
  have hst' : (wakeSleepers sz (hrtIncTick k)).1.stateOf cur = .ready := by
    rw [Kernel.stateOf, hb]
    exact hst
  obtain ⟨hc, -, -, hp, -⟩ := wakeSleepers_frame sz (hrtIncTick k)
  have hcharge : chargeSlice sz (wakeSleepers sz (hrtIncTick k)).1 =
      ((wakeSleepers sz (hrtIncTick k)).1.modifyTcb cur
        fun t => { t with sliceLeft := t.sliceLeft - 1 }, decide (b.sliceLeft = 1)) := by
    unfold chargeSlice
    rw [hc, show (hrtIncTick k).current = some cur from hcur]
    simp only [not_le.mpr hlt, if_false]
    rw [if_pos ⟨hst', hp ▸ hpol, by rw [hb]; exact hcfg, by rw [hb]; exact hleft⟩, hb]
  constructor
  · rw [hrtTickIsr_tcbs_eq, tickCore, hcharge]
    simp [Kernel.modifyTcb, hb]
  · intro h1
    exact hrtTickIsr_pend (by rw [hcharge]; simpa using h1)

/-- **A ready current task is charged**: the wake loop does not touch it. -/
theorem hrtTickIsr_charge {sz : Sizing} {k : Kernel} {cur : ℕ} (hcur : k.current = some cur)
    (hlt : cur < sz.maxTasks) (hst : k.stateOf cur = .ready) (hpol : k.policy.sliced = true)
    (hcfg : 0 < (k.tcbs cur).timesliceCfg) (hleft : 0 < (k.tcbs cur).sliceLeft) :
    (hrtTickIsr sz k).tcbs cur = { k.tcbs cur with sliceLeft := (k.tcbs cur).sliceLeft - 1 } ∧
    ((k.tcbs cur).sliceLeft = 1 → (hrtTickIsr sz k).pend = true) := by
  have htcb : (wakeSleepers sz (hrtIncTick k)).1.tcbs cur = k.tcbs cur := by
    rcases wakeSleepers_tcbs sz (hrtIncTick k) cur with h | ⟨h, -⟩
    · exact h
    · exact absurd (hst.symm.trans h.1) (by simp)
  exact hrtTickIsr_charge_of hcur hlt htcb hst hpol hcfg hleft

/-- **A current task that the tick wakes is charged** on top of its refill. -/
theorem hrtTickIsr_charge_woken {sz : Sizing} {k : Kernel} {cur : ℕ} (hcur : k.current = some cur)
    (hlt : cur < sz.maxTasks) (hw : wakesAt k ((k.tick + 1) % 2 ^ 32) cur)
    (hpol : k.policy.sliced = true) (hcfg : 0 < (k.tcbs cur).timesliceCfg) :
    (hrtTickIsr sz k).tcbs cur =
      { (k.tcbs cur).refill with sliceLeft := (k.tcbs cur).timesliceCfg - 1 } := by
  have hready : (wakeSleepers sz (hrtIncTick k)).1.stateOf cur = .ready := by
    have hloop := foldl_wakeOne_stateOf sz (List.range sz.maxTasks) (hrtIncTick k, false) cur
    rwa [if_pos ⟨List.mem_range.mpr hlt, hw⟩] at hloop
  have htcb : (wakeSleepers sz (hrtIncTick k)).1.tcbs cur = (k.tcbs cur).refill := by
    rcases wakeSleepers_tcbs sz (hrtIncTick k) cur with h | ⟨-, h⟩
    · -- left as it was, it would still sleep
      rw [Kernel.stateOf, h] at hready
      exact absurd (hw.1.symm.trans hready) (by simp)
    · exact h
  exact (hrtTickIsr_charge_of hcur hlt htcb rfl hpol hcfg hcfg).1

/-- **A tick** makes sleepers ready. -/
theorem ReadyGrows.tick {sz : Sizing} {k : Kernel} (hwf : ReadyWF sz k) (hr : sz.Representable) :
    ReadyGrows sz k (hrtTickIsr sz k) := by
  have hloop : ReadyGrows sz k (wakeSleepers sz (hrtIncTick k)).1 := by
    refine wakeSleepers_induction (fun s => ReadyGrows sz k s.1) (.of_rq hwf rfl) ?_
    intro s i hs hi _
    refine hs.trans (.makeReady hs.wf hr hi) fun j hj => ?_
    rw [stateOf_hrtMakeReady, hrtMakeReady_tcbs]
    by_cases hji : j = i
    · subst hji
      simp
    · simp [hji, hj]
  refine hloop.trans (.of_rq hloop.wf (hrtTickIsr_rq sz k)) fun j hj => ?_
  -- the quantum accounting changes neither states nor priorities
  obtain ⟨n, hn⟩ := chargeSlice_tcbs sz (wakeSleepers sz (hrtIncTick k)).1 j
  have hn' : (tickCore sz k).tcbs j =
      { (wakeSleepers sz (hrtIncTick k)).1.tcbs j with sliceLeft := n } := hn
  rw [Kernel.stateOf, hrtTickIsr_tcbs_eq, hn']
  exact ⟨hj, rfl⟩

end HardRT
