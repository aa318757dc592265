import HardRT.Sync.Fifos

/-! # Sizings and the width of the registers

`CMakeLists.txt` bounds the number of tasks from below only, while task ids, ring indices and ring
counts are `uint8_t`. Up to 255 tasks of one priority are counted and kept in order, whatever the build;
with 256 tasks in one queue the count reads zero again.

* `Filled sz p j k` — the kernel after `j` creations at priority `p`; `Filled.createAll` is the
  induction over the creations.
* `PickedInOrder` — what was created is picked in order, and nothing else.
* `created_tasks_picked_in_order` — it is so exactly for up to 255 tasks of a configured priority; in a
  build of up to 255 tasks, what was parked is popped in order as well.
* `full_queue_reads_empty` — 256 ready tasks that no pick finds. -/

namespace HardRT

open Lib

/-! ## Creating and picking -/

/-- Successive calls of `hrt_create_task`, with the ids they return. -/
def createAll (sz : Sizing) (port : Port) (as : List TaskArgs) (k : Kernel) : List (Option ℕ) × Kernel :=
  runOps (fun k a => hrtCreateTask sz port a k) as k

/-- Successive calls of `hrt__pick_next_ready`, with the ids they return. -/
def picks (sz : Sizing) (n : ℕ) (k : Kernel) : List ℕ × Kernel :=
  runOps (fun k (_ : Unit) => hrtPickNextReady sz k) (List.replicate n ()) k

/-- **The kernel after `j` creations at priority `p`**: the first `j` slots are ready, the count of the
ready queue is `j` as far as its register holds it, and while it does the queue lists the slots from its
first cell on. -/
structure Filled (sz : Sizing) (p j : ℕ) (k : Kernel) : Prop where
  states : ∀ i, k.stateOf i = if i < j then .ready else .unused
  others : ∀ q, q ≠ p → (k.rq q).count = 0
  count : (k.rq p).count = j % 256
  list : j < 256 →
    (k.rq p).head = 0 ∧ (k.rq p).WF sz.maxTasks ∧ k.readyList sz p = List.range j

section Filling

variable {sz : Sizing} {port : Port} {p j : ℕ} {k : Kernel} {a : TaskArgs}

/-- After `hrt_init` nothing has been created. -/
theorem Filled.init (sz : Sizing) (port : Port) (cfg : Option KernelConfig) (mem : Kernel) (p : ℕ) :
    Filled sz p 0 (hrtInit sz port cfg mem) := by
  have hrq := (hrtInit_frame sz mem port cfg).1
  refine ⟨fun i => by simpa using stateOf_hrtInit sz mem port cfg i, fun q _ => by rw [hrq],
    by rw [hrq], fun _ => ⟨by rw [hrq], ?_, ?_⟩⟩
  · rw [hrq]
    exact .zero sz.maxTasks_pos _
  · rw [Kernel.readyList, hrq]
    exact RingBuffer.toList_zero _ _ _ _

/-- The scan for a free slot finds the first one not filled yet. -/
theorem Filled.firstUnused (h : Filled sz p j k) (hj : j < sz.maxTasks) :
    firstUnused sz k = some j := by
  rw [HardRT.firstUnused, List.find?_range_eq_some]
  refine ⟨by simp [h.states], List.mem_range.mpr hj, fun i hi => by simp [h.states, hi]⟩

/-- The next slot is pushed once its control block has been filled. -/
theorem Filled.push (h : Filled sz p j k) (hj : j < sz.maxTasks) (hp : p < sz.maxPrio) {k₁ : Kernel}
    (hrq : k₁.rq = k.rq) (hst : ∀ i, k₁.stateOf i = if i < j + 1 then .ready else .unused) :
    Filled sz p (j + 1) (rqPush sz p j k₁) := by
  have hcount : (k₁.rq p).count = j % 256 := by rw [hrq, h.count]
  have hacc : RqAccepts sz k₁ p := ⟨hp, hcount ▸ lt_of_le_of_lt (Nat.mod_le j 256) hj⟩
  have hpush := rqPush_of_accepts hacc j
  refine ⟨fun i => ?_, fun q hq => ?_, ?_, fun hj' => ?_⟩
  · rw [Kernel.stateOf, rqPush_tcbs]
    exact hst i
  · rw [hpush, Kernel.setRq_rq, if_neg hq, hrq, h.others q hq]
  · -- the count is a `uint8_t`: this is where it wraps
    rw [hpush, Kernel.setRq_rq, if_pos rfl]
    show ((k₁.rq p).count + 1) % 256 = _
    rw [hcount, Nat.mod_add_mod]
  · -- the register still holds the count, so the ring holds the list; nothing has wrapped yet
    obtain ⟨hhead, hwf, hlist⟩ := h.list (by omega)
    have hmod : j % 256 = j := Nat.mod_eq_of_lt (by omega)
    rw [← hrq] at hwf hhead
    have htail : (k₁.rq p).tail = j := by
      rw [hwf.tail_eq, hhead, hcount, hmod, Nat.zero_add, Nat.mod_eq_of_lt hj]
    rw [hpush, hmod]
    refine ⟨?_, ?_, ?_⟩
    · rw [Kernel.setRq_rq, if_pos rfl]
      exact hhead
    · rw [Kernel.setRq_rq, if_pos rfl]
      refine hwf.put_of_index ?_ hacc.2 (by omega) j
      rw [htail]
      exact lt_of_le_of_lt (Nat.mod_le _ _) hj'
    · rw [Kernel.readyList_setRq, if_pos rfl, RingBuffer.toList_put_of_count hwf hacc.2 (by omega),
        List.range_succ, ← hlist, Kernel.readyList, hrq]

/-- Valid arguments pass the first check. -/
theorem hrtCreateTask_of_valid (ha : a.Valid) {id : ℕ} (hid : HardRT.firstUnused sz k = some id) :
    hrtCreateTask sz port a k = (some id, fillSlot sz port a id k) := by
  have hargs : ¬ (a.fn = 0 ∨ a.stackWords = 0 ∨ a.nWords < 64) := by
    rintro (h0 | h0 | h0)
    · exact ha.1 h0
    · exact ha.2.1 h0
    · exact absurd ha.2.2 (Nat.not_le.mpr h0)
  rw [hrtCreateTask, if_neg hargs, hid]

/-- **One more creation** fills the next slot. -/
theorem Filled.create (h : Filled sz p j k) (port : Port) (hj : j < sz.maxTasks) (hp : p < sz.maxPrio)
    (ha : a.Valid) (hprio : a.prio = p) :
    (hrtCreateTask sz port a k).1 = some j ∧ Filled sz p (j + 1) (hrtCreateTask sz port a k).2 := by
  obtain ⟨sp, e, hfill⟩ := fillSlot_spec sz port a j k
  rw [hrtCreateTask_of_valid ha (h.firstUnused hj), hfill, hprio]
  refine ⟨rfl, h.push hj hp rfl fun i => ?_⟩
  have hst := h.states i
  rw [Kernel.stateOf] at hst ⊢
  by_cases hij : i = j
  · subst hij
    simp [TaskArgs.readyTcb]
  · have hiff : i < j ↔ i < j + 1 := by omega
    simp only [Function.update_of_ne hij, hst, hiff]

/-- **All creations**: they return the slots in order. -/
theorem Filled.createAll (h : Filled sz p j k) (port : Port) (hp : p < sz.maxPrio) (as : List TaskArgs)
    (has : ∀ a ∈ as, a.Valid ∧ a.prio = p) (hlen : j + as.length ≤ sz.maxTasks) :
    (createAll sz port as k).1 = (List.range' j as.length).map some ∧
    Filled sz p (j + as.length) (createAll sz port as k).2 := by
  -- by induction on the calls still to come; `j` slots are filled when the first of them is made
  induction as generalizing j k with
  | nil => exact ⟨rfl, h⟩
  | cons a as ih =>
      rw [List.length_cons] at hlen
      obtain ⟨hid, hnext⟩ := h.create port (a := a) (by omega) hp
        (has a List.mem_cons_self).1 (has a List.mem_cons_self).2
      obtain ⟨hids, hend⟩ := ih hnext (fun b hb => has b (List.mem_cons_of_mem _ hb)) (by omega)
      refine ⟨?_, ?_⟩
      · show (hrtCreateTask sz port a k).1 :: (HardRT.createAll sz port as _).1 = _
        rw [hid, hids]
        rfl
      · rw [List.length_cons, Nat.add_comm as.length, ← Nat.add_assoc]
        exact hend

/-- **Picks from a single queue** return its entries in order, and then `HRT_IDLE_ID`, as long as the
registers have not wrapped. -/
theorem picks_of_single (hp : p < sz.maxPrio) {l : List ℕ} {k : Kernel}
    (hothers : ∀ q, q ≠ p → (k.rq q).count = 0) (hwf : (k.rq p).WF sz.maxTasks)
    (hl : k.readyList sz p = l) (hreg : (k.rq p).head + l.length < 256) :
    (picks sz l.length k).1 = l ∧ (hrtPickNextReady sz (picks sz l.length k).2).1 = sz.idleId := by
  have hnil : ∀ {k : Kernel}, (∀ q, q ≠ p → (k.rq q).count = 0) → ∀ q, q ≠ p → k.readyList sz q = [] :=
    fun h q hq => RingBuffer.toList_eq_nil_iff.mpr (h q hq)
  induction l generalizing k with
  | nil =>
      refine ⟨rfl, ?_⟩
      show (hrtPickNextReady sz k).1 = _
      rw [pickNextReady_of_empty fun q _ => ?_]
      by_cases hq : q = p
      · rw [hq, hl]
      · exact hnil hothers q hq
  | cons id rest ih =>
      have hc := count_ne_zero_of_cons hl
      rw [List.length_cons] at hreg
      have hnext : ((k.rq p).head + 1) % sz.maxTasks < 256 :=
        lt_of_le_of_lt (Nat.mod_le _ _) (by omega)
      have hdrop := RingBuffer.toList_drop_of_index hwf hnext hc
      rw [Kernel.readyList, hdrop, List.cons.injEq] at hl
      have hpick : hrtPickNextReady sz k = (id, dropReady sz p k) := by
        rw [pickNextReady_of_count hp (fun q hq => hnil hothers q hq.ne) hc, hl.1]
      obtain ⟨hrest, hidle⟩ := ih (k := dropReady sz p k)
        (fun q hq => by rw [dropReady, Kernel.setRq_rq, if_neg hq]; exact hothers q hq)
        (by rw [dropReady, Kernel.setRq_rq, if_pos rfl]; exact hwf.drop_of_index hnext hc)
        (by rw [dropReady, Kernel.readyList_setRq, if_pos rfl]; exact hl.2)
        (by
          rw [dropReady, Kernel.setRq_rq, if_pos rfl]
          have hle : ((k.rq p).head + 1) % sz.maxTasks % 256 ≤ (k.rq p).head + 1 :=
            (Nat.mod_le _ _).trans (Nat.mod_le _ _)
          show ((k.rq p).head + 1) % sz.maxTasks % 256 + rest.length < 256
          omega)
      have hstep : picks sz (id :: rest).length k =
          (id :: (picks sz rest.length (dropReady sz p k)).1,
            (picks sz rest.length (dropReady sz p k)).2) := by
        rw [picks, List.length_cons, List.replicate_succ, runOps, hpick]
        rfl
      rw [hstep, hrest]
      exact ⟨rfl, hidle⟩

/-- Picks one after the other. -/
theorem picks_add (sz : Sizing) (m n : ℕ) (k : Kernel) :
    (picks sz (m + (n + 1)) k).1 = (picks sz m k).1 ++ (hrtPickNextReady sz (picks sz m k).2).1 ::
      (picks sz n (hrtPickNextReady sz (picks sz m k).2).2).1 := by
  rw [picks, List.replicate_add, runOps_append]
  rfl

/-- **A queue is empty for the picks when its count has run down**, whatever it holds. -/
theorem pick_of_drained (hp : p < sz.maxPrio) {c : ℕ} {k : Kernel}
    (hothers : ∀ q, q ≠ p → (k.rq q).count = 0) (hc : (k.rq p).count = c) :
    (hrtPickNextReady sz (picks sz c k).2).1 = sz.idleId := by
  have hnil : ∀ q, q ≠ p → k.readyList sz q = [] :=
    fun q hq => RingBuffer.toList_eq_nil_iff.mpr (hothers q hq)
  induction c generalizing k with
  | zero =>
      show (hrtPickNextReady sz k).1 = _
      rw [pickNextReady_of_empty fun q _ => ?_]
      by_cases hq : q = p
      · rw [hq]
        exact RingBuffer.toList_eq_nil_iff.mpr hc
      · exact hnil q hq
  | succ c ih =>
      have hpick : (hrtPickNextReady sz k).2 = dropReady sz p k := by
        rw [pickNextReady_of_count hp (fun q hq => hnil q hq.ne) (by omega)]
      have hothers' : ∀ q, q ≠ p → ((dropReady sz p k).rq q).count = 0 := fun q hq => by
        rw [dropReady, Kernel.setRq_rq, if_neg hq]
        exact hothers q hq
      have hc' : ((dropReady sz p k).rq p).count = c := by
        rw [dropReady, Kernel.setRq_rq, if_pos rfl]
        show (k.rq p).count - 1 = c
        omega
      have hdrained := ih hothers' hc' fun q hq => RingBuffer.toList_eq_nil_iff.mpr (hothers' q hq)
      rw [← hpick] at hdrained
      exact hdrained

/-- Creations at a priority that is not configured push nothing. -/
theorem createAll_rq_of_prio (port : Port) (hp : sz.maxPrio ≤ p) (as : List TaskArgs)
    (has : ∀ a ∈ as, a.prio = p) (k : Kernel) : (createAll sz port as k).2.rq = k.rq := by
  induction as generalizing k with
  | nil => rfl
  | cons a as ih =>
      have hone : (hrtCreateTask sz port a k).2.rq = k.rq := by
        rcases hrtCreateTask_cases sz port a k with ⟨e, he⟩ | ⟨id, sp, e, -, -, he⟩
        · rw [he]
          rfl
        · rw [he, has a List.mem_cons_self, rqPush, if_pos hp]
          rfl
      show (createAll sz port as (hrtCreateTask sz port a k).2).2.rq = _
      rw [ih (fun b hb => has b (List.mem_cons_of_mem _ hb)), hone]

end Filling

/-! ## Parking -/

namespace WaitFifo

variable {sz : Sizing} {σ : Type}

/-- **The FIFO keeps the order of the tasks parked on it**: from zeroed registers, up to
`HARDRT_CFG_MAX_TASKS` ids are popped in the order they were pushed, and then nothing. -/
def KeepsOrder (F : WaitFifo sz σ) : Prop :=
  ∀ (s : σ) (ids : List ℕ), (F.ring s).head = 0 → (F.ring s).tail = 0 → (F.ring s).count = 0 →
    ids.length ≤ sz.maxTasks - 1 →
    (runOps F.step (ids.map .push ++ List.replicate (ids.length + 1) .pop) s).1 =
      ids.map (fun _ => none) ++ (ids.map some ++ [none])

/-- Pushes append while there is room in the ring and in its count register. -/
theorem push_all (F : WaitFifo sz σ) (hN : sz.maxTasks ≤ 256) {s : σ}
    (hwf : (F.ring s).WF sz.maxTasks) (ids : List ℕ)
    (hlen : (F.ring s).count + ids.length ≤ sz.maxTasks - 1) :
    (runOps F.step (ids.map .push) s).1 = ids.map (fun _ => none) ∧
    (F.ring (runOps F.step (ids.map .push) s).2).WF sz.maxTasks ∧
    (F.ring (runOps F.step (ids.map .push) s).2).toList sz.maxTasks =
      (F.ring s).toList sz.maxTasks ++ ids := by
  induction ids generalizing s with
  | nil => exact ⟨rfl, hwf, by simp⟩
  | cons id ids ih =>
      have := sz.maxTasks_pos
      rw [List.length_cons] at hlen
      have hput : F.ring (F.push id s) = (F.ring s).put 256 sz.maxTasks id := by
        rw [F.ring_push, RingBuffer.push, if_neg (by omega)]
      have hlist := RingBuffer.toList_put_of_count (w := 256) hwf (by omega) (by omega) id
      rw [← hput] at hlist
      have hcount : (F.ring (F.push id s)).count = (F.ring s).count + 1 := by
        have := congrArg List.length hlist
        simpa using this
      obtain ⟨hans, hwf', hlist'⟩ := ih (s := F.push id s)
        (by rw [hput]; exact hwf.put_of_count hN (by omega) (by omega) id) (by omega)
      refine ⟨?_, hwf', ?_⟩
      · show none :: (runOps F.step (ids.map .push) (F.push id s)).1 = _
        rw [hans]
        rfl
      · rw [hlist, List.append_assoc] at hlist'
        exact hlist'

/-- Pops answer what the ring holds, in order, and then nothing. -/
theorem pop_all (F : WaitFifo sz σ) (hN : sz.maxTasks ≤ 256) {ids : List ℕ} {s : σ}
    (hwf : (F.ring s).WF sz.maxTasks) (hl : (F.ring s).toList sz.maxTasks = ids) :
    (runOps F.step (List.replicate (ids.length + 1) .pop) s).1 = ids.map some ++ [none] := by
  have hspec := RingBuffer.pop_spec hwf hN
  rw [← F.pop_fst, ← F.ring_pop, hl] at hspec
  induction ids generalizing s with
  | nil =>
      show [(F.pop s).1] = _
      rw [hspec.1]
      rfl
  | cons id ids ih =>
      have hwf' : (F.ring (F.pop s).2).WF sz.maxTasks := by
        rw [F.ring_pop]
        exact hwf.pop hN
      have hspec' := RingBuffer.pop_spec hwf' hN
      rw [← F.pop_fst, ← F.ring_pop, hspec.2] at hspec'
      show (F.pop s).1 :: (runOps F.step (List.replicate (ids.length + 1) .pop) (F.pop s).2).1 = _
      rw [hspec.1, ih hwf' hspec.2 hspec']
      rfl

/-- Up to 256 cells, a wait FIFO keeps the order of the tasks that can be parked on it. -/
theorem keepsOrder (F : WaitFifo sz σ) (hN : sz.maxTasks ≤ 256) : F.KeepsOrder := by
  intro s ids hh ht hc hlen
  obtain ⟨hwf, hnil⟩ := zeroed sz hh ht hc
  obtain ⟨hans, hwf', hlist⟩ := F.push_all hN hwf ids (by omega)
  rw [hnil, List.nil_append] at hlist
  rw [runOps_append, hans, F.pop_all hN hwf' hlist]

end WaitFifo

/-! ## Which sizings are representable -/

/-- **What was created is picked in order**: as many picks as there were creations return the ids that
the creations returned, in that order, and one more returns `HRT_IDLE_ID`. -/
def PickedInOrder (sz : Sizing) (port : Port) (as : List TaskArgs) (k : Kernel) : Prop :=
  (picks sz as.length (createAll sz port as k).2).1.map some = (createAll sz port as k).1 ∧
  (hrtPickNextReady sz (picks sz as.length (createAll sz port as k).2).2).1 = sz.idleId

section PickedInOrder

variable {sz : Sizing} {p : ℕ} {as : List TaskArgs}

/-- The first creation returns slot 0, whatever the priority. -/
theorem createAll_fst_head (port : Port) (cfg : Option KernelConfig) (mem : Kernel) {a : TaskArgs}
    (ha : a.Valid) : (createAll sz port (a :: as) (hrtInit sz port cfg mem)).1.head? = some (some 0) := by
  have hfirst := (Filled.init sz port cfg mem 0).firstUnused sz.maxTasks_pos
  show some (hrtCreateTask sz port a (hrtInit sz port cfg mem)).1 = _
  rw [hrtCreateTask_of_valid ha hfirst]

/-- The first pick finds nothing if the priority is not configured. -/
theorem PickedInOrder.prio_lt (port : Port) (cfg : Option KernelConfig) (mem : Kernel)
    (has : ∀ a ∈ as, a.Valid ∧ a.prio = p) (hne : as ≠ []) (hlen : as.length ≤ sz.maxTasks - 1)
    (h : PickedInOrder sz port as (hrtInit sz port cfg mem)) : p < sz.maxPrio := by
  by_contra hp
  obtain ⟨a, as, rfl⟩ := List.exists_cons_of_ne_nil hne
  have hrq := createAll_rq_of_prio port (Nat.not_lt.mp hp) (a :: as) (fun b hb => (has b hb).2)
    (hrtInit sz port cfg mem)
  have hpick : hrtPickNextReady sz (createAll sz port (a :: as) (hrtInit sz port cfg mem)).2 =
      (sz.idleId, (createAll sz port (a :: as) (hrtInit sz port cfg mem)).2) := by
    refine pickNextReady_of_empty fun q _ => RingBuffer.toList_eq_nil_iff.mpr ?_
    rw [hrq, (hrtInit_frame sz mem port cfg).1]
  have hhead := congrArg List.head? h.1
  rw [createAll_fst_head port cfg mem (has a List.mem_cons_self).1, List.length_cons, picks,
    List.replicate_succ, runOps, hpick] at hhead
  have hidle : sz.idleId = 0 := by simpa using hhead
  rw [List.length_cons] at hlen
  simp only [Sizing.idleId] at hidle
  omega

/-- With more than 255 tasks the count of their queue runs down before they are all picked. -/
theorem PickedInOrder.length_le (port : Port) (cfg : Option KernelConfig) (mem : Kernel)
    (hp : p < sz.maxPrio) (has : ∀ a ∈ as, a.Valid ∧ a.prio = p) (hlen : as.length ≤ sz.maxTasks - 1)
    (h : PickedInOrder sz port as (hrtInit sz port cfg mem)) : as.length ≤ 255 := by
  by_contra hlong
  obtain ⟨hids, hend⟩ := (Filled.init sz port cfg mem p).createAll port hp as has (by omega)
  rw [Nat.zero_add] at hend
  have hidle := pick_of_drained hp hend.others hend.count
  -- the pick after the last one that was counted is one of them
  have hmem : sz.idleId ∈ (picks sz as.length
      (createAll sz port as (hrtInit sz port cfg mem)).2).1 := by
    obtain ⟨rest, hrest⟩ : ∃ rest, as.length = as.length % 256 + (rest + 1) :=
      ⟨as.length - as.length % 256 - 1, by omega⟩
    rw [hrest, picks_add, hidle]
    simp
  have hcreated := List.mem_map_of_mem (f := some) hmem
  rw [h.1, hids] at hcreated
  obtain ⟨id, hid, heq⟩ := List.mem_map.mp hcreated
  obtain rfl := Option.some.inj heq
  have hlt := (List.mem_range'_1.mp hid).2
  simp only [Sizing.idleId] at hlt
  omega

end PickedInOrder

/-- **Up to 255 tasks the registers suffice, and no further.** After `hrt_init`, tasks created at one
priority, as many as the build admits, are picked in the order of their creation exactly if there are at
most 255 of them and the priority is configured (or there are none). Their ids, and the registers of the
ready queue that holds them all, then fit in a `uint8_t`. In a build of up to 255 tasks, tasks parked on
a wait FIFO come out in order as well. -/
theorem created_tasks_picked_in_order (sz : Sizing) (port : Port) (cfg : Option KernelConfig)
    (mem : Kernel) (p : ℕ) (as : List TaskArgs) (hlen : as.length ≤ sz.maxTasks - 1)
    (has : ∀ a ∈ as, a.Valid ∧ a.prio = p) :
    (PickedInOrder sz port as (hrtInit sz port cfg mem) ↔
      as = [] ∨ (as.length ≤ 255 ∧ p < sz.maxPrio)) ∧
    (as.length ≤ 255 → p < sz.maxPrio →
      (createAll sz port as (hrtInit sz port cfg mem)).1 = (List.range as.length).map some ∧
      (∀ id ∈ List.range as.length, id % 256 = id) ∧
      ((createAll sz port as (hrtInit sz port cfg mem)).2.rq p).count = as.length ∧
      ((createAll sz port as (hrtInit sz port cfg mem)).2.rq p).Sound sz.maxTasks) ∧
    (sz.maxTasks - 1 ≤ 255 →
      (WaitFifo.sem sz).KeepsOrder ∧ (WaitFifo.mutex sz).KeepsOrder ∧
      (WaitFifo.rx sz).KeepsOrder ∧ (WaitFifo.tx sz).KeepsOrder) := by
  have hfew : as.length ≤ 255 → p < sz.maxPrio →
      (createAll sz port as (hrtInit sz port cfg mem)).1 = (List.range as.length).map some ∧
      Filled sz p as.length (createAll sz port as (hrtInit sz port cfg mem)).2 := by
    intro _ hp
    obtain ⟨hids, hend⟩ := (Filled.init sz port cfg mem p).createAll port hp as has (by omega)
    rw [Nat.zero_add] at hend
    exact ⟨by rw [hids, List.range_eq_range'], hend⟩
  refine ⟨⟨fun h => ?_, ?_⟩, fun h255 hp => ?_, fun hN => ?_⟩
  · by_cases hnil : as = []
    · exact Or.inl hnil
    · have hp := h.prio_lt port cfg mem has hnil hlen
      exact Or.inr ⟨h.length_le port cfg mem hp has hlen, hp⟩
  · rintro (rfl | ⟨h255, hp⟩)
    · refine ⟨rfl, ?_⟩
      show (hrtPickNextReady sz (hrtInit sz port cfg mem)).1 = _
      rw [pickNextReady_of_empty fun q _ => RingBuffer.toList_eq_nil_iff.mpr ?_]
      rw [(hrtInit_frame sz mem port cfg).1]
    · obtain ⟨hids, hend⟩ := hfew h255 hp
      obtain ⟨hhead, hwf, hlist⟩ := hend.list (by omega)
      obtain ⟨hpicks, hidle⟩ := picks_of_single hp hend.others hwf hlist
        (by rw [hhead, List.length_range]; omega)
      rw [List.length_range] at hpicks hidle
      exact ⟨by rw [hpicks, hids], hidle⟩
  · obtain ⟨hids, hend⟩ := hfew h255 hp
    refine ⟨hids, fun id hid => ?_, ?_, (hend.list (by omega)).2.1.sound⟩
    · exact Nat.mod_eq_of_lt (by have := List.mem_range.mp hid; omega)
    · rw [hend.count, Nat.mod_eq_of_lt (by omega)]
  · -- `HARDRT_MAX_TASKS` counts the idle slot too: a ring of 256 cells never holds more than 255 ids
    have hN' : sz.maxTasks ≤ 256 := by omega
    exact ⟨WaitFifo.keepsOrder _ hN', WaitFifo.keepsOrder _ hN', WaitFifo.keepsOrder _ hN',
      WaitFifo.keepsOrder _ hN'⟩

/-- Arguments of a task at priority 0 with a stack of 64 words. -/
def TaskArgs.plain : TaskArgs := ⟨1, 0, 4096, 64, some ⟨0, 0⟩⟩

/-- `HARDRT_CFG_MAX_TASKS = 255`, the largest build whose tasks can be counted. -/
def Sizing.widest : Sizing := ⟨256, 12, by decide, by decide, by decide⟩

/-- All 255 tasks of that build at priority 0. -/
theorem created_tasks_picked_in_order_widest :
    PickedInOrder .widest .posix (List.replicate 255 .plain) (hrtInit .widest .posix none .bss) := by
  have h := created_tasks_picked_in_order .widest .posix none .bss 0 (List.replicate 255 .plain)
    (by rw [List.length_replicate]; decide)
    fun a ha => by rw [List.eq_of_mem_replicate ha]; decide
  exact h.1.mpr (Or.inr ⟨by rw [List.length_replicate], by decide⟩)

/-- **A multiple of 256 tasks reads as none**: the count of their queue has wrapped to zero. -/
theorem Filled.pick_of_wrapped {sz : Sizing} {p j : ℕ} {k : Kernel} (h : Filled sz p j k)
    (hj : j % 256 = 0) : hrtPickNextReady sz k = (sz.idleId, k) := by
  refine pickNextReady_of_empty fun q _ => RingBuffer.toList_eq_nil_iff.mpr ?_
  by_cases hq : q = p
  · rw [hq, h.count, hj]
  · exact h.others q hq

/-- `HARDRT_CFG_MAX_TASKS = 256`, with two priorities. -/
def Sizing.tooWide : Sizing := ⟨257, 2, by decide, by decide, by decide⟩

/-- **256 ready tasks that no pick finds.** The build with `HARDRT_CFG_MAX_TASKS = 256` is accepted and
creates 256 tasks of one priority. The count of their ready queue has wrapped to zero, so that the first
pick, which should return task 0, returns `HRT_IDLE_ID`. -/
theorem full_queue_reads_empty :
    Sizing.tooWide.Accepted ∧ (List.replicate 256 TaskArgs.plain).length ≤ Sizing.tooWide.maxTasks - 1 ∧
    TaskArgs.plain.Valid ∧ TaskArgs.plain.prio < Sizing.tooWide.maxPrio ∧
    (createAll .tooWide .posix (List.replicate 256 .plain) (hrtInit .tooWide .posix none .bss)).1 =
      (List.range 256).map some ∧
    (hrtPickNextReady .tooWide (createAll .tooWide .posix (List.replicate 256 .plain)
      (hrtInit .tooWide .posix none .bss)).2).1 = Sizing.tooWide.idleId ∧ 0 ≠ Sizing.tooWide.idleId := by
  have hlen : (List.replicate 256 TaskArgs.plain).length = 256 := List.length_replicate
  obtain ⟨hids, hend⟩ := (Filled.init .tooWide .posix none .bss 0).createAll .posix (by decide)
    (List.replicate 256 .plain)
    (fun a ha => by rw [List.eq_of_mem_replicate ha]; decide) (by rw [hlen]; decide)
  rw [hlen] at hids hend
  refine ⟨by decide, by rw [hlen]; decide, by decide, by decide, ?_, ?_, by decide⟩
  · rw [hids, List.range_eq_range']
  · rw [hend.pick_of_wrapped (by decide)]

end HardRT
