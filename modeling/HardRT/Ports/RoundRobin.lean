import HardRT.Ports.ReadyMoves

/-! # Round robin

`HRT_SCHED_RR` is documented as a single round-robin class. `hrt__pick_next_ready` does not look at the
policy: it serves the ready queues in the order of the priorities, whatever the policy is.

A run is accompanied by the record of the ids that were queued and of those that a pick returned.

* `rr_serves_by_priority` — under `HRT_SCHED_RR` a task that was queued later is returned first, and
  again and again.
* `FifoClean` — the steps that queue a task only when no queue after its own holds anybody.
* `round_robin` — along such steps tasks are returned in the order they were queued, on either port; and
  if no task is queued twice at a time, nobody is passed over twice by the same task. -/

namespace HardRT

open Lib

/-! ## The record -/

/-- The ids that were queued and those that were returned by a pick, oldest first. -/
structure PickLog where
  queued : List ℕ
  returned : List ℕ

/-- The record after a move of the queues. -/
def PickLog.move (sz : Sizing) (g : PickLog) : Move → PickLog
  | .gain k k' => { g with queued := g.queued ++ enqueued sz k k' }
  | .pick k => { g with returned := g.returned ++ picked sz k }

/-- The record goes on. -/
structure PickLog.Grows (g g' : PickLog) : Prop where
  queued : g.queued <+: g'.queued
  returned : g.returned <+: g'.returned

theorem PickLog.Grows.refl (g : PickLog) : g.Grows g := ⟨List.prefix_rfl, List.prefix_rfl⟩

theorem PickLog.Grows.trans (g g' g'' : PickLog) (h : g.Grows g') (h' : g'.Grows g'') : g.Grows g'' :=
  ⟨h.queued.trans h'.queued, h.returned.trans h'.returned⟩

/-- Moves only add to the record. -/
theorem PickLog.Grows.moves (sz : Sizing) (ms : List Move) (g : PickLog) :
    g.Grows (ms.foldl (PickLog.move sz) g) := by
  induction ms generalizing g with
  | nil => exact .refl g
  | cons m ms ih =>
      refine PickLog.Grows.trans _ _ _ ?_ (ih _)
      cases m with
      | gain k k' => exact ⟨List.prefix_append _ _, List.prefix_rfl⟩
      | pick k => exact ⟨List.prefix_rfl, List.prefix_append _ _⟩

/-- **First queued, first returned**: what was returned and what is still queued, in the order of the
picks to come, is what was queued. -/
def Fifo (sz : Sizing) (k : Kernel) (g : PickLog) : Prop := g.queued = g.returned ++ queuedOrder sz k

/-- **Nobody is overtaken**: while an entry for `t` waits, every other task is returned at most as often
as it was queued when the wait began. -/
def ServesInOrder (sz : Sizing) (k : Kernel) (g g' : PickLog) : Prop :=
  ∃ rs, g'.returned = g.returned ++ rs ∧
    ∀ t ∈ queuedOrder sz k, t ∉ rs → ∀ u, rs.count u ≤ (queuedOrder sz k).count u

/-- **Nobody is passed over twice**: while an entry for `t` waits, no other task is returned twice. -/
def PassedOnce (sz : Sizing) (k : Kernel) (g g' : PickLog) : Prop :=
  ∃ rs, g'.returned = g.returned ++ rs ∧ ∀ t ∈ queuedOrder sz k, t ∉ rs → ∀ u, rs.count u ≤ 1

/-- No task is queued twice. -/
def QueuedOnce (sz : Sizing) (k : Kernel) : Prop := (queuedOrder sz k).Nodup

instance (sz : Sizing) (k : Kernel) : Decidable (QueuedOnce sz k) :=
  inferInstanceAs (Decidable (List.Nodup _))

/-- What is returned in the meantime is a part of what was queued at its beginning, up to the first
entry that still waits. -/
theorem Fifo.servesInOrder {sz : Sizing} {k k' : Kernel} {g g' : PickLog} (h : Fifo sz k g)
    (h' : Fifo sz k' g') (hg : g.Grows g') : ServesInOrder sz k g g' := by
  obtain ⟨qs, hqs⟩ := hg.queued
  obtain ⟨rs, hrs⟩ := hg.returned
  refine ⟨rs, hrs.symm, fun t ht hnot u => ?_⟩
  -- both lists continue what had been returned before
  have hsplit : queuedOrder sz k ++ qs = rs ++ queuedOrder sz k' := by
    have heq : g.returned ++ (queuedOrder sz k ++ qs) = g.returned ++ (rs ++ queuedOrder sz k') := by
      rw [← List.append_assoc, ← List.append_assoc, hrs, ← h, ← h', hqs]
    exact List.append_cancel_left heq
  rcases List.append_eq_append_iff.mp hsplit with ⟨l, hl, -⟩ | ⟨l, hl, -⟩
  · exact absurd (hl ▸ List.mem_append_left l ht) hnot
  · rw [hl, List.count_append]
    exact Nat.le_add_right _ _

/-- With one entry for each task the bound is one. -/
theorem ServesInOrder.passedOnce {sz : Sizing} {k : Kernel} {g g' : PickLog} (h : ServesInOrder sz k g g')
    (honce : QueuedOnce sz k) : PassedOnce sz k g g' := by
  obtain ⟨rs, hrs, hcount⟩ := h
  refine ⟨rs, hrs, fun t ht hnot u => ?_⟩
  exact (hcount t ht hnot u).trans (List.nodup_iff_count_le_one.mp honce u)

/-- When nothing is returned nobody is passed over. -/
theorem PassedOnce.refl (sz : Sizing) (k : Kernel) (g : PickLog) : PassedOnce sz k g g :=
  ⟨[], by simp, fun _ _ _ _ => by simp⟩

/-! ## Entries that come last -/

/-- **The move queues a task only when no queue after its own holds anybody.** -/
def ComesLast (sz : Sizing) : Move → Prop
  | .gain k k' => ∀ p < sz.maxPrio, k'.readyList sz p ≠ k.readyList sz p →
      ∀ q < sz.maxPrio, p < q → k.readyList sz q = []
  | .pick _ => True

instance (sz : Sizing) : DecidablePred (ComesLast sz)
  | .gain _ _ => inferInstanceAs (Decidable (∀ _ < _, _))
  | .pick _ => instDecidableTrue

section Fifo

variable {sz : Sizing} {k k' : Kernel} {g : PickLog}

/-- Only the queues matter. -/
theorem Fifo.of_rq (h : Fifo sz k g) (hrq : k'.rq = k.rq) : Fifo sz k' g := by
  have hlist : k'.readyList sz = k.readyList sz := funext (Kernel.readyList_congr hrq)
  rw [Fifo, queuedOrder, hlist]
  exact h

/-- An entry that comes last keeps the order. -/
theorem Fifo.gain (h : Fifo sz k g) (hg : Gains sz k k') (hlast : ComesLast sz (.gain k k')) :
    Fifo sz k' (g.move sz (.gain k k')) := by
  obtain ⟨p, id, happ | happ⟩ := hg
  · have hsame : queuedOrder sz k' = queuedOrder sz k :=
      levels_congr fun q hq => by rw [happ.lists q hq, entriesAt_nil, List.append_nil]
    simp only [Fifo, PickLog.move, happ.enqueued_nil, List.append_nil, hsame]
    exact h
  · have hp : p < sz.maxPrio := happ.lt _ List.mem_cons_self
    have hgrew : k'.readyList sz p ≠ k.readyList sz p := by
      rw [happ.lists p hp, entriesAt_cons]
      simp
    have horder := happ.queuedOrder (hlast p hp hgrew)
    simp only [Fifo, PickLog.move, happ.enqueued_singleton, horder]
    rw [← List.append_assoc, ← h]

/-- A pick moves the first entry from the queues to the record. -/
theorem Fifo.pick (h : Fifo sz k g) (hr : sz.Representable) (hwf : ReadyWF sz k) :
    Fifo sz (hrtPickNextReady sz k).2 (g.move sz (.pick k)) := by
  rw [Fifo, PickLog.move, List.append_assoc, ← queuedOrder_pick hr hwf]
  exact h

end Fifo

/-! ## Runs -/

section Runs

variable {σ α : Type*} {sz : Sizing} {step : σ → α → Option σ} {kernel : σ → Kernel}
  {moves : σ → α → List Move} {I : σ → Prop}

/-- **The clean steps**: a task is queued only when no queue after its own holds anybody. -/
def FifoClean (sz : Sizing) (moves : σ → α → List Move) : σ → α → Prop := MovesAll moves (ComesLast sz)

instance (sz : Sizing) (moves : σ → α → List Move) (s : σ) : DecidablePred (FifoClean sz moves s) :=
  inferInstanceAs (DecidablePred (MovesAll moves (ComesLast sz) s))

/-- **The record of a run.** -/
def picksOf (sz : Sizing) (step : σ → α → Option σ) (moves : σ → α → List Move) (s : σ)
    (as : List α) : PickLog :=
  trackMoves step moves (PickLog.move sz) s ⟨[], []⟩ as

/-- **The queues keep the order of arrival**, and serve in it. -/
structure KeepsArrival (sz : Sizing) (k : Kernel) (g g' : PickLog) : Prop where
  fifo : Fifo sz k g
  serves : ServesInOrder sz k g g'

/-- **Along clean steps** of a machine that starts with empty queues tasks are returned in the order they
were queued; and while no task is queued twice, nobody is passed over twice. -/
theorem Moving.keepsArrival (h : Moving sz step kernel moves I) (hr : sz.Representable) {s₀ s s' : σ}
    {as bs : List α} (hI : I s₀) (hnil : ∀ p < sz.maxPrio, (kernel s₀).readyList sz p = [])
    (hs : exec step s₀ as = some s) (hs' : exec step s bs = some s')
    (hclean : Along step (FifoClean sz moves) s₀ (as ++ bs)) :
    KeepsArrival sz (kernel s) (picksOf sz step moves s₀ as) (picksOf sz step moves s₀ (as ++ bs)) ∧
    (Along step (fun s _ => QueuedOnce sz (kernel s)) s₀ (as ++ bs) →
      PassedOnce sz (kernel s) (picksOf sz step moves s₀ as) (picksOf sz step moves s₀ (as ++ bs))) := by
  have hfifo : ∀ {cs x}, exec step s₀ cs = some x → Along step (FifoClean sz moves) s₀ cs →
      Fifo sz (kernel x) (picksOf sz step moves s₀ cs) := by
    intro cs x hx hcs
    refine h.track hr (fun _ _ _ hrq hf => hf.of_rq hrq) (fun _ _ _ hg hc hf => hf.gain hg hc)
      (fun _ _ hwf hf => hf.pick hr hwf) hI ?_ hcs hx
    show ([] : List ℕ) = [] ++ queuedOrder sz (kernel s₀)
    rw [queuedOrder, levels_eq_nil hnil]
    rfl
  have hgrows : (picksOf sz step moves s₀ as).Grows (picksOf sz step moves s₀ (as ++ bs)) := by
    rw [picksOf, picksOf, trackMoves, trackMoves, track_append hs]
    exact track_grows .refl PickLog.Grows.trans (fun s a => .moves sz (moves s a)) _ _ _
  have hserves := (hfifo hs ((along_append hs).mp hclean).1).servesInOrder
    (hfifo (exec_append.mpr ⟨s, hs, hs'⟩) hclean) hgrows
  refine ⟨⟨hfifo hs ((along_append hs).mp hclean).1, hserves⟩, fun honce => ?_⟩
  cases bs with
  | nil =>
      rw [List.append_nil]
      exact .refl sz _ _
  | cons b bs => exact hserves.passedOnce ((along_append hs).mp honce).2.1

end Runs

/-- **The record of a run** of the POSIX machine from boot. -/
def Posix.picks (sz : Sizing) (cfg : Option KernelConfig) (objs : ObjectSpecs) (mem : Kernel)
    (as : List Posix.Action) : PickLog :=
  picksOf sz (Posix.step sz) (Posix.moves sz) (Posix.boot sz cfg objs mem) as

/-- **The record of a run** of the Cortex-M machine from boot. -/
def CortexM.picks (sz : Sizing) (idleStack : ℕ) (cfg : Option KernelConfig) (objs : ObjectSpecs)
    (mem : Kernel) (as : List CortexM.Action) : PickLog :=
  picksOf sz (CortexM.step sz idleStack) (CortexM.moves sz idleStack)
    (CortexM.boot sz idleStack cfg objs mem) as

/-- After boot the ready queues are empty. -/
theorem readyList_boot (sz : Sizing) (port : Port) (cfg : Option KernelConfig) (objs : ObjectSpecs)
    (mem : Kernel) (p : ℕ) : (Sys.boot sz port cfg objs mem).k.readyList sz p = [] := by
  have hrq := (hrtInit_frame sz { mem with error := .none, pend := false } port cfg).1
  show ((hrtInit sz port cfg { mem with error := .none, pend := false }).rq p).toList _ = []
  rw [hrq]
  rfl

/-! ## The result -/

section Results

variable {sz : Sizing}

/-- **Round robin.** In every run whose steps queue a task only when no ready queue after its own holds
anybody, on either port: what was returned by picks so far is what was queued first, in order; and from
then on, while a queued task waits, no other task is returned more often than it was queued when the
wait began. If moreover no task is ever queued twice at a time, no other task is returned twice while a
queued one waits. -/
theorem round_robin (hr : sz.Representable) (cfg : Option KernelConfig) (objs : ObjectSpecs)
    (mem : Kernel) :
    (∀ (as bs : List Posix.Action) (s s' : Posix.State),
      exec (Posix.step sz) (Posix.boot sz cfg objs mem) as = some s →
      exec (Posix.step sz) s bs = some s' →
      Along (Posix.step sz) (FifoClean sz (Posix.moves sz)) (Posix.boot sz cfg objs mem) (as ++ bs) →
      KeepsArrival sz s.sys.k (Posix.picks sz cfg objs mem as)
        (Posix.picks sz cfg objs mem (as ++ bs)) ∧
      (Along (Posix.step sz) (fun s _ => QueuedOnce sz s.sys.k) (Posix.boot sz cfg objs mem)
          (as ++ bs) →
        PassedOnce sz s.sys.k (Posix.picks sz cfg objs mem as)
          (Posix.picks sz cfg objs mem (as ++ bs)))) ∧
    (∀ (idleStack : ℕ) (as bs : List CortexM.Action) (s s' : Sys),
      exec (CortexM.step sz idleStack) (CortexM.boot sz idleStack cfg objs mem) as = some s →
      exec (CortexM.step sz idleStack) s bs = some s' →
      Along (CortexM.step sz idleStack) (FifoClean sz (CortexM.moves sz idleStack))
        (CortexM.boot sz idleStack cfg objs mem) (as ++ bs) →
      KeepsArrival sz s.k (CortexM.picks sz idleStack cfg objs mem as)
        (CortexM.picks sz idleStack cfg objs mem (as ++ bs)) ∧
      (Along (CortexM.step sz idleStack) (fun s _ => QueuedOnce sz s.k)
          (CortexM.boot sz idleStack cfg objs mem) (as ++ bs) →
        PassedOnce sz s.k (CortexM.picks sz idleStack cfg objs mem as)
          (CortexM.picks sz idleStack cfg objs mem (as ++ bs)))) := by
  refine ⟨fun as bs s s' hs hs' hclean => ?_, fun idleStack as bs s s' hs hs' hclean => ?_⟩
  · exact (Posix.moving hr).keepsArrival hr (Posix.IdsInv.boot sz cfg objs mem)
      (fun p _ => readyList_boot sz .posix cfg objs mem p) hs hs' hclean
  · exact (CortexM.moving hr idleStack).keepsArrival hr (CortexM.IdsInv.boot sz idleStack cfg objs mem)
      (fun p _ => readyList_boot sz (.cortexM idleStack) cfg objs mem p) hs hs' hclean

/-- A configuration with the policy `HRT_SCHED_RR`. -/
def rrConfig : KernelConfig := ⟨1000, .rr, 5⟩

/-- A task of priority 1 and two of priority 2 are created, in this order; the first runs and goes to
sleep. -/
def risingPriorities : List CortexM.Action :=
  [.main (.createTask ⟨1, 0, 0x20001000, 64, some ⟨1, 0⟩⟩),
    .main (.createTask ⟨1, 0, 0x20002000, 64, some ⟨2, 0⟩⟩),
    .main (.createTask ⟨1, 0, 0x20003000, 64, some ⟨2, 0⟩⟩), .start, .pendsv 0, .task (.sleep 1),
    .task .yield]

/-- The tasks are returned in the order they were queued, and the third is passed over once. -/
theorem round_robin_rising :
    ∃ s s', exec (CortexM.step .default 0x20000000)
        (CortexM.boot .default 0x20000000 (some rrConfig) .basic .bss) risingPriorities = some s ∧
      exec (CortexM.step .default 0x20000000) s [.pendsv 0x20001080] = some s' ∧
      Fifo .default s.k (CortexM.picks .default 0x20000000 (some rrConfig) .basic .bss
        risingPriorities) ∧
      PassedOnce .default s.k
        (CortexM.picks .default 0x20000000 (some rrConfig) .basic .bss risingPriorities)
        (CortexM.picks .default 0x20000000 (some rrConfig) .basic .bss
          (risingPriorities ++ [.pendsv 0x20001080])) ∧
      queuedOrder .default s.k = [1, 2] ∧
      (CortexM.picks .default 0x20000000 (some rrConfig) .basic .bss
        (risingPriorities ++ [.pendsv 0x20001080])).returned = [0, 1] := by
  have heval : ((exec (CortexM.step .default 0x20000000)
      (CortexM.boot .default 0x20000000 (some rrConfig) .basic .bss) risingPriorities).map fun s =>
      ((exec (CortexM.step .default 0x20000000) s [.pendsv 0x20001080]).isSome,
        queuedOrder .default s.k)) = some (true, [1, 2]) := by
    decide +kernel
  obtain ⟨s, hs, hv⟩ := Option.map_eq_some_iff.mp heval
  obtain ⟨hsome, hqueued⟩ := Prod.mk.inj hv
  obtain ⟨s', hs'⟩ := Option.isSome_iff_exists.mp hsome
  have hr : Sizing.default.Representable := by decide
  obtain ⟨hkeeps, honce⟩ := (round_robin hr (some rrConfig) .basic .bss).2 0x20000000 _ _ s s' hs hs'
    (by decide +kernel)
  exact ⟨s, s', hs, hs', hkeeps.fifo, honce (by decide +kernel), hqueued, by decide +kernel⟩

/-- A task of priority 2 and one of priority 1 are created, in this order; the second runs and yields,
once. -/
def fallingPriorities : List CortexM.Action :=
  [.main (.createTask ⟨1, 0, 0x20001000, 64, some ⟨2, 0⟩⟩),
    .main (.createTask ⟨1, 0, 0x20002000, 64, some ⟨1, 0⟩⟩), .start, .pendsv 0, .task .yield,
    .task .yield, .pendsv 0x20002080]

/-- **Under `HRT_SCHED_RR` tasks are served by priority.** Task 0 is queued first and task 1 is returned
first; it yields, which queues it behind, and is returned again, while task 0 still waits. -/
theorem rr_serves_by_priority :
    ∃ s, exec (CortexM.step .default 0x20000000)
        (CortexM.boot .default 0x20000000 (some rrConfig) .basic .bss) fallingPriorities = some s ∧
      s.k.policy = .rr ∧ s.k.stateOf 0 = .ready ∧ s.k.readyList .default 2 = [0] ∧
      (CortexM.picks .default 0x20000000 (some rrConfig) .basic .bss fallingPriorities).queued.take 2 =
        [0, 1] ∧
      (CortexM.picks .default 0x20000000 (some rrConfig) .basic .bss fallingPriorities).returned =
        [1, 1] := by
  have heval : ((exec (CortexM.step .default 0x20000000)
      (CortexM.boot .default 0x20000000 (some rrConfig) .basic .bss) fallingPriorities).map fun s =>
      decide (s.k.policy = .rr ∧ s.k.stateOf 0 = .ready ∧ s.k.readyList .default 2 = [0])) =
      some true := by
    decide +kernel
  obtain ⟨s, hs, hv⟩ := Option.map_eq_some_iff.mp heval
  obtain ⟨hpol, hst, hlist⟩ := of_decide_eq_true hv
  exact ⟨s, hs, hpol, hst, hlist, by decide +kernel, by decide +kernel⟩

end Results

end HardRT
