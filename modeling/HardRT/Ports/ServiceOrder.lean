import HardRT.Ports.ReadyMoves

/-! # Service within a priority

Whatever the tasks, the interrupts and the scheduler do, a ready queue is only ever appended to at its
end and served at its front. So from any state of any run on, the tasks that `hrt__pick_next_ready` takes
from a queue are first those that were in it, in their order, and nobody is overtaken within a priority.

* `pickLevel`, `pickedAt` — the queue that the next pick serves, and what it takes from a given queue.
* `Served sz p k k' ds` — from `k` to `k'` the entries `ds` were taken off the front of queue `p`.
* `takenAt`, `Posix.served`, `CortexM.served` — what a move and what a run takes from a queue.
* `Moving.served` — a machine that moves the queues serves them from the front.
* `service_in_order` — the result, on both ports. -/

namespace HardRT

open Lib

/-! ## Picks from one queue -/

/-- The queue that `hrt__pick_next_ready` serves next: the most urgent one that holds anybody. -/
def pickLevel (sz : Sizing) (k : Kernel) : Option ℕ :=
  (List.range sz.maxPrio).find? fun p => !(k.readyList sz p).isEmpty

/-- What the next pick takes from queue `p`: one task, if this is the queue it serves. -/
def pickedAt (sz : Sizing) (p : ℕ) (k : Kernel) : List ℕ :=
  if pickLevel sz k = some p then [(hrtPickNextReady sz k).1] else []

/-- **Served from the front**: between `k` and `k'` the entries `ds` left queue `p`, in this order, and
others joined it behind those that were there. -/
def Served (sz : Sizing) (p : ℕ) (k k' : Kernel) (ds : List ℕ) : Prop :=
  ∃ added, k.readyList sz p ++ added = ds ++ k'.readyList sz p

section Served

variable {sz : Sizing} {p : ℕ} {k k₁ k' : Kernel} {ds es : List ℕ}

/-- What was there is served first, in its order. -/
theorem Served.comparable (h : Served sz p k k' ds) :
    ds <+: k.readyList sz p ∨ k.readyList sz p <+: ds := by
  obtain ⟨added, h⟩ := h
  exact List.prefix_or_prefix_of_prefix (List.prefix_append ds _) (h ▸ List.prefix_append _ added)

theorem Served.trans (h : Served sz p k k₁ ds) (h' : Served sz p k₁ k' es) :
    Served sz p k k' (ds ++ es) := by
  obtain ⟨added, h⟩ := h
  obtain ⟨added', h'⟩ := h'
  refine ⟨added ++ added', ?_⟩
  rw [← List.append_assoc, h, List.append_assoc, h', List.append_assoc]

/-- Appending serves nobody. -/
theorem Served.append (h : Served sz p k k₁ ds) (hp : p < sz.maxPrio) {l : List (ℕ × ℕ)}
    (happ : Appends sz k₁ k' l) : Served sz p k k' ds := by
  have h' : Served sz p k₁ k' [] := ⟨entriesAt p l, (happ.lists p hp).symm⟩
  simpa using h.trans h'

/-- Neither does what leaves the queues alone. -/
theorem Served.congr (h : Served sz p k k₁ ds) (hrq : k'.rq = k₁.rq) : Served sz p k k' ds := by
  rw [Served, Kernel.readyList_congr hrq]
  exact h

/-- **A pick** takes the head of the queue it serves and leaves the others. -/
theorem Served.pick (hr : sz.Representable) (hwf : ReadyWF sz k) :
    Served sz p k (hrtPickNextReady sz k).2 (pickedAt sz p k) := by
  refine ⟨[], ?_⟩
  rw [List.append_nil]
  rcases pickNextReady_spec hr hwf with ⟨hempty, heq⟩ | ⟨q, id, rest, hq, hpre, hl, heq⟩
  · -- nobody is queued
    have hnone : pickLevel sz k = none :=
      List.find?_eq_none.mpr fun q hq => by simp [hempty q (List.mem_range.mp hq)]
    rw [pickedAt, hnone, if_neg (by simp), heq]
    rfl
  · have hlevel : pickLevel sz k = some q := by
      refine List.find?_range_eq_some.mpr ⟨by simp [hl], List.mem_range.mpr hq, fun j hj => ?_⟩
      simp [hpre j hj]
    have hrest := readyList_dropReady (hwf q hq) hr hl p
    rw [pickedAt, hlevel, heq]
    by_cases hpq : p = q
    · subst hpq
      rw [if_pos rfl] at hrest ⊢
      rw [hrest]
      exact hl
    · rw [if_neg hpq] at hrest
      rw [if_neg (by simpa using Ne.symm hpq), hrest]
      rfl

end Served

/-! ## Runs -/

/-- What a move takes from queue `p`, after what was taken before. -/
def takenAt (sz : Sizing) (p : ℕ) (ds : List ℕ) : Move → List ℕ
  | .pick k => ds ++ pickedAt sz p k
  | .gain _ _ => ds

/-- **What a run of the POSIX machine takes from queue `p`.** -/
def Posix.served (sz : Sizing) (p : ℕ) (s : Posix.State) (bs : List Posix.Action) : List ℕ :=
  trackMoves (Posix.step sz) (Posix.moves sz) (takenAt sz p) s [] bs

/-- **What a run of the Cortex-M machine takes from queue `p`.** -/
def CortexM.served (sz : Sizing) (idleStack p : ℕ) (s : Sys) (bs : List CortexM.Action) : List ℕ :=
  trackMoves (CortexM.step sz idleStack) (CortexM.moves sz idleStack) (takenAt sz p) s [] bs

/-- **A machine that moves the queues** serves them from the front, and no queue has more entries than
there are slots. -/
theorem Moving.served {σ α : Type*} {sz : Sizing} {step : σ → α → Option σ} {kernel : σ → Kernel}
    {moves : σ → α → List Move} {I : σ → Prop} (h : Moving sz step kernel moves I)
    (hr : sz.Representable) {p : ℕ} (hp : p < sz.maxPrio) {s₀ s s' : σ} {as bs : List α} (hI : I s₀)
    (hs : exec step s₀ as = some s) (hs' : exec step s bs = some s') :
    ((kernel s).readyList sz p).length ≤ sz.maxTasks ∧
    Served sz p (kernel s) (kernel s') (trackMoves step moves (takenAt sz p) s [] bs) := by
  have hIs : I s := exec_invariant' h.inv hI hs
  constructor
  · rw [Kernel.readyList, RingBuffer.length_toList]
    exact (h.wf s hIs p hp).count_le
  · refine h.track hr (C := fun _ => True) (J := Served sz p (kernel s)) (fun _ _ _ hrq hd => hd.congr hrq)
      (fun k k' ds hg _ hd => ?_) (fun k ds hwf hd => hd.trans (.pick hr hwf)) hIs ⟨[], by simp⟩
      (Along.of_forall (fun _ _ _ _ _ => trivial) s) hs'
    obtain ⟨l, happ⟩ := hg.exists
    exact hd.append hp happ

/-! ## The result -/

section Results

variable {sz : Sizing}

/-- **Nobody is overtaken within a priority.** From any state that either port reaches, whatever happens
next, the tasks taken from a ready queue are first those that the queue holds, in their order: what was
taken so far is an initial part of the queue, or the queue is an initial part of what was taken. The
queue holds at most `HARDRT_MAX_TASKS` entries, so this bounds how many picks from its queue a task
waits. -/
theorem service_in_order (hr : sz.Representable) (cfg : Option KernelConfig) (objs : ObjectSpecs)
    (mem : Kernel) {p : ℕ} (hp : p < sz.maxPrio) :
    (∀ (as bs : List Posix.Action) (s s' : Posix.State),
      exec (Posix.step sz) (Posix.boot sz cfg objs mem) as = some s →
      exec (Posix.step sz) s bs = some s' →
      (s.sys.k.readyList sz p).length ≤ sz.maxTasks ∧
      (Posix.served sz p s bs <+: s.sys.k.readyList sz p ∨
        s.sys.k.readyList sz p <+: Posix.served sz p s bs)) ∧
    (∀ (idleStack : ℕ) (as bs : List CortexM.Action) (s s' : Sys),
      exec (CortexM.step sz idleStack) (CortexM.boot sz idleStack cfg objs mem) as = some s →
      exec (CortexM.step sz idleStack) s bs = some s' →
      (s.k.readyList sz p).length ≤ sz.maxTasks ∧
      (CortexM.served sz idleStack p s bs <+: s.k.readyList sz p ∨
        s.k.readyList sz p <+: CortexM.served sz idleStack p s bs)) := by
  refine ⟨fun as bs s s' hs hs' => ?_, fun idleStack as bs s s' hs hs' => ?_⟩
  · obtain ⟨hlen, hserved⟩ :=
      (Posix.moving hr).served hr hp (Posix.IdsInv.boot sz cfg objs mem) hs hs'
    exact ⟨hlen, hserved.comparable⟩
  · obtain ⟨hlen, hserved⟩ :=
      (CortexM.moving hr idleStack).served hr hp (CortexM.IdsInv.boot sz idleStack cfg objs mem) hs hs'
    exact ⟨hlen, hserved.comparable⟩

/-- Three tasks of priority 1 are created and the scheduler is started. -/
def threeQueued : List CortexM.Action :=
  [.main (.createTask ⟨1, 0, 0x20001000, 64, some ⟨1, 0⟩⟩),
    .main (.createTask ⟨1, 0, 0x20002000, 64, some ⟨1, 0⟩⟩),
    .main (.createTask ⟨1, 0, 0x20003000, 64, some ⟨1, 0⟩⟩), .start]

/-- The first one runs and yields, and the second one goes to sleep. -/
def twoRun : List CortexM.Action :=
  [.pendsv 0, .task .yield, .task .yield, .pendsv 0x20001080, .task (.sleep 5), .task .yield,
    .pendsv 0x20002080]

/-- The three tasks are taken in the order they were created; that the first one is queued again does
not matter. -/
theorem service_in_order_three :
    ∃ s s', exec (CortexM.step .default 0x20000000) CortexM.board threeQueued = some s ∧
      exec (CortexM.step .default 0x20000000) s twoRun = some s' ∧
      s.k.readyList .default 1 = [0, 1, 2] ∧
      (CortexM.served .default 0x20000000 1 s twoRun).length = 3 ∧
      CortexM.served .default 0x20000000 1 s twoRun = [0, 1, 2] := by
  have heval : ((exec (CortexM.step .default 0x20000000) CortexM.board threeQueued).map fun s =>
      ((exec (CortexM.step .default 0x20000000) s twoRun).isSome, s.k.readyList .default 1,
        (CortexM.served .default 0x20000000 1 s twoRun).length)) = some (true, [0, 1, 2], 3) := by
    decide +kernel
  obtain ⟨s, hs, hv⟩ := Option.map_eq_some_iff.mp heval
  obtain ⟨hsome, hlist, hlen⟩ : (exec (CortexM.step .default 0x20000000) s twoRun).isSome = true ∧
      s.k.readyList .default 1 = [0, 1, 2] ∧
      (CortexM.served .default 0x20000000 1 s twoRun).length = 3 := by
    simpa only [Prod.mk.injEq] using hv
  obtain ⟨s', hs'⟩ := Option.isSome_iff_exists.mp hsome
  have hr : Sizing.default.Representable := by decide
  have horder := ((service_in_order hr none .basic .bss (p := 1) (by decide)).2 0x20000000 _ _ s s'
    hs hs').2
  refine ⟨s, s', hs, hs', hlist, hlen, ?_⟩
  rw [hlist] at horder
  rcases horder with h | h
  · exact h.eq_of_length hlen
  · exact (h.eq_of_length hlen.symm).symm

end Results

end HardRT
