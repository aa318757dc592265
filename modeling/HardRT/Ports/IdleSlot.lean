import HardRT.CortexM.System
import HardRT.Posix.System

/-! # The idle slot

`HRT_IDLE_ID` is the last slot of the task table. `hrt__pick_next_ready` returns it for "nobody is
ready", the POSIX loop takes it for "go back to waiting", and `hrt__schedule` resumes whatever context
it holds. All three are sound as long as no user task lives there, and nothing in `hrt_create_task` sees
to that: the slot is free like any other and is handed out last.

* `idle_slot_handed_out` — with all other slots taken, `hrt_create_task` returns `HRT_IDLE_ID`, and the
  POSIX loop throws the new task away.
* `idle_slot_reserved` — if some other slot is free at every creation, the idle slot is never confused
  with a user task, on either port. -/

namespace HardRT

open Lib

/-! ## The result -/

/-- **The idle slot is apart**: it is free and without a context, and a pick returns it exactly when
every ready queue is empty. -/
structure IdleApart (sz : Sizing) (s : Sys) : Prop where
  unused : s.k.stateOf sz.idleId = .unused
  cont : s.conts sz.idleId = .none
  pick : (hrtPickNextReady sz s.k).1 = sz.idleId ↔ ∀ p < sz.maxPrio, s.k.readyList sz p = []

section Results

variable {sz : Sizing}

/-- **The idle slot is never confused with a user task.** Let every creation of a run be made while a
slot other than the idle one is free. Then no creation returns the idle slot; in every state the idle
slot is apart; the POSIX loop puts a pick aside only if it has taken nothing from the queues; and
`hrt__schedule` makes the idle slot current only when nobody is queued, in which case the context it
resumes is not that of a user task. -/
theorem idle_slot_reserved (hr : sz.Representable) (cfg : Option KernelConfig) (objs : ObjectSpecs)
    (mem : Kernel) :
    (∀ (port : Port) (k : Kernel) (a : TaskArgs), RoomBelowIdle sz k a →
      (hrtCreateTask sz port a k).1 ≠ some sz.idleId) ∧
    (∀ (as : List Posix.Action) (s : Posix.State),
      exec (Posix.step sz) (Posix.boot sz cfg objs mem) as = some s →
      Along (Posix.step sz) (Posix.CreatesWhen (RoomBelowIdle sz)) (Posix.boot sz cfg objs mem) as →
      IdleApart sz s.sys ∧
      ∀ s', s.mode = .cleared → Posix.step sz s .loop = some s' → s'.mode = .head →
        s'.sys = s.sys ∧ ∀ p < sz.maxPrio, s.sys.k.readyList sz p = []) ∧
    (∀ (idleStack : ℕ) (as : List CortexM.Action) (s : Sys),
      exec (CortexM.step sz idleStack) (CortexM.boot sz idleStack cfg objs mem) as = some s →
      Along (CortexM.step sz idleStack) (CortexM.CreatesWhen (RoomBelowIdle sz))
        (CortexM.boot sz idleStack cfg objs mem) as →
      IdleApart sz s ∧
      ∀ oldSp s', CortexM.step sz idleStack s (.pendsv oldSp) = some s' →
        (s'.k.current = some sz.idleId ∧ s'.conts sz.idleId = .none ∧
          ∀ p < sz.maxPrio, s'.k.readyList sz p = []) ∨
        ∃ t, s'.k.current = some t ∧ t ≠ sz.idleId ∧
          (s.k.stateOf t = .ready ∨ ∃ p < sz.maxPrio, t ∈ s.k.readyList sz p)) := by
  refine ⟨fun port k a hroom => hroom.sparesIdle.create_ne port, fun as s hrun hc => ?_,
    fun idleStack as s hrun hc => ?_⟩
  · have h := Posix.idleFree_of_run hr hrun
      (hc.mono fun _ _ h => h.imp fun _ _ => RoomBelowIdle.sparesIdle)
    have hpick := h.ids.known.pick_idle_iff hr fun hn => hn h.free
    refine ⟨⟨?_, h.free, hpick⟩, fun s' hm hstep hm' => ?_⟩
    · by_contra hu
      exact h.ids.known.used _ hu h.free
    · rcases Posix.step_loop hstep with ⟨hh, -⟩ | ⟨hh, -⟩ | ⟨-, hidle, rfl⟩ | ⟨-, -, rfl⟩
      · exact absurd (hm.symm.trans hh) (by simp)
      · exact absurd (hm.symm.trans hh) (by simp)
      · have hempty := hpick.mp hidle
        refine ⟨?_, hempty⟩
        rcases pick_entry hr h.ids.known.ready.wf with ⟨-, heq⟩ | ⟨p, hp, -, hmem, -⟩
        · show ({ s.sys with k := (hrtPickNextReady sz s.sys.k).2 } : Sys) = s.sys
          rw [heq]
        · rw [hempty p hp] at hmem
          exact absurd hmem List.not_mem_nil
      · exact absurd hm' (by simp)
  · have h := CortexM.idleFree_of_run hr hrun
      (hc.mono fun _ _ h => h.imp fun _ _ => RoomBelowIdle.sparesIdle)
    refine ⟨⟨h.unused, h.free, h.ids.known.pick_idle_iff hr fun hn => hn h.free⟩, ?_⟩
    intro oldSp s' hstep
    obtain ⟨-, -, rfl⟩ := CortexM.step_pendsv hstep
    rcases h.schedule hr oldSp with ⟨hidle, hempty⟩ | ⟨t, ht, hne, -, hmem⟩
    · exact Or.inl ⟨hidle, h.free, hempty⟩
    · exact Or.inr ⟨t, ht, hne, hmem⟩

/-- One task goes to sleep: the switch makes the idle slot current, with every queue empty. -/
theorem idle_slot_reserved_asleep :
    ∃ s, exec (CortexM.step .default 0x20000000) CortexM.board
        [.main (.createTask ⟨1, 0, 0x20001000, 64, none⟩), .start, .pendsv 0, .task (.sleep 1),
          .task .yield] = some s ∧
      (hrtPickNextReady .default s.k).1 = 8 ∧ s.k.stateOf 8 = .unused := by
  have heval : ((exec (CortexM.step .default 0x20000000) CortexM.board
      [.main (.createTask ⟨1, 0, 0x20001000, 64, none⟩), .start, .pendsv 0, .task (.sleep 1),
        .task .yield]).map fun s =>
      decide (∀ p < Sizing.default.maxPrio, s.k.readyList .default p = [])) = some true := by
    decide +kernel
  obtain ⟨s, hs, hv⟩ := Option.map_eq_some_iff.mp heval
  have hr : Sizing.default.Representable := by decide
  have happart := ((idle_slot_reserved hr none .basic .bss).2.2 0x20000000 _ s hs
    (by decide +kernel)).1
  exact ⟨s, hs, happart.pick.mpr (of_decide_eq_true hv), happart.unused⟩

/-- Eight tasks of priority 1 take all slots but the idle one, and a ninth of priority 0 is created;
then the loop is started and picks a task. -/
def nineTasks : List Posix.Action :=
  List.replicate 8 (.main (.createTask ⟨1, 0, 0x1000, 64, some ⟨1, 0⟩⟩)) ++
    [.main (.createTask ⟨1, 0, 0x2000, 64, some ⟨0, 0⟩⟩), .start, .loop]

/-- **`hrt_create_task` hands out the idle slot.** The ninth task gets slot 8, which is `HRT_IDLE_ID`.
A pick returns it although the queues are not empty, and the loop goes back to waiting: the task is
ready, in no queue and not current. -/
theorem idle_slot_handed_out :
    ∃ s s', exec (Posix.step .default) Posix.process nineTasks = some s ∧
      s.sys.conts 8 = .user ∧ s.mode = .cleared ∧ s.sys.k.readyList .default 0 = [8] ∧
      (hrtPickNextReady .default s.sys.k).1 = Sizing.default.idleId ∧
      Posix.step .default s .loop = some s' ∧ s'.mode = .head ∧ s'.sys.k.stateOf 8 = .ready ∧
      s'.sys.k.current = none ∧ ∀ p < Sizing.default.maxPrio, 8 ∉ s'.sys.k.readyList .default p := by
  have heval : ((exec (Posix.step .default) Posix.process nineTasks).map fun s =>
      (decide (s.sys.conts 8 = .user ∧ s.mode = .cleared ∧ s.sys.k.readyList .default 0 = [8] ∧
          (hrtPickNextReady .default s.sys.k).1 = Sizing.default.idleId),
        (Posix.step .default s .loop).map fun s' =>
          (decide (s'.mode = .head ∧ s'.sys.k.stateOf 8 = .ready ∧ s'.sys.k.current = none),
            decide (∀ p < Sizing.default.maxPrio, 8 ∉ s'.sys.k.readyList .default p)))) =
      some (true, some (true, true)) := by
    decide +kernel
  obtain ⟨s, hs, hv⟩ := Option.map_eq_some_iff.mp heval
  obtain ⟨h1, h2⟩ := Prod.mk.inj hv
  obtain ⟨s', hs', h3⟩ := Option.map_eq_some_iff.mp h2
  obtain ⟨h4, h5⟩ := Prod.mk.inj h3
  obtain ⟨hcont, hmode, hlist, hpick⟩ := of_decide_eq_true h1
  obtain ⟨hm, hst, hcur⟩ := of_decide_eq_true h4
  exact ⟨s, s', hs, hcont, hmode, hlist, hpick, hs', hm, hst, hcur, of_decide_eq_true h5⟩

end Results

end HardRT
