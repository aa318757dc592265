import HardRT.CortexM.System

/-! # Saved contexts on Cortex-M

The context of a task that is not running is a stack pointer in its control block. It is written when
the task is created, by `hrt_port_prepare_task_stack`, and whenever the task is switched out, by the
first half of `hrt__schedule`; slots are recycled, so the pointers of several tasks follow one another
in one cell.

A run is accompanied by the record of what should be there: for each slot the initial frame of its
latest creation and the pointers passed at the switch-outs since. The saved pointer is the last of them.

* `Context`, `recordContext` — the record and its update.
* `CortexM.step_sp` — who writes a saved stack pointer.
* `CortexM.ContextInv` — the control blocks agree with the record, along every run.
* `context_integrity` — what `hrt__schedule` returns is the last entry of the record. -/

namespace HardRT

open Lib

/-! ## The record -/

/-- **What is known about the context of a slot**: the frame it was created with and the stack pointers
passed at its switch-outs since then, oldest first. -/
structure Context where
  frame : ℕ
  outs : List ℕ
  deriving DecidableEq, Repr

/-- The stack pointer to resume: that of the latest switch-out, or the initial frame. -/
def Context.sp (c : Context) : ℕ := c.outs.getLast?.getD c.frame

/-- The context after a switch-out. -/
def Context.switchOut (c : Context) (oldSp : ℕ) : Context := { c with outs := c.outs ++ [oldSp] }

@[simp] theorem Context.sp_fresh (frame : ℕ) : (⟨frame, []⟩ : Context).sp = frame := rfl

@[simp] theorem Context.sp_switchOut (c : Context) (oldSp : ℕ) : (c.switchOut oldSp).sp = oldSp := by
  simp [Context.sp, Context.switchOut]

/-- The initial frame of a task: sixteen words below the end of its stack, which is rounded down to
eight bytes. -/
def TaskArgs.initialFrame (a : TaskArgs) : ℕ :=
  (a.stackWords + 4 * a.nWords) - (a.stackWords + 4 * a.nWords) % 8 - 64

/-- The stack ends inside the address space. -/
def TaskArgs.StackFits (a : TaskArgs) : Prop := a.stackWords + 4 * a.nWords < 2 ^ 32

instance (a : TaskArgs) : Decidable a.StackFits := inferInstanceAs (Decidable (_ < _))

/-- **`hrt_port_prepare_task_stack`** accepts a stack of 64 words or more that does not wrap. -/
theorem Port.cortexM_prepareTaskStack (idleStack : ℕ) {a : TaskArgs} (hfit : a.StackFits)
    (hwords : 64 ≤ a.nWords) :
    (Port.cortexM idleStack).prepareTaskStack a.stackWords a.nWords = .ok (some a.initialFrame) := by
  unfold TaskArgs.StackFits at hfit
  have hmod : (a.stackWords + 4 * a.nWords) % 2 ^ 32 = a.stackWords + 4 * a.nWords :=
    Nat.mod_eq_of_lt hfit
  have hr := Nat.mod_lt (a.stackWords + 4 * a.nWords) (show 8 > 0 by decide)
  -- the frame lies above the base, so the subtraction does not wrap
  have hsp : ((a.stackWords + 4 * a.nWords) - (a.stackWords + 4 * a.nWords) % 8 + 2 ^ 32 - 64) %
      2 ^ 32 = a.initialFrame := by
    unfold TaskArgs.initialFrame
    omega
  simp only [Port.cortexM, hmod, hsp]
  rw [if_neg (by omega), if_neg (by unfold TaskArgs.initialFrame; omega)]

/-- The initial frame of such a stack is not at address 0. -/
theorem TaskArgs.initialFrame_ne_zero {a : TaskArgs} (hwords : 64 ≤ a.nWords) : a.initialFrame ≠ 0 := by
  unfold TaskArgs.initialFrame
  omega

namespace CortexM

/-- The slot in which an action creates a task, with the arguments of the creation. -/
def created (sz : Sizing) (idleStack : ℕ) (s : Sys) : Action → Option (TaskArgs × ℕ)
  | .main (.createTask a) => (hrtCreateTask sz (.cortexM idleStack) a s.k).1.map fun id => (a, id)
  | .task (.createTask a) =>
      match s.k.current with
      | some t =>
          if s.conts t = .user then
            (hrtCreateTask sz (.cortexM idleStack) a s.k).1.map fun id => (a, id)
          else none
      | none => none
  | _ => none

/-- **The record after an action**: a switch-out appends, a creation starts afresh. -/
def recordContext (sz : Sizing) (idleStack : ℕ) (s : Sys) (a : Action) (g : ℕ → Context) :
    ℕ → Context :=
  match a with
  | .pendsv oldSp => s.k.current.elim g fun c => Function.update g c ((g c).switchOut oldSp)
  | a => (created sz idleStack s a).elim g fun new => Function.update g new.2 ⟨new.1.initialFrame, []⟩

/-- The record after boot: `hrt__init_idle_task` has laid sixteen words below the end of the idle stack,
which is 64 words long. -/
def initialContexts (idleStack : ℕ) : ℕ → Context := fun _ => ⟨idleStack + 4 * (64 - 16), []⟩

/-- **The record of a run** from boot. -/
def contexts (sz : Sizing) (idleStack : ℕ) (cfg : Option KernelConfig) (objs : ObjectSpecs)
    (mem : Kernel) (as : List Action) : ℕ → Context :=
  track (step sz idleStack) (recordContext sz idleStack) (boot sz idleStack cfg objs mem)
    (initialContexts idleStack) as

/-! ## Who writes a saved stack pointer -/

section Steps

variable {sz : Sizing} {idleStack : ℕ} {s s' : Sys}

/-- What an action creates is a free slot, filled with the arguments of the creation. -/
theorem created_spec {a : Action} {args : TaskArgs} {id : ℕ}
    (hstep : step sz idleStack s a = some s') (h : created sz idleStack s a = some (args, id)) :
    (hrtCreateTask sz (.cortexM idleStack) args s.k).1 = some id ∧
    s'.k = (hrtCreateTask sz (.cortexM idleStack) args s.k).2 ∧
    ∀ P, CreatesWhen P s a → P s.k args := by
  cases a with
  | main c =>
      obtain ⟨-, -, rfl⟩ := step_main hstep
      cases c with
      | createTask a =>
          obtain ⟨id', hid', heq⟩ := Option.map_eq_some_iff.mp h
          obtain ⟨rfl, rfl⟩ := Prod.mk.inj heq
          exact ⟨hid', rfl, fun P hP => hP⟩
      | setPolicy p => exact absurd h (by simp [created])
      | setDefaultTimeslice n => exact absurd h (by simp [created])
  | task c =>
      obtain ⟨t, hcur, -, hact⟩ := step_task hstep
      cases c with
      | createTask a =>
          simp only [created, hcur] at h
          split_ifs at h with hu
          obtain ⟨id', hid', heq⟩ := Option.map_eq_some_iff.mp h
          obtain ⟨rfl, rfl⟩ := Prod.mk.inj heq
          rcases hact with ⟨o, ho, rfl⟩ | ⟨x, hx, -⟩
          · rw [hu] at ho
            obtain rfl := Option.some.inj ho
            exact ⟨hid', rfl, fun P hP => hP t hcur hu a rfl⟩
          · exact absurd (hu.symm.trans hx) (by simp)
      | _ => exact absurd h (by simp [created])
  | _ => exact absurd h (by simp [created])

/-- **Who writes a saved stack pointer**: only a creation in its slot or its own switch-out. -/
theorem step_sp {a : Action} (hstep : step sz idleStack s a = some s') (i : ℕ)
    (hnew : ∀ args, created sz idleStack s a ≠ some (args, i))
    (hout : ∀ oldSp, a = .pendsv oldSp → s.k.current ≠ some i) :
    (s'.k.tcbs i).sp = (s.k.tcbs i).sp := by
  have hcreate : ∀ args, (hrtCreateTask sz (.cortexM idleStack) args s.k).1 ≠ some i →
      ((hrtCreateTask sz (.cortexM idleStack) args s.k).2.tcbs i).sp = (s.k.tcbs i).sp := by
    intro args hne
    rcases hrtCreateTask_tcbs sz (.cortexM idleStack) args s.k i with hs | ⟨-, hid, -⟩
    · rw [hs]
    · exact absurd hid hne
  cases a with
  | main c =>
      obtain ⟨-, -, rfl⟩ := step_main hstep
      cases c with
      | createTask a => exact hcreate a fun hid => hnew a (by simp [created, hid])
      | setPolicy p => rfl
      | setDefaultTimeslice n => rfl
  | start =>
      obtain ⟨-, rfl⟩ := step_start hstep
      rfl
  | task c =>
      obtain ⟨t, hcur, -, ⟨o, ho, rfl⟩ | ⟨x, hx, rfl⟩⟩ := step_task hstep
      · refine ((taskEffect ho).tcb i).sp fun hid => ?_
        obtain ⟨a, hu, rfl, hcr⟩ := (taskEffect ho).spawn_eq hid
        exact hnew a (by simp [created, hcur, hu, hcr])
      · rfl
  | isr op =>
      obtain rfl := Option.some.inj hstep
      exact (isr_config sz s.k op i).2
  | tick =>
      obtain rfl := Option.some.inj hstep
      exact (hrtTickIsr_config sz s.k i).2.2
  | pendsv oldSp =>
      obtain ⟨-, -, rfl⟩ := step_pendsv hstep
      show ((hrtSchedule sz oldSp { s.k with pend := false }).2.tcbs i).sp = (s.k.tcbs i).sp
      rw [(hrtSchedule_sp sz oldSp _).1 i, if_neg fun h => hout oldSp rfl h.2]

end Steps

/-! ## The invariant -/

/-- No creation comes to the idle slot, and every stack handed over ends inside the address space. -/
def SparesIdleAndFits (sz : Sizing) (k : Kernel) (a : TaskArgs) : Prop :=
  SparesIdle sz k a ∧ a.StackFits

instance (sz : Sizing) (k : Kernel) (a : TaskArgs) : Decidable (SparesIdleAndFits sz k a) :=
  inferInstanceAs (Decidable (_ ∧ _))

/-- **The control blocks agree with the record**: every slot with a context, and the idle slot, holds
the stack pointer the record says, which is not null. -/
structure ContextInv (sz : Sizing) (s : Sys) (g : ℕ → Context) : Prop where
  idle : IdleFree sz s
  sp : ∀ i, s.conts i ≠ .none ∨ i = sz.idleId → (s.k.tcbs i).sp = (g i).sp ∧ (g i).sp ≠ 0

section ContextInv

variable {sz : Sizing} {idleStack : ℕ} {s s' : Sys} {g : ℕ → Context}

/-- A step gives a context to the slot it creates and to no other. -/
theorem step_conts_ne_none {a : Action} (hstep : step sz idleStack s a = some s') {i : ℕ}
    (hi : s'.conts i ≠ .none) :
    s.conts i ≠ .none ∨ ∃ args, created sz idleStack s a = some (args, i) := by
  cases a with
  | main c =>
      obtain ⟨-, -, rfl⟩ := step_main hstep
      cases c with
      | createTask a =>
          refine (Sys.spawned_ne_none.mp hi).imp_right fun hid => ⟨a, ?_⟩
          simp [created, hid]
      | setPolicy p => exact Or.inl hi
      | setDefaultTimeslice n => exact Or.inl hi
  | start =>
      obtain ⟨-, rfl⟩ := step_start hstep
      exact Or.inl hi
  | task c =>
      obtain ⟨t, hcur, -, ⟨o, ho, rfl⟩ | ⟨x, hx, rfl⟩⟩ := step_task hstep
      · by_cases hit : i = t
        · left
          rintro hn
          rw [← hit, hn] at ho
          exact absurd ho (by simp [nextAction])
        · rw [Sys.apply_conts_of_ne s hit] at hi
          refine (Sys.spawned_ne_none.mp hi).imp_right fun hid => ?_
          obtain ⟨a, hu, rfl, hcr⟩ := (taskEffect ho).spawn_eq hid
          exact ⟨a, by simp [created, hcur, hu, hcr]⟩
      · left
        by_cases hit : i = t
        · rw [hit, hx]
          simp
        · have hi' : (s.land t x).conts i ≠ .none := hi
          rwa [Sys.land_conts_of_ne s hit] at hi'
  | isr op =>
      obtain rfl := Option.some.inj hstep
      exact Or.inl hi
  | tick =>
      obtain rfl := Option.some.inj hstep
      exact Or.inl hi
  | pendsv oldSp =>
      obtain ⟨-, -, rfl⟩ := step_pendsv hstep
      exact Or.inl hi

/-- **A switch** stores the outgoing pointer, in the control block and in the record. -/
theorem ContextInv.pendsv (h : ContextInv sz s g) (hr : sz.Representable) {oldSp : ℕ}
    (hstep : step sz idleStack s (.pendsv oldSp) = some s') :
    ContextInv sz s' (recordContext sz idleStack s (.pendsv oldSp) g) := by
  have hidle := h.idle.step (a := .pendsv oldSp) hr trivial hstep
  obtain ⟨-, hzero, rfl⟩ := step_pendsv hstep
  refine ⟨hidle, fun i hi => ?_⟩
  show ((hrtSchedule sz oldSp { s.k with pend := false }).2.tcbs i).sp = _ ∧ _
  rw [(hrtSchedule_sp sz oldSp _).1 i]
  show (if oldSp ≠ 0 ∧ s.k.current = some i then oldSp else (s.k.tcbs i).sp) = _ ∧ _
  cases hc : s.k.current with
  | none =>
      rw [if_neg (by simp)]
      simpa [recordContext, hc] using h.sp i hi
  | some c =>
      have hne : oldSp ≠ 0 := fun h0 => by simpa [hc] using hzero.mp h0
      by_cases hic : i = c
      · subst hic
        simp [recordContext, hc, hne]
      · rw [if_neg fun h' => hic (Option.some.inj h'.2).symm]
        simpa [recordContext, hc, hic] using h.sp i hi

/-- **Every step keeps the control blocks in agreement with the record.** -/
theorem ContextInv.step (h : ContextInv sz s g) (hr : sz.Representable) {a : Action}
    (hc : CreatesWhen (SparesIdleAndFits sz) s a) (hstep : CortexM.step sz idleStack s a = some s') :
    ContextInv sz s' (recordContext sz idleStack s a g) := by
  have hidle := h.idle.step hr (hc.imp fun _ _ h => h.1) hstep
  -- a slot that is neither created nor switched out keeps its pointer and its record
  have hkeep : ∀ i, (∀ args, created sz idleStack s a ≠ some (args, i)) →
      (∀ oldSp, a ≠ .pendsv oldSp) → s'.conts i ≠ .none ∨ i = sz.idleId →
      (s'.k.tcbs i).sp = (g i).sp ∧ (g i).sp ≠ 0 := by
    intro i hnew hpend hi
    rw [step_sp hstep i hnew fun oldSp heq => absurd heq (hpend oldSp)]
    refine h.sp i (hi.imp_left fun hcont => ?_)
    exact (step_conts_ne_none hstep hcont).resolve_right fun ⟨args, hargs⟩ => hnew args hargs
  by_cases hpend : ∃ oldSp, a = .pendsv oldSp
  · obtain ⟨oldSp, rfl⟩ := hpend
    exact h.pendsv hr hstep
  · have hpend' : ∀ oldSp, a ≠ .pendsv oldSp := fun oldSp heq => hpend ⟨oldSp, heq⟩
    have hrec : recordContext sz idleStack s a g = (created sz idleStack s a).elim g
        fun new => Function.update g new.2 ⟨new.1.initialFrame, []⟩ := by
      cases a with
      | pendsv oldSp => exact absurd rfl (hpend' oldSp)
      | _ => rfl
    refine ⟨hidle, fun i hi => ?_⟩
    rw [hrec]
    cases hnew : created sz idleStack s a with
    | none => exact hkeep i (fun args => by simp [hnew]) hpend' hi
    | some new =>
        obtain ⟨args, id⟩ := new
        by_cases hid : i = id
        · -- the fresh task
          subst hid
          obtain ⟨hcr, hk, hP⟩ := created_spec hstep hnew
          obtain ⟨hwords, hfill⟩ := hrtCreateTask_eq_fillSlot hcr
          have hfit := (hP _ hc).2
          rw [hk, hfill, fillSlot_sp (Port.cortexM_prepareTaskStack idleStack hfit hwords)]
          simpa using TaskArgs.initialFrame_ne_zero hwords
        · simpa [hid] using hkeep i (fun args' => by simp [hnew, Ne.symm hid]) hpend' hi

/-- After boot the idle slot holds the frame `hrt__init_idle_task` built, and no other slot has a
context. -/
theorem ContextInv.boot (sz : Sizing) (idleStack : ℕ) (cfg : Option KernelConfig) (objs : ObjectSpecs)
    (mem : Kernel) : ContextInv sz (boot sz idleStack cfg objs mem) (initialContexts idleStack) := by
  refine ⟨⟨IdsInv.boot sz idleStack cfg objs mem, rfl⟩, fun i hi => ?_⟩
  obtain rfl : i = sz.idleId := hi.resolve_left fun hcont => hcont rfl
  refine ⟨?_, by simp [initialContexts]⟩
  show ((hrtInit sz (.cortexM idleStack) cfg { mem with error := .none, pend := false }).tcbs
    sz.idleId).sp = idleStack + 4 * (64 - 16)
  simp [hrtInit, Port.cortexM]

end ContextInv

end CortexM

/-! ## The result -/

open CortexM in
/-- **Context integrity.** In every run in which no creation comes to the idle slot and the stacks end
inside the address space: the stack pointer `hrt__schedule` returns for the task it makes current is the
one passed at the latest switch-out of that task since its slot was created, or else its initial frame,
and it is not null; and a saved stack pointer changes only when its own task is switched out or when a
task is created in its slot, which was free. -/
theorem context_integrity {sz : Sizing} {idleStack : ℕ} {cfg : Option KernelConfig}
    {objs : ObjectSpecs} {mem : Kernel} (hr : sz.Representable) {as : List Action} {s : Sys}
    (hrun : exec (step sz idleStack) (boot sz idleStack cfg objs mem) as = some s)
    (hc : Along (step sz idleStack) (CreatesWhen (SparesIdleAndFits sz))
      (boot sz idleStack cfg objs mem) as) :
    (∀ oldSp s', step sz idleStack s (.pendsv oldSp) = some s' →
      ∃ i, s'.k.current = some i ∧
        (hrtSchedule sz oldSp { s.k with pend := false }).1 =
          (contexts sz idleStack cfg objs mem (as ++ [.pendsv oldSp]) i).sp ∧
        (hrtSchedule sz oldSp { s.k with pend := false }).1 ≠ 0) ∧
    (∀ a s' i, step sz idleStack s a = some s' → (s'.k.tcbs i).sp ≠ (s.k.tcbs i).sp →
      (∃ oldSp, a = .pendsv oldSp ∧ s.k.current = some i ∧ (s'.k.tcbs i).sp = oldSp) ∨
      (∃ args, created sz idleStack s a = some (args, i) ∧ s.k.stateOf i = .unused)) := by
  have hinv : ContextInv sz s (contexts sz idleStack cfg objs mem as) :=
    track_invariant (fun _ _ _ _ h ha hstep => h.step hr ha hstep)
      (ContextInv.boot sz idleStack cfg objs mem) hc hrun
  refine ⟨fun oldSp s' hstep => ?_, fun a s' i hstep hne => ?_⟩
  · have hinv' := hinv.pendsv hr hstep
    obtain ⟨i, hcur, hret⟩ := (hrtSchedule_sp sz oldSp { s.k with pend := false }).2
    have hs' := (step_pendsv hstep).2.2
    have hcur' : s'.k.current = some i := hs' ▸ hcur
    have hsp := hinv'.sp i (hinv'.idle.ids.cur i hcur')
    have hret' : (hrtSchedule sz oldSp { s.k with pend := false }).1 = (s'.k.tcbs i).sp := by
      rw [hret, hs']
    refine ⟨i, hcur', ?_, ?_⟩
    · rw [contexts, track_concat hrun hstep, hret', hsp.1]
      rfl
    · rw [hret', hsp.1]
      exact hsp.2
  · by_cases hnew : ∃ args, created sz idleStack s a = some (args, i)
    · obtain ⟨args, hargs⟩ := hnew
      exact Or.inr ⟨args, hargs, (hrtCreateTask_some (created_spec hstep hargs).1).2⟩
    · by_cases hout : ∃ oldSp, a = .pendsv oldSp ∧ s.k.current = some i
      · obtain ⟨oldSp, rfl, hcur⟩ := hout
        obtain ⟨-, hzero, rfl⟩ := step_pendsv hstep
        refine Or.inl ⟨oldSp, rfl, hcur, ?_⟩
        have h0 : oldSp ≠ 0 := fun h0 => by simpa [hcur] using hzero.mp h0
        show ((hrtSchedule sz oldSp { s.k with pend := false }).2.tcbs i).sp = oldSp
        rw [(hrtSchedule_sp sz oldSp _).1 i, if_pos ⟨h0, hcur⟩]
      · exact absurd (step_sp hstep i (fun args hargs => hnew ⟨args, hargs⟩)
          fun oldSp heq hcur => hout ⟨oldSp, heq, hcur⟩) hne

/-- A task sleeps while the idle task runs, and a tick wakes it. -/
def asleepAndBack : List CortexM.Action :=
  [.main (.createTask ⟨1, 0, 0x20001000, 64, none⟩), .start, .pendsv 0, .task (.sleep 1),
    .task .yield, .pendsv 0x20001080, .tick]

open CortexM in
/-- The next switch, out of the idle task, resumes the sleeper where it was switched out. -/
theorem context_integrity_wake :
    ∃ s s', exec (step .default 0x20000000) board asleepAndBack = some s ∧
      step .default 0x20000000 s (.pendsv 0x200000A0) = some s' ∧ s'.k.current = some 0 ∧
      (hrtSchedule .default 0x200000A0 { s.k with pend := false }).1 = 0x20001080 := by
  have heval : ((exec (step .default 0x20000000) board asleepAndBack).map fun s =>
      (step .default 0x20000000 s (.pendsv 0x200000A0)).map fun s' => s'.k.current) =
      some (some (some 0)) := by
    decide +kernel
  obtain ⟨s, hs, hv⟩ := Option.map_eq_some_iff.mp heval
  obtain ⟨s', hs', hcur⟩ := Option.map_eq_some_iff.mp hv
  have hr : Sizing.default.Representable := by decide
  obtain ⟨i, hi, hsp, -⟩ := (context_integrity hr hs (by decide +kernel)).1 _ s' hs'
  obtain rfl : 0 = i := Option.some.inj (hcur.symm.trans hi)
  refine ⟨s, s', hs, hs', hcur, ?_⟩
  rw [hsp]
  decide +kernel

end HardRT
