import HardRT.CortexM.ThreadFrames

/-! # Every task has a processor of its own

The machine of `CortexM.step` knows a task's context as a stack pointer in its control block. Here it is
put together with the processor and its memory: tasks execute code of their own, interrupts and
`PendSV_Handler` push and pop frames on the stacks of the tasks they interrupt, creations write new
frames. What the whole is for is that a task does not notice any of it.

* `Board` — processor, memory and kernel; `Board.step` its machine.
* `Disciplined` — the stacks handed to `hrt_create_task` are apart, and a task keeps its stack pointer in
  its own stack and writes to nobody else's.
* `Board.Inv` — every slot with a stack has its thread in the processor or suspended on that stack.
* `preemption_transparent` — a task that comes back has its registers, its stack pointer and its stack as
  it left them, whatever ran in between.
* `created_task_starts_fresh` — a task that comes for the first time enters the trampoline.
* `exceptions_return` — no exception return faults, and a requested switch can always be made. -/

namespace HardRT

open Lib

/-- The stack of a task. -/
def Tcb.stack (t : Tcb) : Region := ⟨t.stackBase, 4 * t.stackWords⟩

/-- The stack handed to `hrt_create_task`. -/
def TaskArgs.stack (a : TaskArgs) : Region := ⟨a.stackWords, 4 * a.nWords⟩

namespace CortexM

/-! ## The board -/

/-- What the linker and the startup code have fixed: `CCR.STKALIGN`, the addresses of two functions, and
that of `g_idle_stack`, an array of 64 words aligned to eight bytes. -/
structure Layout where
  stkalign : Bool
  hrtTaskTrampoline : Word
  hrtIdleTask : Word
  gIdleStack : Word
  idle_pos : 0 < gIdleStack.toNat
  idle_align : gIdleStack.toNat % 8 = 0
  idle_fits : gIdleStack.toNat + 4 * 64 < 2 ^ 32

/-- Where the idle stack is, as the kernel's model has it. -/
abbrev Layout.idleStack (lay : Layout) : ℕ := lay.gIdleStack.toNat

/-- **A board**: the processor with its memory, and the system. The kernel's data are in the system; the
memory is that of the stacks and of the application. -/
structure Board where
  cpu : Cpu
  sys : Sys

/-- **What a thread does between two exceptions**: the registers and the stack pointer it has then, and
the bytes it writes. -/
structure Burst where
  regs : CoreRegs
  psp : Word
  writes : List (Word × BitVec 8)

/-- The burst does not write to a region. -/
def Burst.Spares (p : Burst) (r : Region) : Prop := ∀ w ∈ p.writes, ¬ r.Contains w.1

instance (p : Burst) (r : Region) : Decidable (p.Spares r) := List.decidableBAll _ _

/-- Memory after the writes of a burst, first to last. -/
def writeBytes : List (Word × BitVec 8) → Memory → Memory
  | [], m => m
  | w :: ws, m => writeBytes ws (Function.update m w.1 w.2)

/-- The processor after a burst. -/
def Cpu.execute (p : Burst) (c : Cpu) : Cpu := ⟨p.regs, p.psp, c.primask, writeBytes p.writes c.mem⟩

/-- A byte that is not written stays. -/
theorem writeBytes_of_ne {ws : List (Word × BitVec 8)} {m : Memory} {x : Word}
    (h : ∀ w ∈ ws, w.1 ≠ x) : writeBytes ws m x = m x := by
  induction ws generalizing m with
  | nil => rfl
  | cons w ws ih =>
      rw [writeBytes, ih fun w' hw' => h w' (List.mem_cons_of_mem _ hw')]
      exact Function.update_of_ne (h w List.mem_cons_self).symm _ _

namespace Board

/-- What can happen next. -/
inductive Action
  /-- `main` makes a call, before the scheduler is started. -/
  | main (c : MainCall)
  /-- `hrt_port_enter_scheduler`. -/
  | start
  /-- The current task takes its next action in the kernel. -/
  | task (c : Call)
  /-- The current task executes code, its own or that of an API function. -/
  | code (p : Burst)
  /-- An ISR runs. -/
  | isr (op : Isr) (v : Scratch)
  /-- `SysTick_Handler`. -/
  | tick (v : Scratch)
  /-- `PendSV_Handler`. -/
  | pendsv (v : Scratch)

/-- **The processor at the first instruction of a handler.** Before the first switch it is `main` that
is interrupted, which runs on the main stack. -/
def entry (lay : Layout) (b : Board) : Cpu :=
  if b.sys.k.current = none then b.cpu else b.cpu.pushStack lay.stkalign

/-- The stack pointer `PendSV_Handler` passes to `hrt__schedule`. -/
def oldSp (lay : Layout) (b : Board) : ℕ := (b.entry lay).atSchedule.arg.toNat

/-- What an action is to the kernel. -/
def kernelAction (lay : Layout) (b : Board) : Action → Option CortexM.Action
  | .main c => some (.main c)
  | .start => some .start
  | .task c => some (.task c)
  | .code _ => none
  | .isr op _ => some (.isr op)
  | .tick _ => some .tick
  | .pendsv _ => some (.pendsv (b.oldSp lay))

/-- The slot in which an action creates a task, with the arguments of the creation. -/
def created (lay : Layout) (sz : Sizing) (b : Board) (a : Action) : Option (TaskArgs × ℕ) :=
  (b.kernelAction lay a).bind (CortexM.created sz lay.idleStack b.sys)

/-- What `hrt_port_prepare_task_stack` writes for the task that an action creates, if it creates one. -/
def prepared (lay : Layout) (sz : Sizing) (b : Board) (a : Action) : Cpu :=
  (b.created lay sz a).elim b.cpu fun new =>
    { b.cpu with mem := (hrtPortPrepareTaskStack lay.hrtTaskTrampoline (BitVec.ofNat 32 new.1.stackWords)
        (BitVec.ofNat 32 new.1.nWords) b.cpu.mem).1 }

/-- `hrt__schedule` as the handler calls it: its result in `r0`, and `v` in the other registers. -/
def hrtScheduleCall (sz : Sizing) (b : Board) (v : Scratch) (oldSp : Word) : Memory → CallResult :=
  { v with r0 := BitVec.ofNat 32 (hrtSchedule sz oldSp.toNat { b.sys.k with pend := false }).1 }.call

/-- What an action is to the processor. -/
def cpuStep (lay : Layout) (sz : Sizing) (b : Board) : Action → Option Cpu
  | .main c => some (b.prepared lay sz (.main c))
  | .start => some b.cpu
  | .task c => some (b.prepared lay sz (.task c))
  | .code p => if b.sys.k.current = none then none else some (b.cpu.execute p)
  | .isr _ v | .tick v =>
      if b.sys.k.current = none then some b.cpu else b.cpu.interrupt lay.stkalign v
  | .pendsv v => pendSVHandler lay.stkalign (b.hrtScheduleCall sz v) (b.entry lay)

/-- **The machine of the board**: processor and kernel move together. -/
def step (lay : Layout) (sz : Sizing) (b : Board) (a : Action) : Option Board :=
  (b.cpuStep lay sz a).bind fun cpu =>
    ((b.kernelAction lay a).elim (some b.sys) (CortexM.step sz lay.idleStack b.sys)).map fun sys =>
      ⟨cpu, sys⟩

/-- **The board after boot**: `hrt_init` has built the idle stack, and `PSP` is zero. -/
def boot (lay : Layout) (sz : Sizing) (cfg : Option KernelConfig) (objs : ObjectSpecs) (mem : Kernel)
    (regs : CoreRegs) (m : Memory) : Board where
  cpu := ⟨regs, 0, false, (hrtInitIdleTask lay.hrtTaskTrampoline lay.hrtIdleTask lay.gIdleStack m).1⟩
  sys := CortexM.boot sz lay.idleStack cfg objs mem

variable {lay : Layout} {sz : Sizing} {b b' : Board}

/-- The two halves of a step. -/
theorem step_cases {a : Action} (h : b.step lay sz a = some b') :
    b.cpuStep lay sz a = some b'.cpu ∧
    ((∃ p, a = .code p ∧ b'.sys = b.sys) ∨
      ∃ ka, b.kernelAction lay a = some ka ∧ CortexM.step sz lay.idleStack b.sys ka = some b'.sys) := by
  obtain ⟨cpu, hcpu, hmap⟩ := Option.bind_eq_some_iff.mp h
  obtain ⟨sys, hsys, rfl⟩ := Option.map_eq_some_iff.mp hmap
  refine ⟨hcpu, ?_⟩
  cases a with
  | code p => exact Or.inl ⟨p, rfl, (Option.some.inj hsys).symm⟩
  | _ => exact Or.inr ⟨_, rfl, hsys⟩

end Board

/-! ## Stacks -/

/-- The slot has a stack: a task has been created in it, or it is the idle slot. A deleted task keeps its
stack until its slot is used again. -/
def Occupied (sz : Sizing) (s : Sys) (i : ℕ) : Prop := s.conts i ≠ .none ∨ i = sz.idleId

instance (sz : Sizing) (s : Sys) (i : ℕ) : Decidable (Occupied sz s i) :=
  inferInstanceAs (Decidable (_ ∨ _))

/-- The stack of a slot. -/
def stackOf (lay : Layout) (sz : Sizing) (k : Kernel) (i : ℕ) : Region :=
  if i = sz.idleId then ⟨lay.idleStack, 4 * 64⟩ else (k.tcbs i).stack

/-- A creation is in order: the slot is neither the idle slot nor the creator's own; the stack is made of
whole words, ends inside the address space and is apart from every other slot's. -/
structure CreatesApart (lay : Layout) (sz : Sizing) (s : Sys) (args : TaskArgs) (id : ℕ) : Prop where
  ne_idle : id ≠ sz.idleId
  ne_current : s.k.current ≠ some id
  align : args.stackWords % 4 = 0
  fits : args.StackFits
  apart : ∀ j < sz.maxTasks, Occupied sz s j → j ≠ id → args.stack.Apart (stackOf lay sz s.k j)

instance (lay : Layout) (sz : Sizing) (s : Sys) (args : TaskArgs) (id : ℕ) :
    Decidable (CreatesApart lay sz s args id) :=
  decidable_of_iff (id ≠ sz.idleId ∧ s.k.current ≠ some id ∧ args.stackWords % 4 = 0 ∧ args.StackFits ∧
      ∀ j < sz.maxTasks, Occupied sz s j → j ≠ id → args.stack.Apart (stackOf lay sz s.k j))
    ⟨fun h => ⟨h.1, h.2.1, h.2.2.1, h.2.2.2.1, h.2.2.2.2⟩,
      fun h => ⟨h.ne_idle, h.ne_current, h.align, h.fits, h.apart⟩⟩

/-- **The discipline of the tasks.** A thread leaves its stack pointer in its own stack, with room for a
frame, and writes to no other stack; creations are in order. -/
def Disciplined (lay : Layout) (sz : Sizing) (b : Board) : Board.Action → Prop
  | .code p => ∀ i ∈ b.sys.k.current, OnStack (stackOf lay sz b.sys.k i) (b.cpu.execute p) ∧
      ∀ j < sz.maxTasks, Occupied sz b.sys j → j ≠ i →
        p.Spares (stackOf lay sz b.sys.k j)
  | a => ∀ new ∈ b.created lay sz a, CreatesApart lay sz b.sys new.1 new.2

instance (lay : Layout) (sz : Sizing) (b : Board) : DecidablePred (Disciplined lay sz b)
  | .code _ | .main _ | .start | .task _ | .isr _ _ | .tick _ | .pendsv _ =>
      inferInstanceAs (Decidable (∀ _ ∈ _, _))

section Kernel

variable {lay : Layout} {sz : Sizing} {s s' : Sys} {a : Action}

/-- An ISR moves no stack. -/
theorem isr_stack (sz : Sizing) (k : Kernel) (op : Isr) (j : ℕ) :
    ((isrAction sz k op).2.1.tcbs j).stack = (k.tcbs j).stack := by
  rcases isr_tcbs sz k op j with hs | hs
  · rw [hs]
  · rw [hs]
    rfl

/-- A tick moves no stack. -/
theorem hrtTickIsr_stack (sz : Sizing) (k : Kernel) (j : ℕ) :
    ((hrtTickIsr sz k).tcbs j).stack = (k.tcbs j).stack := by
  obtain ⟨x, hx, htcb⟩ := hrtTickIsr_tcbs sz k j
  have hstack : x.stack = (k.tcbs j).stack := by
    rcases hx with rfl | ⟨-, rfl⟩ <;> rfl
  rcases htcb with htcb | ⟨-, -, -, -, htcb, -⟩
  · rw [htcb, hstack]
  · rw [htcb]
    exact hstack

/-- Only a creation in its slot gives a task another stack. -/
theorem step_stack {idleStack : ℕ} (hstep : step sz idleStack s a = some s') (i : ℕ)
    (hnew : ∀ args, created sz idleStack s a ≠ some (args, i)) :
    (s'.k.tcbs i).stack = (s.k.tcbs i).stack := by
  cases a with
  | main c =>
      obtain ⟨-, -, rfl⟩ := step_main hstep
      cases c with
      | createTask x =>
          rcases hrtCreateTask_tcbs sz (.cortexM idleStack) x s.k i with hs | ⟨-, hid, -⟩
          · exact congrArg Tcb.stack hs
          · exact absurd (by simp [created, hid]) (hnew x)
      | setPolicy p => rfl
      | setDefaultTimeslice n => rfl
  | start =>
      obtain ⟨-, rfl⟩ := step_start hstep
      rfl
  | task c =>
      obtain ⟨t, hcur, -, ⟨o, ho, rfl⟩ | ⟨x, hx, rfl⟩⟩ := step_task hstep
      · have hspawn : o.spawn ≠ some i := by
          intro hid
          obtain ⟨x, hu, rfl, hcr⟩ := (taskEffect ho).spawn_eq hid
          exact hnew x (by simp [created, hcur, hu, hcr])
        show (o.k.tcbs i).stack = (s.k.tcbs i).stack
        cases (taskEffect ho).tcb i with
        | same hs => rw [hs]
        | leave st wake _ _ _ hs => rw [hs]; rfl
        | refill hs => rw [hs]; rfl
        | create _ hid _ => exact absurd hid hspawn
      · rfl
  | isr op =>
      obtain rfl := Option.some.inj hstep
      exact isr_stack sz s.k op i
  | tick =>
      obtain rfl := Option.some.inj hstep
      exact hrtTickIsr_stack sz s.k i
  | pendsv oldSp =>
      obtain ⟨-, -, rfl⟩ := step_pendsv hstep
      obtain ⟨sp, rq, cur, e, heq⟩ := hrtSchedule_frame sz oldSp { s.k with pend := false }
      show ((hrtSchedule sz oldSp { s.k with pend := false }).2.tcbs i).stack = _
      rw [heq]
      rfl

/-- A slot that is not created in keeps its stack. -/
theorem step_stackOf (hstep : step sz lay.idleStack s a = some s') (i : ℕ)
    (hnew : ∀ args, created sz lay.idleStack s a ≠ some (args, i)) :
    stackOf lay sz s'.k i = stackOf lay sz s.k i := by
  unfold stackOf
  rw [step_stack hstep i hnew]

/-- The slots with a stack after a step. -/
theorem step_occupied {idleStack : ℕ} (hstep : step sz idleStack s a = some s') {i : ℕ}
    (hi : Occupied sz s' i) :
    Occupied sz s i ∨ ∃ args, created sz idleStack s a = some (args, i) := by
  rcases hi with hi | hi
  · exact (step_conts_ne_none hstep hi).imp_left Or.inl
  · exact Or.inl (Or.inr hi)

/-- A slot with a stack is in the table. -/
theorem IdsInv.occupied_lt (h : IdsInv sz s) {i : ℕ} (hi : Occupied sz s i) : i < sz.maxTasks := by
  rcases hi with hi | rfl
  · exact h.known.lt i hi
  · exact sz.idleId_lt

/-- The stack of a task that has just been created, and its stack pointer. -/
theorem created_stack {idleStack id : ℕ} {args : TaskArgs} (hstep : step sz idleStack s a = some s')
    (hnew : created sz idleStack s a = some (args, id)) :
    (s'.k.tcbs id).stack = args.stack ∧ 0 < args.stackWords ∧ 64 ≤ args.nWords := by
  obtain ⟨hcr, hk, -⟩ := created_spec hstep hnew
  have hargs : ¬ (args.fn = 0 ∨ args.stackWords = 0 ∨ args.nWords < 64) := by
    intro hbad
    rw [hrtCreateTask, if_pos hbad] at hcr
    exact absurd hcr (by simp)
  refine ⟨?_, by omega, by omega⟩
  rw [hk]
  rcases hrtCreateTask_cases sz (.cortexM idleStack) args s.k with ⟨e, he⟩ | ⟨id', sp, e, -, -, he⟩
  · rw [he] at hcr
    exact absurd hcr (by simp)
  · rw [he] at hcr ⊢
    obtain rfl : id' = id := Option.some.inj hcr
    simp [TaskArgs.readyTcb, TaskArgs.tcb, Tcb.stack, TaskArgs.stack]

end Kernel

/-! ## The processors of the threads -/

/-- A processor about to run a new task for the first time. -/
def freshCpu (lay : Layout) (args : TaskArgs) (m : Memory) : Cpu where
  toCoreRegs := CoreRegs.fresh lay.hrtTaskTrampoline 0xFFFFFFFD
  psp := stackTop (BitVec.ofNat 32 args.stackWords) (BitVec.ofNat 32 args.nWords)
  primask := false
  mem := (hrtPortPrepareTaskStack lay.hrtTaskTrampoline (BitVec.ofNat 32 args.stackWords)
    (BitVec.ofNat 32 args.nWords) m).1

section Fresh

variable {lay : Layout} {args : TaskArgs} {m : Memory}

/-- The stack pointer of a new task, as a number. -/
theorem toNat_freshCpu_psp (lay : Layout) (m : Memory) (hfit : args.StackFits) :
    (freshCpu lay args m).psp.toNat =
    (args.stackWords + 4 * args.nWords) - (args.stackWords + 4 * args.nWords) % 8 := by
  unfold TaskArgs.StackFits at hfit
  have hbase : (BitVec.ofNat 32 args.stackWords).toNat = args.stackWords :=
    Nat.mod_eq_of_lt (by omega)
  have hsize : (BitVec.ofNat 32 args.nWords).toNat = args.nWords := Nat.mod_eq_of_lt (by omega)
  show (stackTop _ _).toNat = _
  rw [toNat_stackTop (by omega), hbase, hsize]

variable (hpos : 0 < args.stackWords) (hwords : 64 ≤ args.nWords) (hfit : args.StackFits)

include hwords hfit

/-- `hrt_port_prepare_task_stack` accepts the stack, and writes a frame at its top. -/
theorem hrtPortPrepareTaskStack_freshCpu (lay : Layout) (m : Memory) :
    hrtPortPrepareTaskStack lay.hrtTaskTrampoline (BitVec.ofNat 32 args.stackWords)
        (BitVec.ofNat 32 args.nWords) m =
      ((pushFrame lay.hrtTaskTrampoline 0xFFFFFFFD ⟨m, (freshCpu lay args m).psp⟩).mem,
        .ok ((freshCpu lay args m).psp - 0x40)) := by
  unfold TaskArgs.StackFits at hfit
  have hbase : (BitVec.ofNat 32 args.stackWords).toNat = args.stackWords :=
    Nat.mod_eq_of_lt (by omega)
  have hsize : (BitVec.ofNat 32 args.nWords).toNat = args.nWords := Nat.mod_eq_of_lt (by omega)
  exact hrtPortPrepareTaskStack_of_fits (by omega) (by omega) _ m

/-- Its memory holds that frame. -/
theorem freshCpu_mem (lay : Layout) (m : Memory) : (freshCpu lay args m).mem =
    (pushFrame lay.hrtTaskTrampoline 0xFFFFFFFD ⟨m, (freshCpu lay args m).psp⟩).mem :=
  congrArg Prod.fst (hrtPortPrepareTaskStack_freshCpu hwords hfit lay m)

/-- Nothing outside the stack has been written. -/
theorem freshCpu_mem_of_not_contains {x : Word} (hx : ¬ args.stack.Contains x) :
    (freshCpu lay args m).mem x = m x := by
  have htop := toNat_freshCpu_psp lay m hfit
  by_contra hne
  rw [freshCpu_mem hwords hfit] at hne
  have hin := pushFrame_changed _ _ _ (by rw [htop]; omega) hne
  rw [htop] at hin
  have hstop : args.stack.stop = args.stackWords + 4 * args.nWords := rfl
  exact hx ⟨by show args.stackWords ≤ _; omega, by omega⟩

include hpos

/-- A new task starts on its stack. -/
theorem freshCpu_onStack : OnStack args.stack (freshCpu lay args m) := by
  have htop := toNat_freshCpu_psp lay m hfit
  have hbase : args.stack.base = args.stackWords := rfl
  have hstop : args.stack.stop = args.stackWords + 4 * args.nWords := rfl
  exact OnStack.of_fresh rfl hpos (by omega) (by omega) (by omega)

/-- **A new task is a suspended thread.** -/
theorem freshCpu_suspended : Suspended lay.stkalign args.stack (freshCpu lay args m).mem
    ((freshCpu lay args m).psp - 0x40).toNat (freshCpu lay args m) := by
  have htop := toNat_freshCpu_psp lay m hfit
  have hbase : args.stack.base = args.stackWords := rfl
  have hframe := Suspended.of_pushFrame lay.hrtTaskTrampoline 0xFFFFFFFD m lay.stkalign false
    (r := args.stack) (t := (freshCpu lay args m).psp) hpos (by rw [htop]; omega)
  rwa [← freshCpu_mem hwords hfit lay m] at hframe

end Fresh

/-- The stack pointer of a task that has just been created is the one at which its frame lies. -/
theorem created_sp {lay : Layout} {sz : Sizing} {s s' : Sys} {a : Action} {args : TaskArgs} {id : ℕ}
    (hstep : step sz lay.idleStack s a = some s')
    (hnew : created sz lay.idleStack s a = some (args, id)) (hfit : args.StackFits) (m : Memory) :
    (s'.k.tcbs id).sp = ((freshCpu lay args m).psp - 0x40).toNat := by
  obtain ⟨hcr, hk, -⟩ := created_spec hstep hnew
  obtain ⟨hwords, hfill⟩ := hrtCreateTask_eq_fillSlot hcr
  have hport := prepareTaskStack_refines lay.idleStack lay.hrtTaskTrampoline
    (BitVec.ofNat 32 args.stackWords) (BitVec.ofNat 32 args.nWords) m
  rw [hrtPortPrepareTaskStack_freshCpu hwords hfit] at hport
  unfold TaskArgs.StackFits at hfit
  rw [BitVec.toNat_ofNat, BitVec.toNat_ofNat, Nat.mod_eq_of_lt (by omega : args.stackWords < 2 ^ 32),
    Nat.mod_eq_of_lt (by omega : args.nWords < 2 ^ 32)] at hport
  rw [hk, hfill]
  exact fillSlot_sp hport

/-- A processor about to run the idle thread for the first time. -/
def idleCpu (lay : Layout) (m : Memory) : Cpu where
  toCoreRegs := CoreRegs.fresh lay.hrtIdleTask lay.hrtTaskTrampoline
  psp := lay.gIdleStack + 4 * 64
  primask := false
  mem := (hrtInitIdleTask lay.hrtTaskTrampoline lay.hrtIdleTask lay.gIdleStack m).1

/-- **The processor as each thread last left it**, after an action: as its code left it, or as its
creation made it. -/
def recordCpu (lay : Layout) (sz : Sizing) (b : Board) (a : Board.Action) (g : ℕ → Cpu) : ℕ → Cpu :=
  match a with
  | .code p => b.sys.k.current.elim g fun i => Function.update g i (b.cpu.execute p)
  | a => (b.created lay sz a).elim g fun new => Function.update g new.2 (freshCpu lay new.1 b.cpu.mem)

/-- **Every slot with a stack has its thread**, in the processor or suspended on that stack, as it was
last left. -/
structure Board.Inv (lay : Layout) (sz : Sizing) (b : Board) (g : ℕ → Cpu) : Prop where
  idle : IdleFree sz b.sys
  onStack : ∀ i, Occupied sz b.sys i → OnStack (stackOf lay sz b.sys.k i) (g i)
  apart : ∀ i j, Occupied sz b.sys i → Occupied sz b.sys j → i ≠ j →
    (stackOf lay sz b.sys.k i).Apart (stackOf lay sz b.sys.k j)
  boot : b.sys.k.current = none → b.cpu.psp = 0
  running : ∀ i, b.sys.k.current = some i → Runs (stackOf lay sz b.sys.k i) (g i) b.cpu
  waiting : ∀ i, Occupied sz b.sys i → b.sys.k.current ≠ some i →
    Suspended lay.stkalign (stackOf lay sz b.sys.k i) b.cpu.mem (b.sys.k.tcbs i).sp (g i)

namespace Board.Inv

variable {lay : Layout} {sz : Sizing} {b b' : Board} {g : ℕ → Cpu}

/-- The current slot has a stack. -/
theorem occupied_current (h : b.Inv lay sz g) {i : ℕ} (hi : b.sys.k.current = some i) :
    Occupied sz b.sys i :=
  h.idle.ids.cur i hi

/-- The current thread is on its stack. -/
theorem onStack_cpu (h : b.Inv lay sz g) {i : ℕ} (hi : b.sys.k.current = some i) :
    OnStack (stackOf lay sz b.sys.k i) b.cpu :=
  (h.running i hi).onStack (h.onStack i (h.occupied_current hi))

/-- **Steps that create nobody and switch nobody** keep the invariant, if the current thread is left as
it was and no other stack is written to. -/
theorem frame (h : b.Inv lay sz g) {ka : CortexM.Action} (hr : sz.Representable)
    (hstep : CortexM.step sz lay.idleStack b.sys ka = some b'.sys)
    (hns : ∀ sp, ka ≠ .pendsv sp) (hnew : CortexM.created sz lay.idleStack b.sys ka = none)
    (hpsp : b'.cpu.psp = b.cpu.psp)
    (hrun : ∀ i, b.sys.k.current = some i → Runs (stackOf lay sz b.sys.k i) (g i) b'.cpu)
    (hmem : ∀ j, Occupied sz b.sys j → b.sys.k.current ≠ some j →
      ∀ x, (stackOf lay sz b.sys.k j).Contains x → b'.cpu.mem x = b.cpu.mem x) :
    b'.Inv lay sz g := by
  have hnone : ∀ i args, CortexM.created sz lay.idleStack b.sys ka ≠ some (args, i) := by
    simp [hnew]
  have hcur := step_current hstep hns
  have hstack := fun i => step_stackOf hstep i (hnone i)
  have hsp := fun i => step_sp hstep i (hnone i) fun sp heq => absurd heq (hns sp)
  have hocc : ∀ i, Occupied sz b'.sys i → Occupied sz b.sys i := fun i hi =>
    (step_occupied hstep hi).resolve_right fun ⟨args, hargs⟩ => hnone i args hargs
  have hidle : IdleFree sz b'.sys := by
    refine ⟨h.idle.ids.step hr hstep, ?_⟩
    by_contra hn
    rcases step_conts_ne_none hstep hn with hold | ⟨args, hargs⟩
    · exact hold h.idle.free
    · exact hnone _ args hargs
  refine ⟨hidle, fun i hi => ?_, fun i j hi hj hij => ?_, fun hi => ?_, fun i hi => ?_,
    fun i hi hne => ?_⟩
  · rw [hstack]
    exact h.onStack i (hocc i hi)
  · rw [hstack, hstack]
    exact h.apart i j (hocc i hi) (hocc j hj) hij
  · rw [hpsp]
    exact h.boot (hcur ▸ hi)
  · rw [hstack]
    exact hrun i (hcur ▸ hi)
  · rw [hstack, hsp]
    rw [hcur] at hne
    have hi' := hocc i hi
    exact (h.waiting i hi' hne).congr (h.onStack i hi').bound (hmem i hi' hne)

/-- A step that leaves the processor alone. -/
theorem of_kernel (h : b.Inv lay sz g) {ka : CortexM.Action} (hr : sz.Representable)
    (hstep : CortexM.step sz lay.idleStack b.sys ka = some b'.sys)
    (hns : ∀ sp, ka ≠ .pendsv sp) (hnew : CortexM.created sz lay.idleStack b.sys ka = none)
    (hcpu : b'.cpu = b.cpu) : b'.Inv lay sz g :=
  h.frame hr hstep hns hnew (by rw [hcpu]) (fun i hi => hcpu ▸ h.running i hi)
    fun _ _ _ _ _ => by rw [hcpu]

/-- A byte of another stack is not one of the 68 below the current stack pointer. -/
theorem not_below (h : b.Inv lay sz g) {i j : ℕ} (hi : b.sys.k.current = some i)
    (hj : Occupied sz b.sys j) (hne : b.sys.k.current ≠ some j) {x : Word}
    (hx : (stackOf lay sz b.sys.k j).Contains x) :
    ¬ (b.cpu.psp.toNat - 68 ≤ x.toNat ∧ x.toNat < b.cpu.psp.toNat) := by
  have hon := h.onStack_cpu hi
  have hroom := hon.room
  have hbound := hon.bound
  have hout := (h.apart j i hj (h.occupied_current hi) fun hji => hne (hji ▸ hi)).not_contains hx
  intro hin
  exact hout ⟨by omega, by omega⟩

/-- A byte right below the current stack pointer is on the current stack. -/
theorem contains_below (h : b.Inv lay sz g) {i : ℕ} (hi : b.sys.k.current = some i) {x : Word}
    (hx : b.cpu.psp.toNat - 68 ≤ x.toNat ∧ x.toNat < b.cpu.psp.toNat) :
    (stackOf lay sz b.sys.k i).Contains x := by
  have hon := h.onStack_cpu hi
  have hroom := hon.room
  have hbound := hon.bound
  exact ⟨by omega, by omega⟩

/-- **An interrupt returns**, with the registers and the stack pointer of the thread; what it has written
lies in the stack of the current task, below the stack pointer. -/
theorem interrupt_returns (h : b.Inv lay sz g) (v : Scratch) :
    ∃ m', (if b.sys.k.current = none then some b.cpu else b.cpu.interrupt lay.stkalign v) =
        some { b.cpu with mem := m' } ∧
      ∀ x, m' x ≠ b.cpu.mem x → ∃ i, b.sys.k.current = some i ∧
        b.cpu.psp.toNat - 68 ≤ x.toNat ∧ x.toNat < b.cpu.psp.toNat := by
  cases hc : b.sys.k.current with
  | none => exact ⟨b.cpu.mem, rfl, fun x hx => absurd rfl hx⟩
  | some i =>
      have hon := h.onStack_cpu hc
      have hroom := hon.room
      refine ⟨_, (if_neg (by simp)).trans (Cpu.interrupt_of_onStack hon lay.stkalign v), fun x hx => ?_⟩
      by_contra hout
      exact hx (Cpu.pushStack_mem lay.stkalign (by omega) fun hin => hout ⟨i, rfl, by omega, hin.2⟩)

/-- **An interrupt** keeps the invariant. -/
theorem interrupt (h : b.Inv lay sz g) {ka : CortexM.Action} (hr : sz.Representable)
    (hstep : CortexM.step sz lay.idleStack b.sys ka = some b'.sys)
    (hns : ∀ sp, ka ≠ .pendsv sp) (hnew : CortexM.created sz lay.idleStack b.sys ka = none)
    {v : Scratch} (hcpu : (if b.sys.k.current = none then some b.cpu
      else b.cpu.interrupt lay.stkalign v) = some b'.cpu) : b'.Inv lay sz g := by
  obtain ⟨m', hret, hmem⟩ := h.interrupt_returns v
  have hcpu' : b'.cpu = { b.cpu with mem := m' } := Option.some.inj (hcpu.symm.trans hret)
  refine h.frame hr hstep hns hnew (by rw [hcpu']) (fun i hi => ?_) fun j hj hne x hx => ?_
  · have hrun := h.running i hi
    refine ⟨by rw [hcpu']; exact hrun.regs, by rw [hcpu']; exact hrun.psp, fun x hx hx' => ?_⟩
    rw [← hrun.live x hx hx', hcpu']
    rw [← hrun.psp] at hx
    by_contra hch
    obtain ⟨-, -, -, hlt⟩ := hmem x hch
    omega
  · rw [hcpu']
    by_contra hch
    obtain ⟨i, hi, hin⟩ := hmem x hch
    exact h.not_below hi hj hne hx hin

/-- **Code of the current thread** keeps the invariant, if it is disciplined. -/
theorem code (h : b.Inv lay sz g) {p : Burst} (hdisc : Disciplined lay sz b (.code p)) {i : ℕ}
    (hi : b.sys.k.current = some i) (hsys : b'.sys = b.sys) (hcpu : b'.cpu = b.cpu.execute p) :
    b'.Inv lay sz (Function.update g i (b.cpu.execute p)) := by
  obtain ⟨hon, hwrites⟩ := hdisc i hi
  obtain ⟨cpu, sys⟩ := b'
  obtain rfl : sys = b.sys := hsys
  obtain rfl : cpu = b.cpu.execute p := hcpu
  refine ⟨h.idle, fun j hj => ?_, h.apart, fun hn => ?_, fun j hj => ?_, fun j hj hne => ?_⟩
  · by_cases hji : j = i
    · subst hji
      rwa [Function.update_self]
    · rw [Function.update_of_ne hji]
      exact h.onStack j hj
  · exact absurd (hi.symm.trans hn) (by simp)
  · obtain rfl : i = j := Option.some.inj (hi.symm.trans hj)
    rw [Function.update_self]
    exact Runs.refl _ _
  · have hji : j ≠ i := fun hji => hne (hji ▸ hi)
    rw [Function.update_of_ne hji]
    refine (h.waiting j hj hne).congr (h.onStack j hj).bound fun x hx => writeBytes_of_ne ?_
    rintro w hw rfl
    exact hwrites j (h.idle.ids.occupied_lt hj) hj hji w hw hx

/-- **A creation** keeps the invariant, if it is in order: the new thread is suspended on its stack. -/
theorem create (h : b.Inv lay sz g) {ka : CortexM.Action} (hr : sz.Representable)
    (hstep : CortexM.step sz lay.idleStack b.sys ka = some b'.sys)
    (hns : ∀ sp, ka ≠ .pendsv sp) {args : TaskArgs} {id : ℕ}
    (hnew : CortexM.created sz lay.idleStack b.sys ka = some (args, id))
    (hdisc : CreatesApart lay sz b.sys args id)
    (hcpu : b'.cpu = { b.cpu with mem := (freshCpu lay args b.cpu.mem).mem }) :
    b'.Inv lay sz (Function.update g id (freshCpu lay args b.cpu.mem)) := by
  have hother : ∀ j, j ≠ id → ∀ x, CortexM.created sz lay.idleStack b.sys ka ≠ some (x, j) := by
    intro j hj x
    simp [hnew, Ne.symm hj]
  have hcur := step_current hstep hns
  have hocc : ∀ j, j ≠ id → Occupied sz b'.sys j → Occupied sz b.sys j := fun j hj hocc =>
    (step_occupied hstep hocc).resolve_right fun ⟨x, hx⟩ => hother j hj x hx
  obtain ⟨hstack, hpos, hwords⟩ := created_stack hstep hnew
  have hstackId : stackOf lay sz b'.sys.k id = args.stack := by
    rw [stackOf, if_neg hdisc.ne_idle, hstack]
  have hstackNe := fun j hj => step_stackOf hstep j (hother j hj)
  -- the new frame is written to the new stack
  have hout : ∀ x, ¬ args.stack.Contains x → b'.cpu.mem x = b.cpu.mem x := by
    intro x hx
    rw [hcpu]
    exact freshCpu_mem_of_not_contains hwords hdisc.fits hx
  have hapart : ∀ j, Occupied sz b.sys j → j ≠ id →
      args.stack.Apart (stackOf lay sz b.sys.k j) := fun j hj hji =>
    hdisc.apart j (h.idle.ids.occupied_lt hj) hj hji
  have hidle : IdleFree sz b'.sys := by
    refine ⟨h.idle.ids.step hr hstep, ?_⟩
    by_contra hn
    rcases step_conts_ne_none hstep hn with hold | ⟨x, hx⟩
    · exact hold h.idle.free
    · exact hother _ (Ne.symm hdisc.ne_idle) x hx
  refine ⟨hidle, fun j hj => ?_, fun i j hi hj hij => ?_, fun hn => ?_, fun j hj => ?_,
    fun j hj hne => ?_⟩
  · by_cases hji : j = id
    · subst hji
      rw [Function.update_self, hstackId]
      exact freshCpu_onStack hpos hwords hdisc.fits
    · rw [Function.update_of_ne hji, hstackNe j hji]
      exact h.onStack j (hocc j hji hj)
  · by_cases hid : i = id
    · have hjd : j ≠ id := fun hjd => hij (hid.trans hjd.symm)
      rw [hid, hstackId, hstackNe j hjd]
      exact hapart j (hocc j hjd hj) hjd
    · by_cases hjd : j = id
      · rw [hjd, hstackId, hstackNe i hid]
        exact (hapart i (hocc i hid hi) hid).symm
      · rw [hstackNe i hid, hstackNe j hjd]
        exact h.apart i j (hocc i hid hi) (hocc j hjd hj) hij
  · rw [hcpu]
    exact h.boot (hcur ▸ hn)
  · rw [hcur] at hj
    have hji : j ≠ id := fun hji => hdisc.ne_current (hji ▸ hj)
    have hrun := h.running j hj
    have hon := h.onStack_cpu hj
    rw [Function.update_of_ne hji, hstackNe j hji]
    refine ⟨by rw [hcpu]; exact hrun.regs, by rw [hcpu]; exact hrun.psp, fun x hx hx' => ?_⟩
    rw [← hrun.live x hx hx']
    rw [← hrun.psp] at hx
    have hroom := hon.room
    refine hout x fun hin => (hapart j (h.occupied_current hj) hji).not_contains hin ⟨by omega, hx'⟩
  · by_cases hji : j = id
    · subst hji
      rw [Function.update_self, hstackId, created_sp hstep hnew hdisc.fits b.cpu.mem, hcpu]
      exact freshCpu_suspended hpos hwords hdisc.fits
    · have hj' := hocc j hji hj
      rw [hcur] at hne
      rw [Function.update_of_ne hji, hstackNe j hji, step_sp hstep j (hother j hji)
        fun sp heq => absurd heq (hns sp)]
      refine (h.waiting j hj' hne).congr (h.onStack j hj').bound fun x hx => hout x fun hin => ?_
      exact (hapart j hj' hji).not_contains hin hx

/-- **When `hrt__schedule` is called every thread is suspended**, at the stack pointer its control block
will have, and it is called with 0 before the first switch only. -/
theorem saved (h : b.Inv lay sz g) :
    (b.oldSp lay = 0 ↔ b.sys.k.current = none) ∧
    ∀ j, Occupied sz b.sys j →
      Suspended lay.stkalign (stackOf lay sz b.sys.k j) (b.entry lay).atSchedule.mem
        ((hrtSchedule sz (b.oldSp lay) { b.sys.k with pend := false }).2.tcbs j).sp (g j) := by
  have hsp := (hrtSchedule_sp sz (b.oldSp lay) { b.sys.k with pend := false }).1
  cases hc : b.sys.k.current with
  | none =>
      obtain ⟨hr0, hmem⟩ := Cpu.atSchedule_of_zero (h.boot hc)
      have hentry : b.entry lay = b.cpu := if_pos hc
      have hzero : b.oldSp lay = 0 := by
        rw [oldSp, hentry, Cpu.arg, hr0]
        rfl
      refine ⟨⟨fun _ => rfl, fun _ => hzero⟩, fun j hj => ?_⟩
      rw [hsp j, if_neg fun hn => hn.1 hzero, hentry, hmem]
      exact h.waiting j hj (by simp [hc])
  | some i =>
      have hon := h.onStack_cpu hc
      have hroom := hon.room
      have hentry : b.entry lay = b.cpu.pushStack lay.stkalign := by
        rw [entry, if_neg (by simp [hc])]
      have hself := Suspended.of_atSchedule hon lay.stkalign
      rw [← hentry] at hself
      have hne0 : b.oldSp lay ≠ 0 := Nat.pos_iff_ne_zero.mp hself.pos
      refine ⟨⟨fun h0 => absurd h0 hne0, by simp⟩, fun j hj => ?_⟩
      by_cases hji : j = i
      · subst hji
        rw [hsp j, if_pos ⟨hne0, hc⟩]
        exact hself.of_runs (h.running j hc)
      · have hne : b.sys.k.current ≠ some j := by
          rw [hc]
          exact fun hij => hji (Option.some.inj hij).symm
        rw [hsp j, if_neg fun hn => hne hn.2]
        refine (h.waiting j hj hne).congr (h.onStack j hj).bound fun x hx => ?_
        rw [hentry]
        exact Cpu.atSchedule_mem lay.stkalign (by omega) (h.not_below hc hj hne hx)

/-- **A switch resumes the thread of the task that `hrt__schedule` makes current.** -/
theorem resumes (h : b.Inv lay sz g) (hr : sz.Representable) (v : Scratch) :
    ∃ i, (hrtSchedule sz (b.oldSp lay) { b.sys.k with pend := false }).2.current = some i ∧
      Occupied sz b.sys i ∧
      b.cpuStep lay sz (.pendsv v) =
        some ⟨(g i).toCoreRegs, (g i).psp, false, (b.entry lay).atSchedule.mem⟩ := by
  have hknown : KnownIds sz { b.sys.k with pend := false } fun id => b.sys.conts id ≠ .none :=
    h.idle.ids.known.of_eq rfl (Kernel.SameObjects.ring ⟨rfl, rfl, rfl⟩) h.idle.ids.known.used
  obtain ⟨i, hcur, hret⟩ := (hrtSchedule_sp sz (b.oldSp lay) { b.sys.k with pend := false }).2
  obtain ⟨-, i', hcur', hocc⟩ := hknown.schedule hr (b.oldSp lay)
  obtain rfl : i = i' := Option.some.inj (hcur.symm.trans hcur')
  refine ⟨i, hcur, hocc, ?_⟩
  have hsus := h.saved.2 i hocc
  rw [← hret] at hsus
  exact Suspended.switchIn (d := (b.entry lay).atSchedule.bl (b.hrtScheduleCall sz v)) hsus rfl

/-- What a switch writes lies in the stack of the outgoing task, below its stack pointer. -/
theorem pendsv_writes (h : b.Inv lay sz g) (hr : sz.Representable) {v : Scratch} {c : Cpu}
    (hcpu : b.cpuStep lay sz (.pendsv v) = some c) {x : Word} (hx : c.mem x ≠ b.cpu.mem x) :
    ∃ i, b.sys.k.current = some i ∧
      b.cpu.psp.toNat - 68 ≤ x.toNat ∧ x.toNat < b.cpu.psp.toNat := by
  obtain ⟨i', -, -, hcpu'⟩ := h.resumes hr v
  obtain rfl := Option.some.inj (hcpu'.symm.trans hcpu)
  replace hx : (b.entry lay).atSchedule.mem x ≠ b.cpu.mem x := hx
  cases hc : b.sys.k.current with
  | none =>
      rw [entry, if_pos hc, (Cpu.atSchedule_of_zero (h.boot hc)).2] at hx
      exact absurd rfl hx
  | some i =>
      have hroom := (h.onStack_cpu hc).room
      rw [entry, if_neg (by simp [hc])] at hx
      by_contra hout
      exact hx (Cpu.atSchedule_mem lay.stkalign (by omega) fun hin => hout ⟨i, rfl, hin⟩)

/-- **A switch** keeps the invariant. -/
theorem pendsv (h : b.Inv lay sz g) (hr : sz.Representable) {v : Scratch}
    (hcpu : b.cpuStep lay sz (.pendsv v) = some b'.cpu)
    (hstep : CortexM.step sz lay.idleStack b.sys (.pendsv (b.oldSp lay)) = some b'.sys) :
    b'.Inv lay sz g := by
  have hids := h.idle.ids.step hr hstep
  have hstack := fun j => step_stackOf hstep j fun args => by simp [CortexM.created]
  obtain ⟨i, hcur, hi, hcpu'⟩ := h.resumes hr v
  obtain ⟨-, -, hs'⟩ := step_pendsv hstep
  have hconts : b'.sys.conts = b.sys.conts := by rw [hs']
  have hcur' : b'.sys.k.current = some i := by rw [hs']; exact hcur
  have hocc : ∀ j, Occupied sz b'.sys j → Occupied sz b.sys j := fun j hj => by
    rwa [Occupied, hconts] at hj
  have hcpu'' : b'.cpu = ⟨(g i).toCoreRegs, (g i).psp, false, (b.entry lay).atSchedule.mem⟩ :=
    Option.some.inj (hcpu.symm.trans hcpu')
  refine ⟨⟨hids, by rw [hconts]; exact h.idle.free⟩, fun j hj => ?_, fun j j' hj hj' hne => ?_,
    fun hn => ?_, fun j hj => ?_, fun j hj _ => ?_⟩
  · rw [hstack]
    exact h.onStack j (hocc j hj)
  · rw [hstack, hstack]
    exact h.apart j j' (hocc j hj) (hocc j' hj') hne
  · exact absurd (hcur'.symm.trans hn) (by simp)
  · obtain rfl : i = j := Option.some.inj (hcur'.symm.trans hj)
    rw [hstack, hcpu'']
    exact ⟨rfl, rfl, (h.saved.2 i hi).live⟩
  · rw [hstack, hcpu'', hs']
    exact h.saved.2 j (hocc j hj)

/-- **Every disciplined step keeps the invariant.** -/
theorem step (h : b.Inv lay sz g) (hr : sz.Representable) {a : Action}
    (hdisc : Disciplined lay sz b a) (hstep : b.step lay sz a = some b') :
    b'.Inv lay sz (recordCpu lay sz b a g) := by
  obtain ⟨hcpu, hsys⟩ := step_cases hstep
  -- a call, which creates a task or leaves the processor alone
  have hcall : ∀ ka, b.kernelAction lay a = some ka → (∀ sp, ka ≠ .pendsv sp) →
      CortexM.step sz lay.idleStack b.sys ka = some b'.sys → b'.cpu = b.prepared lay sz a →
      (∀ new ∈ b.created lay sz a, CreatesApart lay sz b.sys new.1 new.2) →
      b'.Inv lay sz ((b.created lay sz a).elim g fun new =>
        Function.update g new.2 (freshCpu lay new.1 b.cpu.mem)) := by
    intro ka hka hns hk hprep hapart
    have hcr : b.created lay sz a = CortexM.created sz lay.idleStack b.sys ka := by
      rw [created, hka]
      rfl
    rw [prepared, hcr] at hprep
    rw [hcr] at hapart ⊢
    cases hnew : CortexM.created sz lay.idleStack b.sys ka with
    | none =>
        rw [hnew] at hprep
        exact h.of_kernel hr hk hns hnew hprep
    | some new =>
        rw [hnew] at hprep
        exact h.create hr hk hns hnew (hapart new hnew) hprep
  cases a with
  | code p =>
      obtain ⟨p', hp, hsys⟩ | ⟨ka, hka, -⟩ := hsys
      · obtain rfl : p = p' := Action.code.inj hp
        cases hc : b.sys.k.current with
        | none =>
            rw [cpuStep, if_pos hc] at hcpu
            exact absurd hcpu (by simp)
        | some i =>
            rw [cpuStep, if_neg (by simp [hc])] at hcpu
            have hinv := h.code hdisc hc hsys (Option.some.inj hcpu).symm
            simpa [recordCpu, hc] using hinv
      · exact absurd hka (by simp [kernelAction])
  | main c =>
      obtain ⟨p, hp, -⟩ | ⟨ka, hka, hk⟩ := hsys
      · exact absurd hp (by simp)
      · obtain rfl := Option.some.inj hka
        exact hcall _ rfl (by simp) hk (Option.some.inj hcpu).symm hdisc
  | task c =>
      obtain ⟨p, hp, -⟩ | ⟨ka, hka, hk⟩ := hsys
      · exact absurd hp (by simp)
      · obtain rfl := Option.some.inj hka
        exact hcall _ rfl (by simp) hk (Option.some.inj hcpu).symm hdisc
  | start =>
      obtain ⟨p, hp, -⟩ | ⟨ka, hka, hk⟩ := hsys
      · exact absurd hp (by simp)
      · obtain rfl := Option.some.inj hka
        exact h.of_kernel hr hk (by simp) rfl (Option.some.inj hcpu).symm
  | isr op v =>
      obtain ⟨p, hp, -⟩ | ⟨ka, hka, hk⟩ := hsys
      · exact absurd hp (by simp)
      · obtain rfl := Option.some.inj hka
        exact h.interrupt hr hk (by simp) rfl hcpu
  | tick v =>
      obtain ⟨p, hp, -⟩ | ⟨ka, hka, hk⟩ := hsys
      · exact absurd hp (by simp)
      · obtain rfl := Option.some.inj hka
        exact h.interrupt hr hk (by simp) rfl hcpu
  | pendsv v =>
      obtain ⟨p, hp, -⟩ | ⟨ka, hka, hk⟩ := hsys
      · exact absurd hp (by simp)
      · obtain rfl := Option.some.inj hka
        exact h.pendsv hr hcpu hk

/-- After boot the idle thread is suspended on its stack, and there is no other. -/
theorem boot_inv (lay : Layout) (sz : Sizing) (cfg : Option KernelConfig) (objs : ObjectSpecs)
    (mem : Kernel) (regs : CoreRegs) (m : Memory) :
    (Board.boot lay sz cfg objs mem regs m).Inv lay sz fun _ => idleCpu lay m := by
  have hpos := lay.idle_pos
  have halign := lay.idle_align
  have hfits := lay.idle_fits
  have hocc : ∀ i, Occupied sz (Board.boot lay sz cfg objs mem regs m).sys i → i = sz.idleId :=
    fun i hi => hi.resolve_left fun hcont => hcont rfl
  have hcur : (Board.boot lay sz cfg objs mem regs m).sys.k.current = none :=
    (hrtInit_frame sz _ (.cortexM lay.idleStack) cfg).2.1
  have hstack : ∀ k, stackOf lay sz k sz.idleId = ⟨lay.idleStack, 4 * 64⟩ := fun k => if_pos rfl
  have htop : (idleCpu lay m).psp.toNat = lay.gIdleStack.toNat + 256 := by
    show (lay.gIdleStack + 4 * 64).toNat = _
    bv_omega
  have hsp : ((Board.boot lay sz cfg objs mem regs m).sys.k.tcbs sz.idleId).sp =
      ((idleCpu lay m).psp - 0x40).toNat := by
    have hsub : ((idleCpu lay m).psp - 0x40).toNat = lay.gIdleStack.toNat + 4 * 64 - 64 := by bv_omega
    rw [hsub]
    show ((hrtInit sz (.cortexM lay.idleStack) cfg { mem with error := .none, pend := false }).tcbs
      sz.idleId).sp = _
    simp [hrtInit, Port.cortexM]
  refine ⟨⟨IdsInv.boot sz lay.idleStack cfg objs mem, rfl⟩, fun i hi => ?_, fun i j hi hj hij => ?_,
    fun _ => rfl, fun i hi => ?_, fun i hi _ => ?_⟩
  · rw [hocc i hi, hstack]
    have hstop : (⟨lay.idleStack, 4 * 64⟩ : Region).stop = lay.gIdleStack.toNat + 256 := rfl
    exact OnStack.of_fresh rfl hpos (by omega) (by rw [htop]; show lay.gIdleStack.toNat + 68 ≤ _; omega)
      (by omega)
  · exact absurd ((hocc i hi).trans (hocc j hj).symm) hij
  · exact absurd (hcur.symm.trans hi) (by simp)
  · rw [hocc i hi, hstack, hsp]
    refine Suspended.of_pushFrame _ _ m lay.stkalign false (t := (idleCpu lay m).psp) hpos ?_
    rw [htop]
    show lay.gIdleStack.toNat + 64 ≤ _
    omega

end Board.Inv

/-! ## Results -/

/-- The action is neither code of the task in slot `i` nor the creation of a new task there. -/
def LeavesAlone (lay : Layout) (sz : Sizing) (i : ℕ) (b : Board) : Board.Action → Prop
  | .code _ => b.sys.k.current ≠ some i
  | a => ∀ new ∈ b.created lay sz a, new.2 ≠ i

instance (lay : Layout) (sz : Sizing) (i : ℕ) (b : Board) : DecidablePred (LeavesAlone lay sz i b)
  | .code _ => inferInstanceAs (Decidable (_ ≠ _))
  | .main _ | .start | .task _ | .isr _ _ | .tick _ | .pendsv _ =>
      inferInstanceAs (Decidable (∀ _ ∈ _, _))

section Results

variable {lay : Layout} {sz : Sizing} {cfg : Option KernelConfig} {objs : ObjectSpecs} {mem : Kernel}
  {regs : CoreRegs} {m : Memory} {as bs : List Board.Action} {b b' : Board} {i : ℕ}

/-- Such an action leaves the record of the task alone. -/
theorem LeavesAlone.recordCpu {a : Board.Action} (h : LeavesAlone lay sz i b a) (g : ℕ → Cpu) :
    recordCpu lay sz b a g i = g i := by
  have hcreated : ∀ new : Option (TaskArgs × ℕ), (∀ x ∈ new, x.2 ≠ i) →
      (new.elim g fun new => Function.update g new.2 (freshCpu lay new.1 b.cpu.mem)) i = g i := by
    intro new hnew
    cases new with
    | none => rfl
    | some x => exact Function.update_of_ne (hnew x rfl).symm _ _
  cases a with
  | code p =>
      show (b.sys.k.current.elim g fun j => Function.update g j (b.cpu.execute p)) i = g i
      cases hc : b.sys.k.current with
      | none => rfl
      | some j =>
          refine Function.update_of_ne (fun hij => h ?_) _ _
          rw [hc, hij]
  | _ => exact hcreated _ h

/-- It leaves the task its stack. -/
theorem LeavesAlone.stackOf {a : Board.Action} (h : LeavesAlone lay sz i b a)
    (hstep : b.step lay sz a = some b') :
    stackOf lay sz b'.sys.k i = CortexM.stackOf lay sz b.sys.k i := by
  obtain ⟨-, ⟨p, -, hsys⟩ | ⟨ka, hka, hk⟩⟩ := Board.step_cases hstep
  · rw [hsys]
  · refine step_stackOf hk i fun args hargs => ?_
    have hnew : b.created lay sz a = some (args, i) := by
      rw [Board.created, hka]
      exact hargs
    cases a with
    | code p => exact absurd hka (by simp [Board.kernelAction])
    | _ => exact h _ hnew rfl

/-- **The invariant of a disciplined run.** -/
theorem inv_of_run (hr : sz.Representable)
    (hrun : exec (Board.step lay sz) (Board.boot lay sz cfg objs mem regs m) as = some b)
    (hdisc : Along (Board.step lay sz) (Disciplined lay sz) (Board.boot lay sz cfg objs mem regs m) as) :
    b.Inv lay sz (track (Board.step lay sz) (recordCpu lay sz)
      (Board.boot lay sz cfg objs mem regs m) (fun _ => idleCpu lay m) as) :=
  track_invariant (fun _ _ _ _ h ha hstep => h.step hr ha hstep)
    (Board.Inv.boot_inv lay sz cfg objs mem regs m) hdisc hrun

/-- A run that leaves a task alone leaves its record and its stack alone. -/
theorem record_of_leavesAlone {g : ℕ → Cpu} (hrun : exec (Board.step lay sz) b bs = some b')
    (hspare : Along (Board.step lay sz) (LeavesAlone lay sz i) b bs) :
    track (Board.step lay sz) (recordCpu lay sz) b g bs i = g i ∧
    stackOf lay sz b'.sys.k i = stackOf lay sz b.sys.k i := by
  refine track_invariant (I := fun (c : Board) (g' : ℕ → Cpu) => g' i = g i ∧
    stackOf lay sz c.sys.k i = stackOf lay sz b.sys.k i) ?_ ⟨rfl, rfl⟩ hspare hrun
  rintro c a c' g' ⟨hg, hs⟩ ha hstep
  exact ⟨(ha.recordCpu g').trans hg, (ha.stackOf hstep).trans hs⟩

/-- **A task does not notice that it was interrupted, preempted or blocked.** In every disciplined run:
let a task be current at one point and current again at a later one, having executed no code in between.
Whatever has happened meanwhile (interrupts, ticks, switches, the code of other tasks, creations), it
has the registers and the stack pointer it had, and the same bytes on its stack. -/
theorem preemption_transparent (hr : sz.Representable)
    (hrun : exec (Board.step lay sz) (Board.boot lay sz cfg objs mem regs m) as = some b)
    (hrun' : exec (Board.step lay sz) b bs = some b')
    (hdisc : Along (Board.step lay sz) (Disciplined lay sz) (Board.boot lay sz cfg objs mem regs m)
      (as ++ bs))
    (hspare : Along (Board.step lay sz) (LeavesAlone lay sz i) b bs)
    (hcur : b.sys.k.current = some i) (hcur' : b'.sys.k.current = some i) :
    b'.cpu.toCoreRegs = b.cpu.toCoreRegs ∧ b'.cpu.psp = b.cpu.psp ∧
    stackOf lay sz b'.sys.k i = stackOf lay sz b.sys.k i ∧
    SameLive (stackOf lay sz b.sys.k i) b.cpu.psp b'.cpu.mem b.cpu.mem := by
  have hrun₂ := exec_append.mpr ⟨b, hrun, hrun'⟩
  have hinv := (inv_of_run hr hrun ((along_append hrun).mp hdisc).1).running i hcur
  have hinv' := (inv_of_run hr hrun₂ hdisc).running i hcur'
  rw [track_append hrun] at hinv'
  generalize track (Board.step lay sz) (recordCpu lay sz) (Board.boot lay sz cfg objs mem regs m)
    (fun _ => idleCpu lay m) as = g at hinv hinv'
  obtain ⟨hrec, hstack⟩ := record_of_leavesAlone (g := g) hrun' hspare
  rw [hrec, hstack] at hinv'
  refine ⟨hinv'.regs.trans hinv.regs.symm, hinv'.psp.trans hinv.psp.symm, hstack, fun x hx hx' => ?_⟩
  rw [hinv.psp] at hx
  rw [hinv'.live x hx hx', hinv.live x hx hx']

/-- A board with the default sizes and cleared memory. -/
abbrev smallLayout : Layout :=
  ⟨true, 0x08000401, 0x08000501, 0x20000000, by decide, by decide, by decide⟩

/-- It has just been booted. -/
abbrev smallBoard : Board :=
  Board.boot smallLayout .default none .basic .bss ⟨fun _ => 0, 0, 0x08000101, 0x01000000⟩ fun _ => 0

/-- Nothing of interest in the scratch registers. -/
abbrev noScratch : Scratch := ⟨0xDEAD, 0xDEAD, 0xDEAD, 0xDEAD, 0xDEAD, 0xDEAD⟩

/-- Two tasks are created, and the first one runs: it calls a function, which pushes two words. -/
def firstRuns : List Board.Action :=
  [.main (.createTask ⟨1, 0, 0x20001000, 64, none⟩), .main (.createTask ⟨1, 0, 0x20002004, 64, none⟩),
    .start, .pendsv noScratch,
    .code ⟨⟨fun i => BitVec.ofNat 32 (100 + i), 0x08000411, 0x08000610, 0x61000000⟩, 0x200010F8,
      [(0x200010F8, 0x17), (0x200010FC, 0x11)]⟩]

/-- It is interrupted and goes to sleep for a tick; the second task runs, with other registers and a
stack pointer that the hardware has to align. -/
def secondRuns : List Board.Action :=
  [.tick noScratch, .task (.sleep 1), .task .yield, .pendsv noScratch,
    .code ⟨⟨fun i => BitVec.ofNat 32 (200 + i), 0x08000411, 0x08000710, 0x01000000⟩, 0x200020FC,
      [(0x200020FC, 0x22)]⟩,
    .tick noScratch, .pendsv noScratch]

/-- The first task is back, with the registers and the bytes it had. -/
theorem preemption_transparent_sleep :
    ∃ b b', exec (Board.step smallLayout .default) smallBoard firstRuns = some b ∧
      exec (Board.step smallLayout .default) b secondRuns = some b' ∧
      b'.sys.k.current = some 0 ∧ b'.cpu.r 7 = 107 ∧ b'.cpu.psp = 0x200010F8 ∧
      b'.cpu.mem 0x200010F8 = 0x17 := by
  have heval : ((exec (Board.step smallLayout .default) smallBoard firstRuns).map fun b =>
      (b.sys.k.current, (b.cpu.r 7, b.cpu.psp, b.cpu.mem 0x200010F8),
        stackOf smallLayout .default b.sys.k 0,
        decide (Along (Board.step smallLayout .default) (LeavesAlone smallLayout .default 0) b secondRuns),
        (exec (Board.step smallLayout .default) b secondRuns).bind fun b' => b'.sys.k.current)) =
      some (some 0, (107, 0x200010F8, 0x17), ⟨0x20001000, 256⟩, true, some 0) := by
    decide +kernel
  obtain ⟨b, hb, hv⟩ := Option.map_eq_some_iff.mp heval
  simp only [Prod.mk.injEq, decide_eq_true_eq] at hv
  obtain ⟨hcur, ⟨hr7, hpsp, hbyte⟩, hstack, hspare, hlast⟩ := hv
  obtain ⟨b', hb', hcur'⟩ := Option.bind_eq_some_iff.mp hlast
  obtain ⟨hregs, hpsp', -, hlive⟩ := preemption_transparent (i := 0) (by decide) hb hb'
    (by decide +kernel) hspare hcur hcur'
  refine ⟨b, b', hb, hb', hcur', by rw [hregs, hr7], hpsp'.trans hpsp, ?_⟩
  rw [hlive _ (by rw [hpsp]) (by rw [hstack]; decide), hbyte]

/-- **A created task starts in the trampoline.** In every disciplined run: when the task that an action
`a` created is switched to for the first time, however late, it is at the first instruction of
`hrt__task_trampoline` in Thumb state, with `r0`-`r12` clear and its stack empty. -/
theorem created_task_starts_fresh (hr : sz.Representable) {a : Board.Action} {b₀ : Board}
    {args : TaskArgs}
    (hrun : exec (Board.step lay sz) (Board.boot lay sz cfg objs mem regs m) as = some b₀)
    (hnew : b₀.created lay sz a = some (args, i)) (hstep : b₀.step lay sz a = some b)
    (hrun' : exec (Board.step lay sz) b bs = some b')
    (hdisc : Along (Board.step lay sz) (Disciplined lay sz) (Board.boot lay sz cfg objs mem regs m)
      (as ++ a :: bs))
    (hspare : Along (Board.step lay sz) (LeavesAlone lay sz i) b bs)
    (hcur' : b'.sys.k.current = some i) :
    b'.cpu.pc = lay.hrtTaskTrampoline ∧ b'.cpu.xpsr.getLsbD 24 = true ∧ (∀ j, b'.cpu.r j = 0) ∧
    b'.cpu.psp.toNat =
      (args.stackWords + 4 * args.nWords) - (args.stackWords + 4 * args.nWords) % 8 := by
  have hrun₁ := exec_concat.mpr ⟨b₀, hrun, hstep⟩
  rw [List.append_cons] at hdisc
  have hinv' := (inv_of_run hr (exec_append.mpr ⟨b, hrun₁, hrun'⟩) hdisc).running i hcur'
  have hd₀ : Disciplined lay sz b₀ a := ((along_append hrun₁).mp hdisc).1.last hrun
  rw [track_append hrun₁, (record_of_leavesAlone hrun' hspare).1, track_concat hrun hstep] at hinv'
  obtain ⟨ka, hka, -⟩ := Option.bind_eq_some_iff.mp hnew
  generalize track (Board.step lay sz) (recordCpu lay sz) (Board.boot lay sz cfg objs mem regs m)
    (fun _ => idleCpu lay m) as = g at hinv'
  have hfits : args.StackFits ∧ recordCpu lay sz b₀ a g i = freshCpu lay args b₀.cpu.mem := by
    cases a with
    | code p => exact absurd hka (by simp [Board.kernelAction])
    | _ =>
        refine ⟨(hd₀ _ hnew).fits, ?_⟩
        simp only [recordCpu]
        rw [hnew]
        exact Function.update_self _ _ _
  rw [hfits.2] at hinv'
  have hthumb : (0x01000000 : Word).getLsbD 24 = true := by decide
  refine ⟨by rw [hinv'.regs]; rfl, by rw [hinv'.regs]; exact hthumb, fun j => by rw [hinv'.regs]; rfl, ?_⟩
  rw [hinv'.psp, toNat_freshCpu_psp _ _ hfits.1]

/-- The second task of `firstRuns` is switched to when the first one sleeps; its stack ends at an odd
word, which stays free. -/
theorem created_task_starts_fresh_second :
    ∃ b', exec (Board.step smallLayout .default) smallBoard (firstRuns ++ secondRuns.take 4) = some b' ∧
      b'.sys.k.current = some 1 ∧ b'.cpu.pc = 0x08000401 ∧ b'.cpu.psp.toNat = 0x20002100 := by
  have heval : ((exec (Board.step smallLayout .default) smallBoard (firstRuns.take 1)).map fun b₀ =>
      ((b₀.created smallLayout .default (.main (.createTask ⟨1, 0, 0x20002004, 64, none⟩))).map Prod.snd,
        (b₀.step smallLayout .default (.main (.createTask ⟨1, 0, 0x20002004, 64, none⟩))).map fun b =>
          (decide (Along (Board.step smallLayout .default) (LeavesAlone smallLayout .default 1) b
              (firstRuns.drop 2 ++ secondRuns.take 4)),
            (exec (Board.step smallLayout .default) b (firstRuns.drop 2 ++ secondRuns.take 4)).bind
              fun b' => b'.sys.k.current))) = some (some 1, some (true, some 1)) := by
    decide +kernel
  obtain ⟨b₀, hb₀, hv⟩ := Option.map_eq_some_iff.mp heval
  obtain ⟨hnew, hlater⟩ := Prod.mk.inj hv
  obtain ⟨⟨args, i⟩, hnew, rfl⟩ := Option.map_eq_some_iff.mp hnew
  obtain ⟨b, hb, hw⟩ := Option.map_eq_some_iff.mp hlater
  simp only [Prod.mk.injEq, decide_eq_true_eq] at hw
  obtain ⟨b', hb', hcur'⟩ := Option.bind_eq_some_iff.mp hw.2
  obtain ⟨hpc, -, -, hpsp⟩ := created_task_starts_fresh (by decide) hb₀ hnew hb hb' (by decide +kernel)
    hw.1 hcur'
  obtain rfl : args = ⟨1, 0, 0x20002004, 64, none⟩ := by
    obtain ⟨ka, hka, hcr⟩ := Option.bind_eq_some_iff.mp hnew
    obtain rfl := Option.some.inj hka
    obtain ⟨id, -, heq⟩ := Option.map_eq_some_iff.mp hcr
    exact (Prod.mk.inj heq).1.symm
  have hlist : firstRuns ++ secondRuns.take 4 = firstRuns.take 1 ++
      .main (.createTask ⟨1, 0, 0x20002004, 64, none⟩) :: (firstRuns.drop 2 ++ secondRuns.take 4) := rfl
  refine ⟨b', ?_, hcur', hpc, hpsp.trans (by decide)⟩
  rw [hlist]
  exact exec_append.mpr ⟨b₀, hb₀, exec_cons.mpr ⟨b, hb, hb'⟩⟩

/-- **The exceptions of the port never fault.** In every state of a disciplined run an ISR and a tick
return to the thread they interrupted, with its registers and its stack pointer; a requested switch is
made, and the thread it resumes is on the stack of the task made current. What they write lies in the
stack of the interrupted task, below its stack pointer. -/
theorem exceptions_return (hr : sz.Representable)
    (hrun : exec (Board.step lay sz) (Board.boot lay sz cfg objs mem regs m) as = some b)
    (hdisc : Along (Board.step lay sz) (Disciplined lay sz) (Board.boot lay sz cfg objs mem regs m) as) :
    (∀ op v, ∃ m', b.step lay sz (.isr op v) = some ⟨{ b.cpu with mem := m' }, b.sys.isr sz op⟩) ∧
    (∀ v, ∃ m', b.step lay sz (.tick v) = some ⟨{ b.cpu with mem := m' }, b.sys.tickIsr sz⟩) ∧
    (b.sys.k.pend = true → ∀ v, ∃ b' i, b.step lay sz (.pendsv v) = some b' ∧
      b'.sys.k.current = some i ∧ OnStack (stackOf lay sz b'.sys.k i) b'.cpu) ∧
    ∀ a b', (∃ op v, a = .isr op v) ∨ (∃ v, a = .tick v) ∨ (∃ v, a = .pendsv v) →
      b.step lay sz a = some b' → ∀ x, b'.cpu.mem x ≠ b.cpu.mem x →
      ∃ i, b.sys.k.current = some i ∧ (stackOf lay sz b.sys.k i).Contains x ∧
        x.toNat < b.cpu.psp.toNat := by
  have hinv := inv_of_run hr hrun hdisc
  generalize track (Board.step lay sz) (recordCpu lay sz) (Board.boot lay sz cfg objs mem regs m)
    (fun _ => idleCpu lay m) as = g at hinv
  refine ⟨fun op v => ?_, fun v => ?_, fun hpend v => ?_, fun a b' ha hstep x hx => ?_⟩
  · obtain ⟨m', hret, -⟩ := hinv.interrupt_returns v
    exact ⟨m', by rw [Board.step, Board.cpuStep, hret]; rfl⟩
  · obtain ⟨m', hret, -⟩ := hinv.interrupt_returns v
    exact ⟨m', by rw [Board.step, Board.cpuStep, hret]; rfl⟩
  · obtain ⟨i, hcur, -, hcpu⟩ := hinv.resumes hr v
    have hk : CortexM.step sz lay.idleStack b.sys (.pendsv (b.oldSp lay)) = some
        { b.sys with k := (hrtSchedule sz (b.oldSp lay) { b.sys.k with pend := false }).2 } :=
      if_pos ⟨hpend, hinv.saved.1⟩
    have hinv' : Board.Inv lay sz ⟨_, _⟩ g := hinv.pendsv hr hcpu hk
    refine ⟨_, i, ?_, hcur, hinv'.onStack_cpu hcur⟩
    rw [Board.step, hcpu, Board.kernelAction, Option.elim_some, hk]
    rfl
  · obtain ⟨hcpu, -⟩ := Board.step_cases hstep
    have hbelow : ∃ i, b.sys.k.current = some i ∧
        b.cpu.psp.toNat - 68 ≤ x.toNat ∧ x.toNat < b.cpu.psp.toNat := by
      obtain ⟨op, v, rfl⟩ | ⟨v, rfl⟩ | ⟨v, rfl⟩ := ha
      · obtain ⟨m', hret, hmem⟩ := hinv.interrupt_returns v
        rw [Option.some.inj (hcpu.symm.trans hret)] at hx
        exact hmem x hx
      · obtain ⟨m', hret, hmem⟩ := hinv.interrupt_returns v
        rw [Option.some.inj (hcpu.symm.trans hret)] at hx
        exact hmem x hx
      · exact hinv.pendsv_writes hr hcpu hx
    obtain ⟨i, hi, hin⟩ := hbelow
    exact ⟨i, hi, hinv.contains_below hi hin, hin.2⟩

/-- The tick at the end of `secondRuns` requests a switch, and the switch can be made. -/
theorem exceptions_return_woken :
    ∃ b b' i, exec (Board.step smallLayout .default) smallBoard (firstRuns ++ secondRuns.dropLast) =
        some b ∧ b.step smallLayout .default (.pendsv noScratch) = some b' ∧
      b'.sys.k.current = some i ∧ OnStack (stackOf smallLayout .default b'.sys.k i) b'.cpu := by
  have heval : ((exec (Board.step smallLayout .default) smallBoard
      (firstRuns ++ secondRuns.dropLast)).map fun b => b.sys.k.pend) = some true := by
    decide +kernel
  obtain ⟨b, hb, hpend⟩ := Option.map_eq_some_iff.mp heval
  obtain ⟨b', i, hstep, hcur, hon⟩ :=
    (exceptions_return (by decide) hb (by decide +kernel)).2.2.1 hpend noScratch
  exact ⟨b, b', i, hb, hstep, hcur, hon⟩

end Results

end CortexM

end HardRT
