import HardRT.CortexM.Contexts
import HardRT.CortexM.PendSV

/-! # The initial frame of a task

A new task has never been switched out, so `hrt_port_prepare_task_stack` writes by hand what
`PendSV_Handler` and the hardware would have left: the sixteen words of a thread that is about to
execute the first instruction of `hrt__task_trampoline`. `hrt__init_idle_task` does the same for the
idle thread, in a stack of its own and without the checks.

Here both are modelled down to the stores. The stack pointers agree with those of `Port.cortexM`, which
is all the kernel sees of them, and the words agree with what the handler reads.

* `hrtPortPrepareTaskStack`, `hrtInitIdleTask` — the two functions, on memory.
* `prepareTaskStack_refines`, `initIdleTask_refines` — the stack pointers they store are those of the
  kernel's model, whatever the arguments.
* `initial_frame_restores` — a stack of 64 words or more is accepted, nothing outside it is written, and
  the first switch to the task enters the trampoline with an empty stack.
* `hrtCreateTask_initialFrame` — the control block of a created task points at such a frame.
* `idle_frame_restores` — the same for the idle thread. -/

namespace HardRT

open Lib

namespace CortexM

/-! ## The stores -/

/-- **The sixteen stores of a new frame**, downwards: the exception frame, then `r11` to `r4`. -/
def pushFrame (pc lr : Word) (stk : DescStack) : DescStack :=
  let stk := stk.push 0x01000000              -- xPSR, the Thumb bit
  let stk := stk.push pc
  let stk := stk.push lr
  let stk := stk.push 0                       -- r12
  let stk := stk.push 0                       -- r3
  let stk := stk.push 0                       -- r2
  let stk := stk.push 0                       -- r1
  let stk := stk.push 0                       -- r0
  (List.range 8).foldl (fun stk _ => stk.push 0) stk

/-- **`hrt_port_prepare_task_stack`** on a stack of `words` words at `stackBase`: memory afterwards, and
either the error it raises or the stack pointer it hands to `_set_sp`. The second check comes after the
stores. -/
def hrtPortPrepareTaskStack (hrtTaskTrampoline stackBase words : Word) (m : Memory) :
    Memory × Except Err Word :=
  let stackEnd := stackBase + 4 * words
  let stk := stackEnd &&& ~~~7
  if stk ≤ stackBase ∨ stk > stackEnd then (m, .error .stackRange)
  else
    let s := pushFrame hrtTaskTrampoline 0xFFFFFFFD ⟨m, stk⟩
    if s.sp < stackBase then (s.mem, .error .stackUnderflowInit) else (s.mem, .ok s.sp)

/-- **`hrt__init_idle_task`**, the frame it builds in `g_idle_stack`: memory afterwards and the stack
pointer it stores. `HARDRT_IDLE_STACK_WORDS` is 64. -/
def hrtInitIdleTask (hrtTaskTrampoline hrtIdleTask gIdleStack : Word) (m : Memory) : Memory × Word :=
  let s := pushFrame hrtIdleTask hrtTaskTrampoline ⟨m, gIdleStack + 4 * 64⟩
  (s.mem, s.sp)

/-! ## The thread they stand for -/

/-- A thread that has not run: it will execute at `pc`, with all registers clear but `lr`. -/
def CoreRegs.fresh (pc lr : Word) : CoreRegs := ⟨fun _ => 0, lr, pc, 0x01000000⟩

namespace CoreRegs

/-- A fresh thread is one that an exception may return to. -/
theorem fresh_threadMode (pc lr : Word) : (fresh pc lr).ThreadMode := by
  show (0x01000000 : Word) &&& 0x1FF = 0
  decide

/-- Its `xPSR` has no other bits than a thread's. -/
theorem fresh_xpsrValid (pc lr : Word) : (fresh pc lr).XpsrValid := by
  show (0x01000000 : Word) &&& xpsrMask = 0x01000000
  decide

/-- Its frame is not marked as moved. -/
theorem fresh_xpsr_getLsbD (pc lr : Word) : (fresh pc lr).xpsr.getLsbD 9 = false := by
  show (0x01000000 : Word).getLsbD 9 = false
  decide

end CoreRegs

section Frame

variable (pc lr : Word) (stk : DescStack)

/-- The stores write the frame of a fresh thread, highest word first. -/
theorem pushFrame_eq : pushFrame pc lr stk = stk.pushAll (CoreRegs.fresh pc lr).frame.reverse := rfl

/-- The stack pointer ends sixteen words below. -/
theorem pushFrame_sp : (pushFrame pc lr stk).sp = stk.sp - 0x40 :=
  DescStack.pushAll_sp (CoreRegs.fresh pc lr).frame.reverse stk

/-- The frame of the fresh thread lies at the stack pointer. -/
theorem pushFrame_holds :
    (pushFrame pc lr stk).mem.Holds (pushFrame pc lr stk).sp (CoreRegs.fresh pc lr).frame := by
  have h := DescStack.holds_pushAll (CoreRegs.fresh pc lr).frame.reverse stk (by simp)
  rwa [List.reverse_reverse, ← pushFrame_eq] at h

/-- Nothing but the sixteen words is written. -/
theorem pushFrame_mem {x : Word} (h : ¬ InRange (pushFrame pc lr stk).sp 64 x) :
    (pushFrame pc lr stk).mem x = stk.mem x :=
  DescStack.pushAll_mem_of_not_inRange (CoreRegs.fresh pc lr).frame.reverse h

/-- The stack pointer as a number, when there is room above address 0. -/
theorem toNat_pushFrame_sp (hroom : 64 ≤ stk.sp.toNat) :
    (pushFrame pc lr stk).sp.toNat = stk.sp.toNat - 64 := by
  rw [pushFrame_sp]
  bv_omega

/-- A byte that changed is one of the 64 below the stack pointer. -/
theorem pushFrame_changed (hroom : 64 ≤ stk.sp.toNat) {x : Word}
    (hx : (pushFrame pc lr stk).mem x ≠ stk.mem x) :
    stk.sp.toNat - 64 ≤ x.toNat ∧ x.toNat < stk.sp.toNat := by
  have hin : InRange (pushFrame pc lr stk).sp 64 x := by
    by_contra hout
    exact hx (pushFrame_mem pc lr stk hout)
  have hsp := toNat_pushFrame_sp pc lr stk hroom
  have hlt := stk.sp.isLt
  have hframe := (inRange_iff (by omega)).mp hin
  omega

end Frame

/-- **The first switch to a fresh thread** from a stack pointer at which its frame lies: the thread
starts with the stack pointer above the frame, whatever the setting of `STKALIGN`. -/
theorem Cpu.switchIn_fresh {c : Cpu} {pc lr : Word} (stkalign : Bool)
    (h : c.mem.Holds (c.r 0) (CoreRegs.fresh pc lr).frame) (hsp : c.r 0 ≠ 0) :
    c.switchIn stkalign = some ⟨CoreRegs.fresh pc lr, c.r 0 + 0x40, false, c.mem⟩ := by
  have htop : c.r 0 + 0x40 ||| 0 = c.r 0 + 0x40 := BitVec.or_zero
  rw [Cpu.switchIn_of_holds stkalign h hsp (CoreRegs.fresh_threadMode pc lr),
    CoreRegs.fresh_xpsrValid, CoreRegs.fresh_xpsr_getLsbD, Bool.false_and, cond_false, htop]

/-- **The handler makes that switch** when `hrt__schedule` returns the stack pointer of a new frame, as
long as the frame is still there: the thread is about to execute at `pc` in Thumb state, its registers
are clear and its stack is empty. -/
theorem pendSVHandler_fresh {stkalign : Bool} {hrtSchedule : Word → Memory → CallResult} {c : Cpu}
    {pc lr : Word} {stk : DescStack} (hroom : 64 < stk.sp.toNat)
    (hr0 : (c.atSchedule.bl hrtSchedule).r 0 = (pushFrame pc lr stk).sp)
    (hmem : ∀ x, InRange (pushFrame pc lr stk).sp 64 x →
      (c.atSchedule.bl hrtSchedule).mem x = (pushFrame pc lr stk).mem x) :
    ∃ c', pendSVHandler stkalign hrtSchedule c = some c' ∧
      c'.pc = pc ∧ c'.xpsr.getLsbD 24 = true ∧ (∀ i, c'.r i = 0) ∧ c'.psp = stk.sp := by
  have hframe := (pushFrame_holds pc lr stk).congr hmem
  have hne : (pushFrame pc lr stk).sp ≠ 0 := by
    rw [pushFrame_sp]
    bv_omega
  rw [← hr0] at hframe hne
  refine ⟨_, Cpu.switchIn_fresh stkalign hframe hne, rfl, ?_, fun i => rfl, ?_⟩
  · show (0x01000000 : Word).getLsbD 24 = true
    decide
  · show (c.atSchedule.bl hrtSchedule).r 0 + 0x40 = stk.sp
    rw [hr0, pushFrame_sp, BitVec.sub_add_cancel]

/-! ## Agreement with the kernel's view -/

/-- The end of a stack, as a number. -/
theorem toNat_stackEnd (base words : Word) :
    (base + 4 * words).toNat = (base.toNat + 4 * words.toNat) % 2 ^ 32 := by
  rw [BitVec.toNat_add, BitVec.toNat_mul]
  exact Nat.add_mod_mod _ _ _

/-- **The kernel sees the stack pointers of the code**, for all arguments, with both error returns. -/
theorem prepareTaskStack_refines (idleStack : ℕ) (tramp base words : Word) (m : Memory) :
    (Port.cortexM idleStack).prepareTaskStack base.toNat words.toNat =
      (hrtPortPrepareTaskStack tramp base words m).2.map fun sp => some sp.toNat := by
  have hstk := toNat_and_not_seven (base + 4 * words)
  simp only [Port.cortexM, hrtPortPrepareTaskStack, ← toNat_stackEnd, ← hstk]
  generalize (base + 4 * words) &&& ~~~7 = stk
  have hsp : (pushFrame tramp 0xFFFFFFFD ⟨m, stk⟩).sp.toNat = (stk.toNat + 2 ^ 32 - 64) % 2 ^ 32 := by
    rw [pushFrame_sp]
    bv_omega
  by_cases hrange : stk ≤ base ∨ stk > base + 4 * words
  · rw [if_pos hrange, if_pos (by simpa only [BitVec.le_def, BitVec.lt_def] using hrange)]
    rfl
  · rw [if_neg hrange, if_neg (by simpa only [BitVec.le_def, BitVec.lt_def] using hrange), ← hsp]
    by_cases hunder : (pushFrame tramp 0xFFFFFFFD ⟨m, stk⟩).sp < base
    · rw [if_pos hunder, if_pos (BitVec.lt_def.mp hunder)]
      rfl
    · rw [if_neg hunder, if_neg (fun h => hunder (BitVec.lt_def.mpr h))]
      rfl

/-- The idle stack pointer of the code is that of the kernel's model. -/
theorem initIdleTask_refines {gIdleStack : Word} (hfit : gIdleStack.toNat + 4 * 64 ≤ 2 ^ 32)
    (tramp idle : Word) (m : Memory) :
    (Port.cortexM gIdleStack.toNat).initIdleTask =
      some (hrtInitIdleTask tramp idle gIdleStack m).2.toNat := by
  have hsp : (hrtInitIdleTask tramp idle gIdleStack m).2 = gIdleStack + 4 * 64 - 0x40 :=
    pushFrame_sp idle tramp ⟨m, gIdleStack + 4 * 64⟩
  have hnat : gIdleStack.toNat + 4 * 64 - 64 = (gIdleStack + 4 * 64 - 0x40).toNat := by bv_omega
  rw [hsp]
  exact congrArg some hnat

/-! ## What is accepted, and what it leaves -/

/-- A stack whose end wraps to its base or below is refused, and nothing has been written. -/
theorem hrtPortPrepareTaskStack_of_wrap {base words : Word} (h : base + 4 * words ≤ base)
    (tramp : Word) (m : Memory) :
    hrtPortPrepareTaskStack tramp base words m = (m, .error .stackRange) := by
  have hstk := toNat_and_not_seven (base + 4 * words)
  refine if_pos (Or.inl (BitVec.le_def.mpr ?_))
  have hle := BitVec.le_def.mp h
  omega

/-- The end of a stack, rounded down to eight bytes: where its first frame ends. -/
def stackTop (base words : Word) : Word := (base + 4 * words) &&& ~~~7

section Accepted

variable {base words : Word} (hwords : 64 ≤ words.toNat)
  (hfit : base.toNat + 4 * words.toNat < 2 ^ 32)

include hfit in
/-- The rounded end of a stack that fits, as a number. -/
theorem toNat_stackTop : (stackTop base words).toNat =
    (base.toNat + 4 * words.toNat) - (base.toNat + 4 * words.toNat) % 8 := by
  rw [stackTop, toNat_and_not_seven, toNat_stackEnd, Nat.mod_eq_of_lt hfit]

include hwords hfit

/-- The frame lies below the rounded end, inside the stack. -/
theorem toNat_stackTop_sub : (stackTop base words - 0x40).toNat + 64 =
    (base.toNat + 4 * words.toNat) - (base.toNat + 4 * words.toNat) % 8 := by
  have htop := toNat_stackTop hfit
  bv_omega

/-- **A stack of 64 words or more that does not wrap is accepted**: neither check fails. -/
theorem hrtPortPrepareTaskStack_of_fits (tramp : Word) (m : Memory) :
    hrtPortPrepareTaskStack tramp base words m =
      ((pushFrame tramp 0xFFFFFFFD ⟨m, stackTop base words⟩).mem,
        .ok (stackTop base words - 0x40)) := by
  have htop := toNat_stackTop hfit
  have hsp := toNat_stackTop_sub hwords hfit
  have hend : (base + 4 * words).toNat = base.toNat + 4 * words.toNat := by
    rw [toNat_stackEnd, Nat.mod_eq_of_lt hfit]
  have hrange : ¬ (stackTop base words ≤ base ∨ stackTop base words > base + 4 * words) := by
    rw [BitVec.le_def, gt_iff_lt, BitVec.lt_def]
    omega
  have hunder : ¬ stackTop base words - 0x40 < base := by
    rw [BitVec.lt_def]
    omega
  simp only [hrtPortPrepareTaskStack, pushFrame_sp]
  rw [← stackTop, if_neg hrange, if_neg hunder]

/-- The frame is sixteen words of the stack, the first of them on an eight-byte boundary. -/
theorem frame_index (halign : base.toNat % 4 = 0) :
    ∃ i, i + 16 ≤ words.toNat ∧ (stackTop base words - 0x40).toNat = base.toNat + 4 * i := by
  have hsp := toNat_stackTop_sub hwords hfit
  exact ⟨((stackTop base words - 0x40).toNat - base.toNat) / 4, by omega, by omega⟩

end Accepted

/-- **The initial frame is in bounds, aligned, and what `PendSV_Handler` restores.** For a stack of 64
words or more that ends inside the address space, `hrt_port_prepare_task_stack` takes neither error
return; it writes sixteen words of the stack and nothing else; the stack pointer it stores, which is the
one the kernel's model stores, is a multiple of eight and not below the stack. When the handler is given
that stack pointer, it enters the trampoline in Thumb state with `r0`-`r12` clear and the process stack
pointer at the end of the stack, rounded down to eight bytes. -/
theorem initial_frame_restores (base words : Word) (halign : base.toNat % 4 = 0)
    (hwords : 64 ≤ words.toNat) (hfit : base.toNat + 4 * words.toNat < 2 ^ 32)
    (tramp : Word) (m : Memory) :
    ∃ m' sp, hrtPortPrepareTaskStack tramp base words m = (m', .ok sp) ∧
      (∀ idleStack, (Port.cortexM idleStack).prepareTaskStack base.toNat words.toNat =
        .ok (some sp.toNat)) ∧
      (∃ i, i + 16 ≤ words.toNat ∧ sp.toNat = base.toNat + 4 * i) ∧
      (∀ x, m' x ≠ m x → base.toNat ≤ x.toNat ∧ x.toNat < base.toNat + 4 * words.toNat) ∧
      sp.toNat % 8 = 0 ∧ base.toNat ≤ sp.toNat ∧
      ∀ (stkalign : Bool) (hrtSchedule : Word → Memory → CallResult) (c : Cpu),
        (c.atSchedule.bl hrtSchedule).r 0 = sp →
        (∀ x, InRange sp 64 x → (c.atSchedule.bl hrtSchedule).mem x = m' x) →
        ∃ c', pendSVHandler stkalign hrtSchedule c = some c' ∧
          c'.pc = tramp ∧ c'.xpsr.getLsbD 24 = true ∧ (∀ i, c'.r i = 0) ∧
          c'.psp.toNat =
            (base.toNat + 4 * words.toNat) - (base.toNat + 4 * words.toNat) % 8 := by
  have hprep := hrtPortPrepareTaskStack_of_fits hwords hfit tramp m
  have htop := toNat_stackTop hfit
  have hsp := toNat_stackTop_sub hwords hfit
  have hpush := pushFrame_sp tramp 0xFFFFFFFD ⟨m, stackTop base words⟩
  refine ⟨_, _, hprep, fun idleStack => ?_, frame_index hwords hfit halign, fun x hx => ?_, by omega,
    by omega, fun stkalign hrtSchedule c hr0 hmem => ?_⟩
  · rw [prepareTaskStack_refines idleStack tramp base words m, hprep]
    rfl
  · have hframe := pushFrame_changed tramp 0xFFFFFFFD _ (by rw [htop]; omega) hx
    rw [htop] at hframe
    omega
  · rw [← hpush] at hr0 hmem
    obtain ⟨c', hrun, hpc, hthumb, hr, hpsp⟩ := pendSVHandler_fresh (by rw [htop]; omega) hr0 hmem
    exact ⟨c', hrun, hpc, hthumb, hr, hpsp ▸ htop⟩

/-- The smallest stack, at an address that is not a multiple of eight, and the first switch of all: the
top word of the stack stays free. -/
theorem initial_frame_restores_first :
    ∃ m' sp, hrtPortPrepareTaskStack 0x08000401 0x20000004 64 (fun _ => 0xA5) = (m', .ok sp) ∧
      sp = 0x200000C0 ∧
      ∃ c', pendSVHandler true (fun _ _ => ⟨sp, 0, 0, 0, 0, 0, m'⟩)
          ⟨⟨fun _ => 0xDEADBEEF, 0xFFFFFFF9, 0, 0⟩, 0, false, fun _ => 0⟩ = some c' ∧
        c'.pc = 0x08000401 ∧ c'.psp.toNat = 0x20000100 := by
  obtain ⟨m', sp, hprep, -, -, -, -, -, hrun⟩ :=
    initial_frame_restores 0x20000004 64 (by decide) (by decide) (by decide) 0x08000401 fun _ => 0xA5
  have hsp : sp = 0x200000C0 := by
    rw [hrtPortPrepareTaskStack_of_fits (by decide) (by decide)] at hprep
    rw [← Except.ok.inj (Prod.mk.inj hprep).2]
    decide
  obtain ⟨c', hc', hpc, -, -, hpsp⟩ := hrun true (fun _ _ => ⟨sp, 0, 0, 0, 0, 0, m'⟩)
    ⟨⟨fun _ => 0xDEADBEEF, 0xFFFFFFF9, 0, 0⟩, 0, false, fun _ => 0⟩ rfl fun _ _ => rfl
  exact ⟨m', sp, hprep, hsp, c', hc', hpc, hpsp⟩

/-- **A task that `hrt_create_task` returns points at its frame**: the stack pointer in its control
block is the one at which the trampoline's frame lies. -/
theorem hrtCreateTask_initialFrame {sz : Sizing} {idleStack id : ℕ} {a : TaskArgs} {k : Kernel}
    (hcr : (hrtCreateTask sz (.cortexM idleStack) a k).1 = some id) (hfit : a.StackFits)
    (tramp : Word) (m : Memory) :
    ∃ m' sp, hrtPortPrepareTaskStack tramp (BitVec.ofNat 32 a.stackWords)
        (BitVec.ofNat 32 a.nWords) m = (m', .ok sp) ∧
      ((hrtCreateTask sz (.cortexM idleStack) a k).2.tcbs id).sp = sp.toNat ∧
      m'.Holds sp (CoreRegs.fresh tramp 0xFFFFFFFD).frame := by
  obtain ⟨hwords, hfill⟩ := hrtCreateTask_eq_fillSlot hcr
  unfold TaskArgs.StackFits at hfit
  -- both arguments are the numbers they were
  have hbase : (BitVec.ofNat 32 a.stackWords).toNat = a.stackWords := Nat.mod_eq_of_lt (by omega)
  have hsize : (BitVec.ofNat 32 a.nWords).toNat = a.nWords := Nat.mod_eq_of_lt (by omega)
  generalize BitVec.ofNat 32 a.stackWords = base at *
  generalize BitVec.ofNat 32 a.nWords = words at *
  have hprep := hrtPortPrepareTaskStack_of_fits (show 64 ≤ words.toNat by omega)
    (show base.toNat + 4 * words.toNat < 2 ^ 32 by omega) tramp m
  have hport := prepareTaskStack_refines idleStack tramp base words m
  rw [hbase, hsize, hprep] at hport
  refine ⟨_, _, hprep, ?_, ?_⟩
  · rw [hfill]
    exact fillSlot_sp hport
  · rw [← pushFrame_sp tramp 0xFFFFFFFD ⟨m, stackTop base words⟩]
    exact pushFrame_holds tramp 0xFFFFFFFD ⟨m, stackTop base words⟩

/-! ## The idle thread -/

/-- **The idle thread starts in `hrt_idle_task`** on an empty `g_idle_stack`, outside of which nothing
has been written. The function rounds nothing: the array is aligned to eight bytes, so its end is. -/
theorem idle_frame_restores {gIdleStack : Word} (halign : gIdleStack.toNat % 8 = 0)
    (hfit : gIdleStack.toNat + 4 * 64 < 2 ^ 32) (tramp idle : Word) (m : Memory) :
    ∃ m' sp, hrtInitIdleTask tramp idle gIdleStack m = (m', sp) ∧
      (∀ x, m' x ≠ m x → gIdleStack.toNat ≤ x.toNat ∧ x.toNat < gIdleStack.toNat + 4 * 64) ∧
      sp.toNat % 8 = 0 ∧
      ∀ (stkalign : Bool) (hrtSchedule : Word → Memory → CallResult) (c : Cpu),
        (c.atSchedule.bl hrtSchedule).r 0 = sp →
        (∀ x, InRange sp 64 x → (c.atSchedule.bl hrtSchedule).mem x = m' x) →
        ∃ c', pendSVHandler stkalign hrtSchedule c = some c' ∧
          c'.pc = idle ∧ c'.xpsr.getLsbD 24 = true ∧ (∀ i, c'.r i = 0) ∧
          c'.psp.toNat = gIdleStack.toNat + 4 * 64 := by
  have htop : (gIdleStack + 4 * 64).toNat = gIdleStack.toNat + 4 * 64 := by bv_omega
  have hsp := toNat_pushFrame_sp idle tramp ⟨m, gIdleStack + 4 * 64⟩ (by rw [htop]; omega)
  refine ⟨_, _, rfl, fun x hx => ?_, by rw [hsp, htop]; omega,
    fun stkalign hrtSchedule c hr0 hmem => ?_⟩
  · have hframe := pushFrame_changed idle tramp _ (by rw [htop]; omega) hx
    rw [htop] at hframe
    omega
  · obtain ⟨c', hrun, hpc, hthumb, hr, hpsp⟩ := pendSVHandler_fresh (by rw [htop]; omega) hr0 hmem
    exact ⟨c', hrun, hpc, hthumb, hr, hpsp ▸ htop⟩

end CortexM

end HardRT
