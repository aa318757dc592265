import HardRT.Lib.WordMemory
import Mathlib.Data.Fintype.Basic
import Mathlib.Tactic.FinCases

/-! # `PendSV_Handler` and the exception frame

`src/port/cortex_m/hrt_pendsv_handler.s`, instruction by instruction, between the two halves of a
context switch that the hardware makes. On exception entry ARMv7-M stacks eight words on the process
stack, and on exception return it pops them; the handler adds `r4`-`r11` below them and takes them back.
A task that is not running is therefore sixteen words in memory, from its saved stack pointer upwards:

    r4 r5 r6 r7 r8 r9 r10 r11  r0 r1 r2 r3 r12 lr pc xpsr

Assumed of the hardware are `PushStack`, `PopStack` and the checks of an exception return as the
architecture defines them, for a thread without a floating-point context (`EXC_RETURN` is `0xFFFFFFFD`).
The toolchain files build for hard floats (`-mfloat-abi=hard`); the handler knows nothing of the extended
frame of a thread that has used the FPU, and such threads are outside of this model.

* `CoreRegs.frame` — the sixteen words of a thread.
* `pendSVHandler` — the handler, around an arbitrary `hrt__schedule`.
* `Cpu.switchIn_of_holds` — the handler and the hardware read back any sixteen words as that thread.
* `Interrupted.atSchedule_holds` — the hardware and the handler write the thread they interrupt.
* `switch_round_trip` — so a thread resumes with the registers and the stack pointer it had, and a
  switch from a thread to itself is invisible (`switch_to_self`). -/

namespace HardRT

open Lib

namespace CortexM

/-! ## Registers -/

/-- **The core registers of a thread**, apart from its stack pointer. -/
@[ext] structure CoreRegs where
  /-- `r0` to `r12`. -/
  r : Fin 13 → Word
  lr : Word
  pc : Word
  xpsr : Word

namespace CoreRegs

/-- The registers the handler saves, lowest address first. -/
def calleeSaved (t : CoreRegs) : List Word :=
  [t.r 4, t.r 5, t.r 6, t.r 7, t.r 8, t.r 9, t.r 10, t.r 11]

/-- The registers the hardware saves, lowest address first. -/
def exceptionFrame (t : CoreRegs) : List Word :=
  [t.r 0, t.r 1, t.r 2, t.r 3, t.r 12, t.lr, t.pc, t.xpsr]

/-- **A thread that is not running**, as it lies in memory. -/
def frame (t : CoreRegs) : List Word := t.calleeSaved ++ t.exceptionFrame

@[simp] theorem length_calleeSaved (t : CoreRegs) : t.calleeSaved.length = 8 := rfl

@[simp] theorem length_exceptionFrame (t : CoreRegs) : t.exceptionFrame.length = 8 := rfl

@[simp] theorem length_frame (t : CoreRegs) : t.frame.length = 16 := rfl

/-- The handler's half of a frame depends on `r4`-`r11` only. -/
theorem calleeSaved_congr {t t' : CoreRegs} (h : ∀ i : Fin 13, 4 ≤ i → i ≤ 11 → t'.r i = t.r i) :
    t'.calleeSaved = t.calleeSaved := by
  unfold calleeSaved
  rw [h 4 (by decide) (by decide), h 5 (by decide) (by decide), h 6 (by decide) (by decide),
    h 7 (by decide) (by decide), h 8 (by decide) (by decide), h 9 (by decide) (by decide),
    h 10 (by decide) (by decide), h 11 (by decide) (by decide)]

/-- The exception number of a thread is zero: bits 8 to 0 of `xPSR`. -/
def ThreadMode (t : CoreRegs) : Prop := t.xpsr &&& 0x1FF = 0

instance (t : CoreRegs) : Decidable t.ThreadMode := inferInstanceAs (Decidable (_ = _))

end CoreRegs

/-- The processor, as far as the handler sees it: the core registers, the process stack pointer, the
interrupt mask and memory. -/
structure Cpu extends CoreRegs where
  psp : Word
  primask : Bool
  mem : Memory

/-! ## The hardware's half -/

/-- The bits of `xPSR` an exception return loads: the flags, `T` and `ICI/IT`, `GE` and the exception
number. Bit 9 and bits 20 to 23 are not there. -/
def xpsrMask : Word := 0xFF0FFDFF

/-- A thread as the hardware stacks it: bit 9 of `xPSR` tells whether the stack pointer was moved to
align the frame. -/
def CoreRegs.stacked (moved : Bool) (t : CoreRegs) : CoreRegs :=
  { t with xpsr := t.xpsr &&& ~~~0x200 ||| bif moved then 0x200 else 0 }

/-- Where the hardware puts the frame of a thread whose stack pointer is `psp`, and whether bit 2 had to
be cleared for it: `CCR.STKALIGN` asks for eight-byte alignment. -/
def framePtr (stkalign : Bool) (psp : Word) : Word × Bool :=
  if stkalign then ((psp - 0x20) &&& ~~~4, psp.getLsbD 2) else (psp - 0x20, false)

/-- `PushStack`, for a thread on the process stack without a floating-point context: the basic frame of
eight words. Of the extended frame, which the hardware stacks once the thread has used the FPU, neither
this nor `PendSV_Handler` takes notice. -/
def Cpu.pushStack (stkalign : Bool) (c : Cpu) : Cpu :=
  let (frameptr, moved) := framePtr stkalign c.psp
  { c with
    psp := frameptr
    mem := c.mem.storeAll frameptr (c.stacked moved).exceptionFrame }

/-- `PopStack`, for a thread on the process stack. The program counter is the word that was stacked. -/
def Cpu.popStack (stkalign : Bool) (c : Cpu) : Cpu :=
  let psr := c.mem.load (c.psp + 0x1C)
  { c with
    r := fun i =>
      if i ≤ 3 then c.mem.load (c.psp + BitVec.ofNat 32 (4 * i))
      else if i = 12 then c.mem.load (c.psp + 0x10)
      else c.r i
    lr := c.mem.load (c.psp + 0x14)
    pc := c.mem.load (c.psp + 0x18)
    xpsr := psr &&& xpsrMask
    psp := c.psp + 0x20 ||| bif psr.getLsbD 9 && stkalign then 4 else 0 }

/-- The `EXC_RETURN` of the handler: to thread mode, on the process stack, no floating-point frame. -/
def excReturn : Word := 0xFFFFFFFD

/-- `bx lr` in the handler. Popping a nonzero exception number into thread mode is a usage fault; the
effect of that and of a branch to any other value than `excReturn` is left open. -/
def Cpu.bxLr (stkalign : Bool) (c : Cpu) : Option Cpu :=
  if c.lr = excReturn then
    let c := c.popStack stkalign
    if c.ThreadMode then some c else none
  else none

/-! ## The handler's half -/

/-- Assign to one of `r0`-`r12`. -/
def Cpu.setR (i : Fin 13) (v : Word) (c : Cpu) : Cpu := { c with r := Function.update c.r i v }

/-- `stmdb r0!, {r4-r11}`. -/
def Cpu.stmdb (c : Cpu) : Cpu :=
  { c.setR 0 (c.r 0 - 0x20) with mem := c.mem.storeAll (c.r 0 - 0x20) c.calleeSaved }

/-- `ldmia r0!, {r4-r11}`. -/
def Cpu.ldmia (c : Cpu) : Cpu :=
  { c with r := fun i =>
      if 4 ≤ i ∧ i ≤ 11 then c.mem.load (c.r 0 + BitVec.ofNat 32 (4 * (i - 4)))
      else if i = 0 then c.r 0 + 0x20
      else c.r i }

/-- What a C function leaves behind: the registers a callee may change, `r0` with its result, and
memory. -/
structure CallResult where
  r0 : Word
  r1 : Word
  r2 : Word
  r3 : Word
  r12 : Word
  lr : Word
  mem : Memory

/-- The argument that a C function of one argument is called with. -/
def Cpu.arg (c : Cpu) : Word := c.r 0

/-- `bl f`, for a C function of one argument. -/
def Cpu.bl (f : Word → Memory → CallResult) (c : Cpu) : Cpu :=
  let res := f (c.r 0) c.mem
  { ((((c.setR 0 res.r0).setR 1 res.r1).setR 2 res.r2).setR 3 res.r3).setR 12 res.r12 with
    lr := res.lr
    mem := res.mem }

/-- `resume`: the handler returns the way `lr` says. -/
def Cpu.resume (stkalign : Bool) (c : Cpu) : Option Cpu :=
  { c with primask := false }.bxLr stkalign

/-- From `ldmia` to the last instruction before `bx lr`: `r4`-`r11` are loaded from the stack pointer in
`r0`, and the rest is left for the hardware to pop. -/
def Cpu.loadSaved (c : Cpu) : Cpu :=
  let c := c.ldmia
  let c := { c with psp := c.r 0 }            -- msr psp, r0
  let c := c.setR 1 0xFFFFFFFD                -- ldr r1, =0xFFFFFFFD
  let c := { c with lr := c.r 1 }             -- mov lr, r1
  { c with primask := false }                 -- cpsie i

/-- What follows `bl hrt__schedule`, the same in both branches of the handler. -/
def Cpu.switchIn (stkalign : Bool) (c : Cpu) : Option Cpu :=
  if c.r 0 = 0 then c.resume stkalign else c.loadSaved.bxLr stkalign

/-- The handler up to `bl hrt__schedule`. A process stack pointer of zero means that no thread has run:
there is nothing to save. -/
def Cpu.atSchedule (c : Cpu) : Cpu :=
  let c := { c with primask := true }         -- cpsid i
  let c := c.setR 0 c.psp                     -- mrs r0, psp
  if c.r 0 = 0 then c.setR 0 0 else c.stmdb

/-- **`PendSV_Handler`**, with the exception return that ends it; `hrtSchedule` is what the C function
does to its argument and to memory. -/
def pendSVHandler (stkalign : Bool) (hrtSchedule : Word → Memory → CallResult) (c : Cpu) : Option Cpu :=
  (c.atSchedule.bl hrtSchedule).switchIn stkalign

/-! ## Reading a thread back -/

/-- Words 0 to 7 of a thread are loaded into `r4`-`r11`, the others lie right above them. -/
theorem load_of_holds_frame {m : Memory} {sp : Word} {t : CoreRegs} (h : m.Holds sp t.frame) :
    (∀ i : Fin 13, 4 ≤ i → i ≤ 11 → m.load (sp + BitVec.ofNat 32 (4 * (i - 4))) = t.r i) ∧
    m.Holds (sp + 0x20) t.exceptionFrame := by
  obtain ⟨hlow, hhigh⟩ := Memory.holds_append.mp h
  refine ⟨fun i hi hi' => ?_, hhigh⟩
  simp only [CoreRegs.calleeSaved, Memory.holds_cons, BitVec.add_assoc, BitVec.reduceAdd] at hlow
  obtain ⟨h4, h5, h6, h7, h8, h9, h10, h11, -⟩ := hlow
  fin_cases i <;> simp_all

/-- `PopStack` reads the eight words of an exception frame back. -/
theorem Cpu.popStack_of_holds {c : Cpu} {t : CoreRegs} (stkalign : Bool)
    (h : c.mem.Holds c.psp t.exceptionFrame) (hsaved : ∀ i : Fin 13, 4 ≤ i → i ≤ 11 → c.r i = t.r i) :
    c.popStack stkalign =
      ⟨{ t with xpsr := t.xpsr &&& xpsrMask },
        c.psp + 0x20 ||| bif t.xpsr.getLsbD 9 && stkalign then 4 else 0, c.primask, c.mem⟩ := by
  simp only [CoreRegs.exceptionFrame, Memory.holds_cons, BitVec.ofNat_eq_ofNat, BitVec.add_assoc,
    BitVec.reduceAdd] at h
  obtain ⟨h0, h1, h2, h3, h12, hlr, hpc, hxpsr, -⟩ := h
  simp only [popStack, BitVec.ofNat_eq_ofNat, hlr, hpc, hxpsr]
  congr 2
  funext i
  fin_cases i <;> simp_all

/-- The registers the handler has loaded when it reaches `bx lr`. -/
theorem Cpu.loadSaved_r (c : Cpu) {i : Fin 13} (hi : 4 ≤ i) (hi' : i ≤ 11) :
    c.loadSaved.r i = c.mem.load (c.r 0 + BitVec.ofNat 32 (4 * (i - 4))) := by
  have h1 : i ≠ 1 := by
    rintro rfl
    exact absurd hi (by decide)
  show Function.update c.ldmia.r 1 0xFFFFFFFD i = _
  rw [Function.update_of_ne h1]
  exact if_pos ⟨hi, hi'⟩

/-- `bx lr` with the handler's `EXC_RETURN` pops the exception frame of a thread. -/
theorem Cpu.bxLr_of_holds {c : Cpu} {t : CoreRegs} (stkalign : Bool) (hlr : c.lr = excReturn)
    (h : c.mem.Holds c.psp t.exceptionFrame) (hsaved : ∀ i : Fin 13, 4 ≤ i → i ≤ 11 → c.r i = t.r i)
    (hthread : t.ThreadMode) :
    c.bxLr stkalign = some
      ⟨{ t with xpsr := t.xpsr &&& xpsrMask },
        c.psp + 0x20 ||| bif t.xpsr.getLsbD 9 && stkalign then 4 else 0, c.primask, c.mem⟩ := by
  have hmode : (t.xpsr &&& xpsrMask) &&& 0x1FF = 0 := by
    rw [BitVec.and_assoc]
    exact hthread
  rw [bxLr, if_pos hlr, Cpu.popStack_of_holds stkalign h hsaved]
  exact if_pos hmode

/-- **What lies at the stack pointer is what runs next**: the handler and the exception return read the
sixteen words of a thread back, and leave the process stack pointer above them. -/
theorem Cpu.switchIn_of_holds {c : Cpu} {t : CoreRegs} (stkalign : Bool)
    (h : c.mem.Holds (c.r 0) t.frame) (hsp : c.r 0 ≠ 0) (hthread : t.ThreadMode) :
    c.switchIn stkalign = some
      ⟨{ t with xpsr := t.xpsr &&& xpsrMask },
        c.r 0 + 0x40 ||| bif t.xpsr.getLsbD 9 && stkalign then 4 else 0, false, c.mem⟩ := by
  obtain ⟨hlow, hhigh⟩ := load_of_holds_frame h
  have hret := Cpu.bxLr_of_holds (c := c.loadSaved) stkalign rfl hhigh
    (fun i hi hi' => (c.loadSaved_r hi hi').trans (hlow i hi hi')) hthread
  have htop : c.loadSaved.psp + 0x20 = c.r 0 + 0x40 := by
    show c.r 0 + 0x20 + 0x20 = c.r 0 + 0x40
    rw [BitVec.add_assoc]
    rfl
  rw [switchIn, if_neg hsp, hret, htop]
  rfl

/-! ## Writing a thread down -/

/-- The bits of `xPSR` that a thread has. -/
def CoreRegs.XpsrValid (t : CoreRegs) : Prop := t.xpsr &&& xpsrMask = t.xpsr

instance (t : CoreRegs) : Decidable t.XpsrValid := inferInstanceAs (Decidable (_ = _))

/-- **The processor at the first instruction of the handler**, a thread with registers `t` and stack
pointer `psp` having been interrupted: the hardware has stacked its frame, and `r4`-`r11` are still the
thread's. The other registers may be anything, and other handlers may have run in between. -/
structure Interrupted (stkalign : Bool) (t : CoreRegs) (psp : Word) (c : Cpu) : Prop where
  psp_eq : c.psp = (framePtr stkalign psp).1
  stacked : c.mem.Holds c.psp (t.stacked (framePtr stkalign psp).2).exceptionFrame
  saved : ∀ i : Fin 13, 4 ≤ i → i ≤ 11 → c.r i = t.r i

/-- `PushStack` interrupts a thread. -/
theorem Cpu.pushStack_interrupted (stkalign : Bool) (c : Cpu) :
    Interrupted stkalign c.toCoreRegs c.psp (c.pushStack stkalign) where
  psp_eq := rfl
  stacked := Memory.holds_storeAll _ (by rw [CoreRegs.length_exceptionFrame]; decide)
  saved _ _ _ := rfl

/-- A thread that has a stack is saved by `stmdb`, right below its exception frame. -/
theorem Cpu.atSchedule_of_ne_zero {c : Cpu} (hpsp : c.psp ≠ 0) :
    c.atSchedule.r 0 = c.psp - 0x20 ∧
    c.atSchedule.mem = c.mem.storeAll (c.psp - 0x20) c.calleeSaved := by
  have hat : c.atSchedule = ({ c with primask := true }.setR 0 c.psp).stmdb := if_neg hpsp
  rw [hat]
  exact ⟨rfl, rfl⟩

/-- **What runs is written down**: when the handler calls `hrt__schedule`, the sixteen words of the
interrupted thread lie at the stack pointer it passes. -/
theorem Interrupted.atSchedule_holds {stkalign : Bool} {t : CoreRegs} {psp : Word} {c : Cpu}
    (h : Interrupted stkalign t psp c) (hpsp : c.psp ≠ 0) :
    c.atSchedule.mem.Holds (c.atSchedule.r 0) (t.stacked (framePtr stkalign psp).2).frame := by
  obtain ⟨hr0, hmem⟩ := Cpu.atSchedule_of_ne_zero hpsp
  have htop : c.psp - 0x20 + BitVec.ofNat 32 (4 * 8) = c.psp := by bv_omega
  rw [hr0, hmem, CoreRegs.calleeSaved_congr h.saved]
  refine Memory.holds_append.mpr
    ⟨Memory.holds_storeAll _ (by rw [CoreRegs.length_calleeSaved]; decide), ?_⟩
  rw [CoreRegs.length_calleeSaved, htop]
  -- `stmdb` stays below the words the hardware stacked
  refine h.stacked.congr fun x hx => Memory.storeAll_of_not_inRange ?_
  exact InRange.not_take (k := 8) (n := 8) (by decide) (htop.symm ▸ hx)

/-! ## The round trip -/

/-- Bit 9 of a stacked `xPSR` is the mark of the hardware. -/
theorem CoreRegs.stacked_xpsr_getLsbD (moved : Bool) (t : CoreRegs) :
    (t.stacked moved).xpsr.getLsbD 9 = moved := by
  cases moved <;> simp [CoreRegs.stacked]

/-- Loading a stacked `xPSR` gives the thread's own bits back: bit 9 is not among them. -/
theorem CoreRegs.stacked_xpsr_and (moved : Bool) (t : CoreRegs) :
    (t.stacked moved).xpsr &&& xpsrMask = t.xpsr &&& xpsrMask := by
  have hmark : (bif moved then 0x200 else 0) &&& xpsrMask = 0 := by
    cases moved <;> decide
  have hrest : ~~~0x200 &&& xpsrMask = xpsrMask := by decide
  show (t.xpsr &&& ~~~0x200 ||| bif moved then 0x200 else 0) &&& xpsrMask = _
  rw [BitVec.and_or_distrib_right, hmark, BitVec.and_assoc, hrest]
  exact BitVec.or_zero

/-- The frame of an interrupted thread is that of a thread. -/
theorem CoreRegs.ThreadMode.stacked {t : CoreRegs} (h : t.ThreadMode) (moved : Bool) :
    (t.stacked moved).ThreadMode := by
  have hsub : xpsrMask &&& 0x1FF = 0x1FF := by decide
  unfold CoreRegs.ThreadMode at *
  rw [← hsub, ← BitVec.and_assoc, CoreRegs.stacked_xpsr_and, BitVec.and_assoc, hsub]
  exact h

/-- **Popping a frame undoes the alignment of the stack pointer**: the hardware has cleared bit 2 and
noted it, and sets it again. -/
theorem framePtr_pop (stkalign : Bool) {psp : Word} (h : psp.toNat % 4 = 0) :
    ((framePtr stkalign psp).1 + 0x20 ||| bif (framePtr stkalign psp).2 && stkalign then 4 else 0) =
      psp := by
  cases stkalign with
  | false =>
      show psp - 0x20 + 0x20 ||| (bif false && false then 4 else 0) = psp
      rw [BitVec.sub_add_cancel]
      exact BitVec.or_zero
  | true =>
      show ((psp - 0x20) &&& ~~~4) + 0x20 ||| (bif psp.getLsbD 2 && true then 4 else 0) = psp
      rw [Bool.and_true, getLsbD_two]
      by_cases hb : psp.toNat / 4 % 2 = 1
      · have hclear : (psp - 0x20) &&& ~~~4 = psp - 0x24 := by
          apply BitVec.eq_of_toNat_eq
          rw [toNat_and_not, and_four, if_pos (by bv_omega)]
          bv_omega
        have hbit : (psp - 0x24 + 0x20) &&& 4 = 0 := by
          rw [and_four, if_neg (by bv_omega)]
        rw [decide_eq_true hb, hclear, cond_true, ← BitVec.add_eq_or_of_and_eq_zero _ _ hbit]
        bv_omega
      · have hclear : (psp - 0x20) &&& ~~~4 = psp - 0x20 := by
          apply BitVec.eq_of_toNat_eq
          rw [toNat_and_not, and_four, if_neg (by bv_omega)]
          rfl
        rw [decide_eq_false hb, hclear, cond_false, BitVec.sub_add_cancel]
        exact BitVec.or_zero

/-- **A thread resumes as it was interrupted.** The handler is entered from a thread, and some later run
of it comes back with the stack pointer it passed then and the same sixteen words there: the registers
and the stack pointer are those of the interrupted thread. -/
theorem switch_round_trip {stkalign : Bool} {t : CoreRegs} {psp : Word} {c d : Cpu}
    (h : Interrupted stkalign t psp c) (hpsp : c.psp ≠ 0) (halign : psp.toNat % 4 = 0)
    (hthread : t.ThreadMode) (hvalid : t.XpsrValid) (hsp : d.r 0 = c.atSchedule.r 0) (hne : d.r 0 ≠ 0)
    (hmem : ∀ x, InRange (d.r 0) 64 x → d.mem x = c.atSchedule.mem x) :
    d.switchIn stkalign = some ⟨t, psp, false, d.mem⟩ := by
  have hheld : d.mem.Holds (d.r 0) (t.stacked (framePtr stkalign psp).2).frame :=
    (hsp ▸ h.atSchedule_holds hpsp).congr hmem
  have htop : d.r 0 + 0x40 = (framePtr stkalign psp).1 + 0x20 := by
    rw [hsp, (Cpu.atSchedule_of_ne_zero hpsp).1, ← h.psp_eq]
    bv_omega
  rw [Cpu.switchIn_of_holds stkalign hheld hne (hthread.stacked _), CoreRegs.stacked_xpsr_and,
    CoreRegs.stacked_xpsr_getLsbD, htop, framePtr_pop stkalign halign, hvalid]
  rfl

/-- The frame lies at most 36 bytes below the stack pointer. -/
theorem le_framePtr (stkalign : Bool) {psp : Word} (h : 36 ≤ psp.toNat) :
    psp.toNat ≤ (framePtr stkalign psp).1.toNat + 36 := by
  cases stkalign with
  | false =>
      show psp.toNat ≤ (psp - 0x20).toNat + 36
      bv_omega
  | true =>
      show psp.toNat ≤ ((psp - 0x20) &&& ~~~4).toNat + 36
      rw [toNat_and_not, and_four]
      split <;> bv_omega

/-- **A switch from a thread to itself is invisible**: when `hrt__schedule` returns the stack pointer it
was given and leaves the frame alone, the thread goes on with all its registers and its stack
pointer. -/
theorem switch_to_self {stkalign : Bool} {hrtSchedule : Word → Memory → CallResult} {c : Cpu}
    (hroom : 68 < c.psp.toNat) (halign : c.psp.toNat % 4 = 0) (hthread : c.ThreadMode)
    (hvalid : c.XpsrValid) (hsame : ∀ sp m, (hrtSchedule sp m).r0 = sp)
    (hmem : ∀ sp m x, InRange sp 64 x → (hrtSchedule sp m).mem x = m x) :
    ∃ m, pendSVHandler stkalign hrtSchedule (c.pushStack stkalign) =
      some { c with primask := false, mem := m } := by
  have hptr : c.psp.toNat ≤ (c.pushStack stkalign).psp.toNat + 36 := le_framePtr stkalign (by omega)
  have hpsp : (c.pushStack stkalign).psp ≠ 0 := by bv_omega
  have hsp := (Cpu.atSchedule_of_ne_zero hpsp).1
  have hret : ((c.pushStack stkalign).atSchedule.bl hrtSchedule).r 0 =
      (c.pushStack stkalign).atSchedule.r 0 := hsame _ _
  refine ⟨_, switch_round_trip (c.pushStack_interrupted stkalign) hpsp halign hthread hvalid hret ?_
    fun x hx => hmem _ _ x (hret ▸ hx)⟩
  rw [hret, hsp]
  bv_omega

end CortexM

end HardRT
