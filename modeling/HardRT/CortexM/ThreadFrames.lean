import HardRT.CortexM.InitialFrame

/-! # Threads on their stacks

A thread of a Cortex-M board is in one of two places: in the processor, or in the sixteen words at its
saved stack pointer. This module is about the ways between the two, one thread and one exception at a
time, with the bytes of its stack that each of them writes.

* `OnStack r c` — the processor `c` runs a thread on the stack `r`, with room for what an exception
  stacks.
* `Runs r g c` — the processor `c` goes on with the thread that `g` was running.
* `Suspended stkalign r m sp c` — the memory `m` holds, at `sp` in the stack `r`, the thread that the
  processor `c` was running.
* `Cpu.interrupt_of_onStack` — an interrupt handler returns to the thread it interrupted.
* `Suspended.of_atSchedule` — what `PendSV_Handler` does before `hrt__schedule` suspends the thread.
* `Suspended.switchIn` — what it does afterwards resumes a suspended one.
* `Suspended.of_pushFrame` — a new stack is a suspended thread. -/

namespace HardRT

open Lib

namespace CortexM

/-! ## What an exception writes -/

/-- The frame lies below the stack pointer. -/
theorem framePtr_le (stkalign : Bool) {psp : Word} (h : 36 ≤ psp.toNat) :
    (framePtr stkalign psp).1.toNat + 32 ≤ psp.toNat := by
  cases stkalign with
  | false =>
      show (psp - 0x20).toNat + 32 ≤ psp.toNat
      bv_omega
  | true =>
      show ((psp - 0x20) &&& ~~~4).toNat + 32 ≤ psp.toNat
      rw [toNat_and_not]
      bv_omega

/-- **Exception entry writes below the stack pointer only**, 36 bytes at most. -/
theorem Cpu.pushStack_mem (stkalign : Bool) {c : Cpu} (h : 36 ≤ c.psp.toNat) {x : Word}
    (hx : ¬ (c.psp.toNat - 36 ≤ x.toNat ∧ x.toNat < c.psp.toNat)) :
    (c.pushStack stkalign).mem x = c.mem x := by
  have hlow := le_framePtr stkalign h
  have hhigh := framePtr_le stkalign h
  refine Memory.storeAll_of_not_inRange fun hin => hx ?_
  have hframe : InRange (framePtr stkalign c.psp).1 (4 * 8) x := hin
  rw [inRange_iff (by omega)] at hframe
  omega

/-- **`PendSV_Handler` saves below the exception frame**: entry and `stmdb` together write 68 bytes at
most. -/
theorem Cpu.atSchedule_mem (stkalign : Bool) {c : Cpu} (h : 68 ≤ c.psp.toNat) {x : Word}
    (hx : ¬ (c.psp.toNat - 68 ≤ x.toNat ∧ x.toNat < c.psp.toNat)) :
    (c.pushStack stkalign).atSchedule.mem x = c.mem x := by
  have hlow : c.psp.toNat ≤ (c.pushStack stkalign).psp.toNat + 36 := le_framePtr stkalign (by omega)
  have hhigh : (c.pushStack stkalign).psp.toNat + 32 ≤ c.psp.toNat := framePtr_le stkalign (by omega)
  have hpsp : (c.pushStack stkalign).psp ≠ 0 := by bv_omega
  rw [(Cpu.atSchedule_of_ne_zero hpsp).2]
  refine Eq.trans (Memory.storeAll_of_not_inRange fun hin => hx ?_)
    (Cpu.pushStack_mem stkalign (by omega) (by omega))
  rw [CoreRegs.length_calleeSaved, inRange_iff (by bv_omega)] at hin
  have hsub : ((c.pushStack stkalign).psp - 0x20).toNat = (c.pushStack stkalign).psp.toNat - 32 := by
    bv_omega
  omega

/-- On the first switch the handler saves nothing. -/
theorem Cpu.atSchedule_of_zero {c : Cpu} (hpsp : c.psp = 0) :
    c.atSchedule.r 0 = 0 ∧ c.atSchedule.mem = c.mem := by
  have hat : c.atSchedule = ({ c with primask := true }.setR 0 c.psp).setR 0 0 := if_pos hpsp
  rw [hat]
  exact ⟨rfl, rfl⟩

/-! ## Threads in the processor -/

/-- **The processor runs a thread on the stack `r`**, which is not at address 0: the stack pointer is
aligned to a word and leaves room for the sixteen words of a frame and a word of alignment, and the
status register is a thread's. -/
structure OnStack (r : Region) (c : Cpu) : Prop where
  pos : 0 < r.base
  align : c.psp.toNat % 4 = 0
  room : r.base + 68 ≤ c.psp.toNat
  bound : c.psp.toNat ≤ r.stop
  mode : c.ThreadMode
  valid : c.XpsrValid

instance (r : Region) (c : Cpu) : Decidable (OnStack r c) :=
  decidable_of_iff (0 < r.base ∧ c.psp.toNat % 4 = 0 ∧ r.base + 68 ≤ c.psp.toNat ∧
      c.psp.toNat ≤ r.stop ∧ c.ThreadMode ∧ c.XpsrValid)
    ⟨fun h => ⟨h.1, h.2.1, h.2.2.1, h.2.2.2.1, h.2.2.2.2.1, h.2.2.2.2.2⟩,
      fun h => ⟨h.pos, h.align, h.room, h.bound, h.mode, h.valid⟩⟩

/-- The memories agree on what is on the stack `r` above the stack pointer. -/
def SameLive (r : Region) (psp : Word) (m m' : Memory) : Prop :=
  ∀ x : Word, psp.toNat ≤ x.toNat → x.toNat < r.stop → m x = m' x

/-- What a C function leaves in the registers it may change. -/
structure Scratch where
  r0 : Word
  r1 : Word
  r2 : Word
  r3 : Word
  r12 : Word
  lr : Word
  deriving DecidableEq, Repr

/-- A C function that leaves `v` behind, and memory alone. -/
def Scratch.call (v : Scratch) (m : Memory) : CallResult := ⟨v.r0, v.r1, v.r2, v.r3, v.r12, v.lr, m⟩

/-- **An interrupt of a thread**, from entry to return: the handler, which runs on the main stack, keeps
`r4`-`r11` and ends in `bx lr` with the `EXC_RETURN` it was entered with. -/
def Cpu.interrupt (stkalign : Bool) (v : Scratch) (c : Cpu) : Option Cpu :=
  ((c.pushStack stkalign).bl fun _ => { v with lr := excReturn }.call).bxLr stkalign

/-- A call leaves `r4`-`r11` alone. -/
theorem Cpu.bl_saved (f : Word → Memory → CallResult) (c : Cpu) {i : Fin 13} (hi : 4 ≤ i) (hi' : i ≤ 11) :
    (c.bl f).r i = c.r i := by
  have h0 : i ≠ 0 := by rintro rfl; exact absurd hi (by decide)
  have h1 : i ≠ 1 := by rintro rfl; exact absurd hi (by decide)
  have h2 : i ≠ 2 := by rintro rfl; exact absurd hi (by decide)
  have h3 : i ≠ 3 := by rintro rfl; exact absurd hi (by decide)
  have h12 : i ≠ 12 := by rintro rfl; exact absurd hi' (by decide)
  simp [Cpu.bl, Cpu.setR, h0, h1, h2, h3, h12]

/-- **An interrupt is invisible to the thread**: the handler returns, with the registers and the stack
pointer the thread had, and only bytes below the stack pointer have changed. -/
theorem Cpu.interrupt_of_onStack {r : Region} {c : Cpu} (h : OnStack r c) (stkalign : Bool)
    (v : Scratch) :
    c.interrupt stkalign v = some { c with mem := (c.pushStack stkalign).mem } := by
  have hint := c.pushStack_interrupted stkalign
  unfold Cpu.interrupt
  -- the handler, of which only `r4`-`r11`, `lr`, the stack pointer and memory matter from here on
  have hlr : ((c.pushStack stkalign).bl fun _ => { v with lr := excReturn }.call).lr = excReturn := rfl
  have hpsp : ((c.pushStack stkalign).bl fun _ => { v with lr := excReturn }.call).psp =
      (c.pushStack stkalign).psp := rfl
  have hmem : ((c.pushStack stkalign).bl fun _ => { v with lr := excReturn }.call).mem =
      (c.pushStack stkalign).mem := rfl
  have hmask : ((c.pushStack stkalign).bl fun _ => { v with lr := excReturn }.call).primask =
      c.primask := rfl
  have hsaved := fun i hi hi' => (c.pushStack stkalign).bl_saved
    (fun _ => { v with lr := excReturn }.call) (i := i) hi hi'
  generalize (c.pushStack stkalign).bl (fun _ => { v with lr := excReturn }.call) = d at *
  have hheld := hint.stacked
  rw [← hmem, ← hpsp] at hheld
  rw [Cpu.bxLr_of_holds stkalign hlr hheld hsaved (h.mode.stacked _), CoreRegs.stacked_xpsr_and,
    CoreRegs.stacked_xpsr_getLsbD, hpsp, hint.psp_eq, framePtr_pop stkalign h.align, h.valid, hmem, hmask]
  rfl

/-- **The processor runs the thread that `g` was running** on the stack `r`, from where it was. -/
structure Runs (r : Region) (g c : Cpu) : Prop where
  regs : c.toCoreRegs = g.toCoreRegs
  psp : c.psp = g.psp
  live : SameLive r g.psp c.mem g.mem

theorem Runs.refl (r : Region) (c : Cpu) : Runs r c c := ⟨rfl, rfl, fun _ _ _ => rfl⟩

/-- It is then on the stack, as `g` was. -/
theorem Runs.onStack {r : Region} {g c : Cpu} (h : Runs r g c) (hg : OnStack r g) : OnStack r c := by
  obtain ⟨hpos, halign, hroom, hbound, hmode, hvalid⟩ := hg
  rw [← h.psp] at halign hroom hbound
  rw [← h.regs] at hmode hvalid
  exact ⟨hpos, halign, hroom, hbound, hmode, hvalid⟩

/-! ## Threads in memory -/

/-- **The thread that `c` was running lies in memory**, at `sp` in the stack `r`: the frame there reads
back as its registers and its stack pointer, and the stack above is as it was. -/
structure Suspended (stkalign : Bool) (r : Region) (m : Memory) (sp : ℕ) (c : Cpu) : Prop where
  frame : ∃ t : CoreRegs, m.Holds (BitVec.ofNat 32 sp) t.frame ∧ t.ThreadMode ∧
    { t with xpsr := t.xpsr &&& xpsrMask } = c.toCoreRegs ∧
    (BitVec.ofNat 32 sp + 0x40 ||| bif t.xpsr.getLsbD 9 && stkalign then 4 else 0) = c.psp
  pos : 0 < sp
  base : r.base ≤ sp
  below : sp + 64 ≤ c.psp.toNat
  live : SameLive r c.psp m c.mem

/-- The saved stack pointer is an address. -/
theorem Suspended.toNat_sp {stkalign : Bool} {r : Region} {m : Memory} {sp : ℕ} {c : Cpu}
    (h : Suspended stkalign r m sp c) : (BitVec.ofNat 32 sp).toNat = sp := by
  have hlt := c.psp.isLt
  have hbelow := h.below
  exact Nat.mod_eq_of_lt (by omega)

/-- **A suspended thread stays suspended** as long as nobody writes to its stack. -/
theorem Suspended.congr {stkalign : Bool} {r : Region} {m m' : Memory} {sp : ℕ} {c : Cpu}
    (h : Suspended stkalign r m sp c) (hbound : c.psp.toNat ≤ r.stop)
    (heq : ∀ x, r.Contains x → m' x = m x) : Suspended stkalign r m' sp c := by
  have hnat := h.toNat_sp
  have hlt := c.psp.isLt
  have hbelow := h.below
  have hbase := h.base
  obtain ⟨t, hframe, ht⟩ := h.frame
  refine ⟨⟨t, hframe.congr fun x hx => heq x ?_, ht⟩, h.pos, hbase, hbelow, fun x hx hx' => ?_⟩
  · rw [CoreRegs.length_frame, inRange_iff (by omega), hnat] at hx
    exact ⟨by omega, by omega⟩
  · rw [heq x ⟨by omega, hx'⟩]
    exact h.live x hx hx'

/-- What is suspended is the thread, not the processor that ran it. -/
theorem Suspended.of_runs {stkalign : Bool} {r : Region} {m : Memory} {sp : ℕ} {g c : Cpu}
    (h : Suspended stkalign r m sp c) (hrun : Runs r g c) : Suspended stkalign r m sp g := by
  obtain ⟨hframe, hpos, hbase, hbelow, hlive⟩ := h
  rw [hrun.regs, hrun.psp] at hframe
  rw [hrun.psp] at hbelow hlive
  refine ⟨hframe, hpos, hbase, hbelow, fun x hx hx' => ?_⟩
  rw [hlive x hx hx', hrun.live x hx hx']

/-- **`PendSV_Handler` suspends the thread it interrupts**: when it calls `hrt__schedule`, the thread
lies at the stack pointer it passes. -/
theorem Suspended.of_atSchedule {r : Region} {c : Cpu} (h : OnStack r c) (stkalign : Bool) :
    Suspended stkalign r (c.pushStack stkalign).atSchedule.mem
      ((c.pushStack stkalign).atSchedule.r 0).toNat c := by
  have hroom := h.room
  have hpos := h.pos
  have hlow : c.psp.toNat ≤ (c.pushStack stkalign).psp.toNat + 36 := le_framePtr stkalign (by omega)
  have hhigh : (c.pushStack stkalign).psp.toNat + 32 ≤ c.psp.toNat := framePtr_le stkalign (by omega)
  have hpsp : (c.pushStack stkalign).psp ≠ 0 := by bv_omega
  have hsp := (Cpu.atSchedule_of_ne_zero hpsp).1
  have hnat : ((c.pushStack stkalign).atSchedule.r 0).toNat =
      (c.pushStack stkalign).psp.toNat - 32 := by
    rw [hsp]
    bv_omega
  have htop : (c.pushStack stkalign).atSchedule.r 0 + 0x40 = (framePtr stkalign c.psp).1 + 0x20 := by
    rw [hsp]
    show (framePtr stkalign c.psp).1 - 0x20 + 0x40 = _
    bv_omega
  have hheld := (c.pushStack_interrupted stkalign).atSchedule_holds hpsp
  refine ⟨⟨c.stacked (framePtr stkalign c.psp).2, ?_, h.mode.stacked _, ?_, ?_⟩, ?_, ?_, ?_, ?_⟩
  · rwa [BitVec.ofNat_toNat, BitVec.setWidth_eq]
  · rw [CoreRegs.stacked_xpsr_and, h.valid]
    rfl
  · rw [BitVec.ofNat_toNat, BitVec.setWidth_eq, htop, CoreRegs.stacked_xpsr_getLsbD,
      framePtr_pop stkalign h.align]
  · omega
  · omega
  · omega
  · exact fun x hx _ => Cpu.atSchedule_mem stkalign (by omega) (by omega)

/-- **`PendSV_Handler` resumes a suspended thread** when `hrt__schedule` returns its stack pointer. -/
theorem Suspended.switchIn {stkalign : Bool} {r : Region} {sp : ℕ} {c d : Cpu}
    (h : Suspended stkalign r d.mem sp c) (hr0 : d.r 0 = BitVec.ofNat 32 sp) :
    d.switchIn stkalign = some ⟨c.toCoreRegs, c.psp, false, d.mem⟩ := by
  have hne : d.r 0 ≠ 0 := by
    intro h0
    have hnat := h.toNat_sp
    rw [← hr0, h0] at hnat
    exact absurd h.pos (by rw [← hnat]; decide)
  obtain ⟨t, hframe, hmode, hregs, hpsp⟩ := h.frame
  rw [← hr0] at hframe hpsp
  rw [Cpu.switchIn_of_holds stkalign hframe hne hmode, hregs, hpsp]

/-! ## New threads -/

/-- A frame at the top of an empty stack is a suspended thread. -/
theorem Suspended.of_pushFrame (pc lr : Word) (m : Memory) (stkalign primask : Bool) {r : Region}
    {t : Word} (hpos : 0 < r.base) (hroom : r.base + 64 ≤ t.toNat) :
    Suspended stkalign r (pushFrame pc lr ⟨m, t⟩).mem (t - 0x40).toNat
      ⟨CoreRegs.fresh pc lr, t, primask, (pushFrame pc lr ⟨m, t⟩).mem⟩ := by
  have hsub : (t - 0x40).toNat = t.toNat - 64 := by bv_omega
  have htop : t - 0x40 + 0x40 ||| 0 = t := by
    rw [BitVec.sub_add_cancel]
    exact BitVec.or_zero
  refine ⟨⟨CoreRegs.fresh pc lr, ?_, CoreRegs.fresh_threadMode pc lr, ?_, ?_⟩, ?_, ?_, ?_, ?_⟩
  · rw [BitVec.ofNat_toNat, BitVec.setWidth_eq, ← pushFrame_sp pc lr ⟨m, t⟩]
    exact pushFrame_holds pc lr ⟨m, t⟩
  · rw [CoreRegs.fresh_xpsrValid]
  · rw [BitVec.ofNat_toNat, BitVec.setWidth_eq, CoreRegs.fresh_xpsr_getLsbD, Bool.false_and,
      cond_false, htop]
  · omega
  · omega
  · show (t - 0x40).toNat + 64 ≤ t.toNat
    omega
  · exact fun x _ _ => rfl

/-- The processor that runs a new thread is on its stack. -/
theorem OnStack.of_fresh {r : Region} {c : Cpu} {pc lr : Word}
    (hregs : c.toCoreRegs = CoreRegs.fresh pc lr) (hpos : 0 < r.base) (halign : c.psp.toNat % 4 = 0)
    (hroom : r.base + 68 ≤ c.psp.toNat) (hbound : c.psp.toNat ≤ r.stop) : OnStack r c where
  pos := hpos
  align := halign
  room := hroom
  bound := hbound
  mode := hregs ▸ CoreRegs.fresh_threadMode pc lr
  valid := hregs ▸ CoreRegs.fresh_xpsrValid pc lr

end CortexM

end HardRT
