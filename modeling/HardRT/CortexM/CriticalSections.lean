import HardRT.Lib.SerialLog
import Mathlib.Algebra.Group.Nat.Defs

/-! # Critical sections on Cortex-M

`hrt_port_crit_enter` and `hrt_port_crit_exit` of `src/port/cortex_m/port_cortexm.c` mask interrupts
with `BASEPRI`, count the nesting in `g_cs_nest` and keep the outermost mask in `g_basepri_prev`. The
three are global: they belong to no task and are not part of a saved context, and neither function is
itself atomic. `PendSV_Handler` protects itself with `PRIMASK` instead.

Here the two functions are taken load by load and store by store. Interrupts of any priority nest, may
arrive before every instruction as far as the masks allow it, and make calls of their own; `PendSV`
switches tasks in between.

* `Nvic` — the two build options and what they mean to the hardware.
* `CritState`, `critStep` — the machine.
* `CritInv` — the invariant: at most one context is inside a section, and the masks are its own.
* `critical_sections_exclusive` — mutual exclusion, and the masks are restored.
* `critical_sections_serial` — sections are atomic: the shared state is that of a system which executes
  whole sections one after the other. -/

namespace HardRT

open Lib

namespace CortexM

/-! ## Priorities -/

/-- The build options of the port: `HARDRT_NVIC_PRIO_BITS` and `HARDRT_MAX_SYSCALL_IRQ_PRIO`. -/
structure Nvic where
  prioBits : ℕ
  maxSyscallIrqPrio : ℕ
  deriving DecidableEq, Repr

namespace Nvic

/-- The defaults: four bits, five. -/
def default : Nvic := ⟨4, 5⟩

/-- `_prio_to_basepri`: a logical priority in the upper bits of the eight-bit field. -/
def prioToBasepri (n : Nvic) (prio : ℕ) : ℕ := (prio * 2 ^ (8 - n.prioBits)) % 2 ^ 32 % 256

/-- What `hrt_port_crit_enter` writes to `BASEPRI`. -/
def threshold (n : Nvic) : ℕ := n.prioToBasepri n.maxSyscallIrqPrio

/-- What a priority register holds after a write of `v`: the lower bits are not implemented. -/
def implemented (n : Nvic) (v : ℕ) : ℕ := v - v % 2 ^ (8 - n.prioBits)

/-- The priority of `PendSV`, `SHPR[10] = 0xF0`. -/
def pendSvPrio (n : Nvic) : ℕ := n.implemented 0xF0

/-- The priority of `SysTick`, `SHPR[11] = 0xE0`. -/
def sysTickPrio (n : Nvic) : ℕ := n.implemented 0xE0

/-- The options make sense: the threshold is not zero, which would mask nothing, and the port's own
exceptions are not more urgent than it. -/
structure Valid (n : Nvic) : Prop where
  pos : 0 < n.maxSyscallIrqPrio
  le : n.maxSyscallIrqPrio * 2 ^ (8 - n.prioBits) ≤ 0xE0

/-- The default options are valid. -/
theorem default_valid : default.Valid := ⟨by decide, by decide⟩

variable {n : Nvic}

/-- A logical priority that fits is shifted and nothing else. -/
theorem prioToBasepri_of_le {prio : ℕ} (h : prio * 2 ^ (8 - n.prioBits) ≤ 255) :
    n.prioToBasepri prio = prio * 2 ^ (8 - n.prioBits) := by
  unfold prioToBasepri
  omega

/-- The threshold of valid options. -/
theorem Valid.threshold_eq (h : n.Valid) : n.threshold = n.maxSyscallIrqPrio * 2 ^ (8 - n.prioBits) :=
  prioToBasepri_of_le (Nat.le_trans h.le (by decide : 0xE0 ≤ 255))

/-- It is not zero. -/
theorem Valid.threshold_pos (h : n.Valid) : 0 < n.threshold := by
  rw [h.threshold_eq]
  exact Nat.mul_pos h.pos (Nat.two_pow_pos _)

/-- Rounding down to the implemented bits keeps what is above the threshold above it. -/
theorem Valid.threshold_le_implemented (h : n.Valid) {v : ℕ} (hv : n.threshold ≤ v) :
    n.threshold ≤ n.implemented v := by
  rw [h.threshold_eq] at *
  unfold implemented
  have hdiv : n.maxSyscallIrqPrio ≤ v / 2 ^ (8 - n.prioBits) :=
    (Nat.le_div_iff_mul_le (Nat.two_pow_pos _)).mpr hv
  have hsplit := Nat.div_add_mod v (2 ^ (8 - n.prioBits))
  have hmul := Nat.mul_le_mul_left (2 ^ (8 - n.prioBits)) hdiv
  rw [Nat.mul_comm] at hmul
  omega

/-- **`PendSV` and `SysTick` are masked inside a critical section.** -/
theorem Valid.threshold_le (h : n.Valid) :
    n.threshold ≤ n.pendSvPrio ∧ n.threshold ≤ n.sysTickPrio := by
  have hle : n.threshold ≤ 0xE0 := h.threshold_eq ▸ h.le
  exact ⟨h.threshold_le_implemented (by omega), h.threshold_le_implemented hle⟩

/-- **Which interrupts a critical section holds off**: those whose logical priority is
`HARDRT_MAX_SYSCALL_IRQ_PRIO` or less urgent. -/
theorem Valid.threshold_le_prioToBasepri (h : n.Valid) {prio : ℕ}
    (hprio : prio * 2 ^ (8 - n.prioBits) ≤ 255) :
    n.threshold ≤ n.prioToBasepri prio ↔ n.maxSyscallIrqPrio ≤ prio := by
  rw [h.threshold_eq, prioToBasepri_of_le hprio]
  exact Nat.mul_le_mul_right_iff (Nat.two_pow_pos _)

end Nvic

/-! ## Contexts -/

/-- Who executes: a task, or an activation of an exception handler, numbered since reset. -/
inductive Who
  | task (i : ℕ)
  | handler (n : ℕ)
  deriving DecidableEq, Repr

/-- **Where a context is**: in code of its own or of the kernel, before one of the instructions of the
two functions that touch global data, or in `PendSV_Handler`. Values in registers are arguments. -/
inductive CritPc
  | body
  /-- `prev = _get_BASEPRI()`. -/
  | enterRead
  /-- `if (g_cs_nest == 0u)`. -/
  | enterTest (prev : ℕ)
  /-- `g_basepri_prev = prev`. -/
  | enterSave (prev : ℕ)
  /-- `_set_BASEPRI(_prio_to_basepri(HARDRT_MAX_SYSCALL_IRQ_PRIO))`. -/
  | enterMask
  /-- The load of `g_cs_nest++`. -/
  | enterLoad
  /-- The store of `g_cs_nest++`. -/
  | enterStore (nest : ℕ)
  /-- `if (g_cs_nest == 0u) return`. -/
  | exitTest
  /-- The load of `g_cs_nest--`. -/
  | exitLoad
  /-- The store of `g_cs_nest--`. -/
  | exitStore (nest : ℕ)
  /-- `if (g_cs_nest == 0u)`. -/
  | exitLast
  /-- `_set_BASEPRI(g_basepri_prev)`. -/
  | exitRestore
  /-- `PendSV_Handler`, before `cpsid i`. -/
  | pendEntry
  /-- `PendSV_Handler`, up to `cpsie i`. -/
  | pendMasked
  /-- `PendSV_Handler`, before `bx lr`. -/
  | pendExit
  deriving DecidableEq, Repr

/-- **A context**: a task, or a handler that has been entered and has not returned. `depth` is how many
sections it is in. A thread has priority 256, below every exception. -/
structure Ctx where
  who : Who
  prio : ℕ
  pc : CritPc
  depth : ℕ
  deriving DecidableEq, Repr

/-- The globals of the port and `BASEPRI`. -/
structure CritRegs where
  basepri : ℕ
  csNest : ℕ
  basepriPrev : ℕ
  deriving DecidableEq, Repr

/-- **The next instruction of `hrt_port_crit_enter` or `hrt_port_crit_exit`.** -/
def critInstr (n : Nvic) (g : CritRegs) (c : Ctx) : Option (CritRegs × Ctx) :=
  match c.pc with
  | .enterRead => some (g, { c with pc := .enterTest g.basepri })
  | .enterTest prev => some (g, { c with pc := if g.csNest = 0 then .enterSave prev else .enterLoad })
  | .enterSave prev => some ({ g with basepriPrev := prev }, { c with pc := .enterMask })
  | .enterMask => some ({ g with basepri := n.threshold }, { c with pc := .enterLoad })
  | .enterLoad => some (g, { c with pc := .enterStore g.csNest })
  | .enterStore nest =>
      some ({ g with csNest := (nest + 1) % 2 ^ 32 }, { c with pc := .body, depth := c.depth + 1 })
  | .exitTest => some (g, { c with pc := if g.csNest = 0 then .body else .exitLoad })
  | .exitLoad => some (g, { c with pc := .exitStore g.csNest })
  | .exitStore nest =>
      some ({ g with csNest := (nest + 2 ^ 32 - 1) % 2 ^ 32 },
        { c with pc := .exitLast, depth := c.depth - 1 })
  | .exitLast => some (g, { c with pc := if g.csNest = 0 then .exitRestore else .body })
  | .exitRestore => some ({ g with basepri := g.basepriPrev }, { c with pc := .body })
  | .body | .pendEntry | .pendMasked | .pendExit => none

/-! ## The machine -/

/-- **The state**: the masks, the handlers that are active with the innermost first, the tasks, the data
the kernel shares, and the log of the sections. -/
structure CritState (K Op : Type*) where
  regs : CritRegs
  primask : Bool
  active : List Ctx
  tasks : ℕ → Ctx
  current : ℕ
  served : ℕ
  shared : K
  log : List (Mark Who Op)

namespace CritState

variable {K Op : Type*}

/-- Everything that has been entered and not left, innermost first; the current task is at the bottom. -/
def stack (s : CritState K Op) : List Ctx := s.active ++ [s.tasks s.current]

/-- The context that executes. -/
def running (s : CritState K Op) : Ctx := s.active.headD (s.tasks s.current)

/-- Replace the context that executes. -/
def setRunning (s : CritState K Op) (c : Ctx) : CritState K Op :=
  match s.active with
  | [] => { s with tasks := Function.update s.tasks s.current c }
  | _ :: rest => { s with active := c :: rest }

/-- The execution priority: the most urgent of the active handlers and of `BASEPRI`, which masks nothing
when it is zero. -/
def execPrio (s : CritState K Op) : ℕ :=
  (s.stack.map Ctx.prio).foldr min (if s.regs.basepri = 0 then 256 else s.regs.basepri)

/-- After reset: `main` runs as the only context, unmasked. -/
def reset (shared : K) : CritState K Op where
  regs := ⟨0, 0, 0⟩
  primask := false
  active := []
  tasks := fun i => ⟨.task i, 256, .body, 0⟩
  current := 0
  served := 0
  shared := shared
  log := []

end CritState

/-- What can happen next. -/
inductive CritAction (Op : Type*)
  /-- The running context calls `hrt_port_crit_enter`. -/
  | enter
  /-- It calls `hrt_port_crit_exit`, for a section it is in. -/
  | exit
  /-- It works on the shared data, in a section or in `PendSV_Handler`. -/
  | access (x : Op)
  /-- It executes the next instruction of one of the two functions. -/
  | instr
  /-- `cpsid i` or `cpsie i` in `PendSV_Handler`. -/
  | mask
  /-- `PendSV_Handler` makes task `t` the one to return to. -/
  | switch (t : ℕ)
  /-- An interrupt of this priority is taken. -/
  | irq (prio : ℕ)
  /-- `PendSV` is taken. -/
  | pendsv
  /-- The running handler returns. -/
  | ret

section Machine

variable {K Op : Type*} (n : Nvic) (f : Op → K → K)

/-- An exception of priority `prio` is taken: it preempts what is less urgent. -/
def takeException (s : CritState K Op) (prio : ℕ) (pc : CritPc) : Option (CritState K Op) :=
  if s.primask = false ∧ prio < s.execPrio then
    some { s with active := ⟨.handler s.served, prio, pc, 0⟩ :: s.active, served := s.served + 1 }
  else none

/-- The event of an instruction: setting the mask enters a section, restoring it leaves it. -/
def critMarks (c : Ctx) : List (Mark Who Op) :=
  match c.pc with
  | .enterMask => [.enter c.who]
  | .exitRestore => [.leave c.who]
  | _ => []

/-- **The machine**, with sections as the kernel uses them: a context leaves a section only if it is in
one, works on the shared data only inside, and a handler returns when it has left all its sections. -/
def critStep (s : CritState K Op) : CritAction Op → Option (CritState K Op)
  | .enter =>
      if s.running.pc = .body then some (s.setRunning { s.running with pc := .enterRead }) else none
  | .exit =>
      if s.running.pc = .body ∧ 0 < s.running.depth then
        some (s.setRunning { s.running with pc := .exitTest })
      else none
  | .access x =>
      if (s.running.pc = .body ∧ 0 < s.running.depth) ∨ s.running.pc = .pendMasked then
        some { s with shared := f x s.shared, log := s.log ++ [.act s.running.who x] }
      else none
  | .instr =>
      (critInstr n s.regs s.running).map fun r =>
        { s.setRunning r.2 with regs := r.1, log := s.log ++ critMarks s.running }
  | .mask =>
      match s.running.pc with
      | .pendEntry =>
          some { s.setRunning { s.running with pc := .pendMasked } with
            primask := true, log := s.log ++ [.enter s.running.who] }
      | .pendMasked =>
          some { s.setRunning { s.running with pc := .pendExit } with
            primask := false, log := s.log ++ [.leave s.running.who] }
      | _ => none
  | .switch t =>
      -- an exception return to thread mode needs that no other handler is active
      if s.running.pc = .pendMasked ∧ s.active.length = 1 then some { s with current := t } else none
  | .irq prio => takeException s prio .body
  | .pendsv => takeException s n.pendSvPrio .pendEntry
  | .ret =>
      match s.active with
      | [] => none
      | c :: rest =>
          if (c.pc = .body ∧ c.depth = 0) ∨ c.pc = .pendExit then some { s with active := rest } else none

/-- **The discipline**: interrupts more urgent than the threshold do not use the kernel, and sections do
not nest `2 ^ 32` deep. -/
def CritDisciplined (s : CritState K Op) : CritAction Op → Prop
  | .enter => n.threshold ≤ s.running.prio ∧ s.running.depth + 1 < 2 ^ 32
  | _ => True

end Machine

instance {K Op : Type*} (n : Nvic) (s : CritState K Op) : DecidablePred (CritDisciplined n s)
  | .enter => inferInstanceAs (Decidable (_ ∧ _))
  | .exit | .access _ | .instr | .mask | .switch _ | .irq _ | .pendsv | .ret => instDecidableTrue

/-! ## One context -/

namespace Ctx

/-- The context has set `BASEPRI` and not restored it. -/
def masked (c : Ctx) : Bool :=
  0 < c.depth || match c.pc with
    | .enterLoad | .enterStore _ | .exitLast | .exitRestore => true
    | _ => false

/-- **The context is inside a section**: it has masked the others, by `BASEPRI` or by `PRIMASK`. -/
def inside (c : Ctx) : Bool := c.masked || c.pc = .pendMasked

/-- Who is inside, if it is this context. -/
def holder (c : Ctx) : Option Who := if c.inside then some c.who else none

/-- What a context has in its registers is true of it. -/
def Wf (c : Ctx) : Prop :=
  c.depth < 2 ^ 32 ∧ match c.pc with
    | .enterRead | .enterLoad => c.depth + 1 < 2 ^ 32
    | .enterTest prev => c.depth + 1 < 2 ^ 32 ∧ (c.depth = 0 → prev = 0)
    | .enterSave prev => c.depth = 0 ∧ prev = 0
    | .enterStore nest => c.depth + 1 < 2 ^ 32 ∧ nest = c.depth
    | .exitTest | .exitLoad => 0 < c.depth
    | .exitStore nest => 0 < c.depth ∧ nest = c.depth
    | .enterMask | .exitRestore | .pendEntry | .pendMasked | .pendExit => c.depth = 0
    | .body | .exitLast => True

/-- A context that is not inside is in no section. -/
theorem depth_of_not_inside {c : Ctx} (h : c.inside = false) : c.depth = 0 := by
  simp only [inside, masked, Bool.or_eq_false_iff, decide_eq_false_iff_not] at h
  omega

/-- A context with a section is inside. -/
theorem inside_of_depth {c : Ctx} (h : 0 < c.depth) : c.inside = true := by
  simp [inside, masked, h]

end Ctx

/-- **The masks are those of the context `c`.** -/
structure CritRegs.Of (n : Nvic) (g : CritRegs) (c : Ctx) : Prop where
  prev : g.basepriPrev = 0
  basepri : g.basepri = if c.masked then n.threshold else 0
  nest : g.csNest = c.depth

/-- A call begins with the masks as they are. -/
theorem CritRegs.Of.of_body {n : Nvic} {g : CritRegs} {c : Ctx} (h : g.Of n c) (pc : CritPc)
    (hbody : c.pc = .body) (hpc : ({ c with pc := pc } : Ctx).masked = decide (0 < c.depth)) :
    g.Of n { c with pc := pc } := by
  refine ⟨h.prev, ?_, h.nest⟩
  rw [h.basepri, hpc]
  simp [Ctx.masked, hbody]

/-- **One instruction of the two functions**, nobody else being inside: the context keeps its identity,
the masks stay its own, and the section begins and ends with the writes to `BASEPRI`. -/
theorem critInstr_spec (Op : Type*) {n : Nvic} {g g' : CritRegs} {c c' : Ctx} (hwf : c.Wf)
    (hg : g.Of n c) (h : critInstr n g c = some (g', c')) :
    c'.Wf ∧ g'.Of n c' ∧ c'.who = c.who ∧ c'.prio = c.prio ∧ c'.pc ≠ .pendMasked ∧
    exec serialStep c.holder (critMarks c : List (Mark Who Op)) = some c'.holder := by
  obtain ⟨hprev, hbase, hnest⟩ := hg
  obtain ⟨who, prio, pc, depth⟩ := c
  obtain ⟨hlt, hpc⟩ := hwf
  -- one case for each instruction; what is known of the registers is in `hpc`
  cases pc with
  | enterRead =>
      obtain ⟨rfl, rfl⟩ := Prod.mk.inj (Option.some.inj h)
      refine ⟨⟨hlt, hpc, fun h0 => ?_⟩, ⟨hprev, hbase, hnest⟩, rfl, rfl, by simp, rfl⟩
      rw [hbase]
      simp [Ctx.masked, show depth = 0 from h0]
  | enterTest prev =>
      obtain ⟨rfl, rfl⟩ := Prod.mk.inj (Option.some.inj h)
      obtain ⟨hlt', hp⟩ := hpc
      rcases Nat.eq_zero_or_pos depth with rfl | hpos
      · have h0 : g.csNest = 0 := hnest
        rw [if_pos h0]
        exact ⟨⟨hlt, rfl, hp rfl⟩, ⟨hprev, hbase, hnest⟩, rfl, rfl, by simp, rfl⟩
      · have h0 : g.csNest ≠ 0 := by
          have hn : g.csNest = depth := hnest
          omega
        rw [if_neg h0]
        refine ⟨⟨hlt, hlt'⟩, ⟨hprev, ?_, hnest⟩, rfl, rfl, by simp, ?_⟩
        · simpa [Ctx.masked, hpos] using hbase
        · simp [critMarks, Ctx.holder, Ctx.inside, Ctx.masked, hpos]
  | enterSave prev =>
      obtain ⟨rfl, rfl⟩ := Prod.mk.inj (Option.some.inj h)
      exact ⟨⟨hlt, hpc.1⟩, ⟨hpc.2, hbase, hnest⟩, rfl, rfl, by simp, rfl⟩
  | enterMask =>
      obtain ⟨rfl, rfl⟩ := Prod.mk.inj (Option.some.inj h)
      obtain rfl : depth = 0 := hpc
      exact ⟨⟨hlt, by show 0 + 1 < 2 ^ 32; decide⟩, ⟨hprev, rfl, hnest⟩, rfl, rfl, by simp, rfl⟩
  | enterLoad =>
      obtain ⟨rfl, rfl⟩ := Prod.mk.inj (Option.some.inj h)
      refine ⟨⟨hlt, hpc, hnest⟩, ⟨hprev, ?_, hnest⟩, rfl, rfl, by simp, ?_⟩
      · simpa [Ctx.masked] using hbase
      · simp [critMarks, Ctx.holder, Ctx.inside, Ctx.masked]
  | enterStore nest =>
      obtain ⟨rfl, rfl⟩ := Prod.mk.inj (Option.some.inj h)
      obtain ⟨hlt', rfl⟩ := hpc
      refine ⟨⟨hlt', trivial⟩, ⟨hprev, ?_, Nat.mod_eq_of_lt hlt'⟩, rfl, rfl, by simp, ?_⟩
      · simpa [Ctx.masked] using hbase
      · simp [critMarks, Ctx.holder, Ctx.inside, Ctx.masked]
  | exitTest =>
      obtain ⟨rfl, rfl⟩ := Prod.mk.inj (Option.some.inj h)
      have hpos : 0 < depth := hpc
      have h0 : g.csNest ≠ 0 := by
        have hn : g.csNest = depth := hnest
        omega
      rw [if_neg h0]
      exact ⟨⟨hlt, hpc⟩, ⟨hprev, hbase, hnest⟩, rfl, rfl, by simp, rfl⟩
  | exitLoad =>
      obtain ⟨rfl, rfl⟩ := Prod.mk.inj (Option.some.inj h)
      exact ⟨⟨hlt, hpc, hnest⟩, ⟨hprev, hbase, hnest⟩, rfl, rfl, by simp, rfl⟩
  | exitStore nest =>
      obtain ⟨rfl, rfl⟩ := Prod.mk.inj (Option.some.inj h)
      obtain ⟨hpos, rfl⟩ := hpc
      replace hpos : 0 < nest := hpos
      replace hlt : nest < 2 ^ 32 := hlt
      refine ⟨⟨by show nest - 1 < 2 ^ 32; omega, trivial⟩, ⟨hprev, ?_, ?_⟩, rfl, rfl, by simp, ?_⟩
      · simpa [Ctx.masked, hpos] using hbase
      · show (nest + 2 ^ 32 - 1) % 2 ^ 32 = nest - 1
        omega
      · simp [critMarks, Ctx.holder, Ctx.inside, Ctx.masked, hpos]
  | exitLast =>
      obtain ⟨rfl, rfl⟩ := Prod.mk.inj (Option.some.inj h)
      rcases Nat.eq_zero_or_pos depth with rfl | hpos
      · have h0 : g.csNest = 0 := hnest
        rw [if_pos h0]
        exact ⟨⟨hlt, rfl⟩, ⟨hprev, hbase, hnest⟩, rfl, rfl, by simp, rfl⟩
      · have h0 : g.csNest ≠ 0 := by
          have hn : g.csNest = depth := hnest
          omega
        rw [if_neg h0]
        refine ⟨⟨hlt, trivial⟩, ⟨hprev, ?_, hnest⟩, rfl, rfl, by simp, ?_⟩
        · simpa [Ctx.masked, hpos] using hbase
        · simp [critMarks, Ctx.holder, Ctx.inside, Ctx.masked, hpos]
  | exitRestore =>
      obtain ⟨rfl, rfl⟩ := Prod.mk.inj (Option.some.inj h)
      obtain rfl : depth = 0 := hpc
      refine ⟨⟨hlt, trivial⟩, ⟨hprev, hprev, hnest⟩, rfl, rfl, by simp, ?_⟩
      simp [critMarks, Ctx.holder, Ctx.inside, Ctx.masked, exec, serialStep]
  | body => exact absurd h (by simp [critInstr])
  | pendEntry => exact absurd h (by simp [critInstr])
  | pendMasked => exact absurd h (by simp [critInstr])
  | pendExit => exact absurd h (by simp [critInstr])

/-! ## All contexts -/

section Stack

variable {K Op : Type*} {s : CritState K Op}

/-- The innermost context is the one that executes. -/
theorem CritState.running_of_stack {x : Ctx} {rest : List Ctx} (h : s.stack = x :: rest) :
    s.running = x := by
  unfold CritState.stack at h
  unfold CritState.running
  cases hact : s.active with
  | nil =>
      rw [hact] at h
      exact (List.cons.inj h).1
  | cons y ys =>
      rw [hact] at h
      exact (List.cons.inj h).1

/-- Replacing the context that executes replaces the innermost one. -/
theorem CritState.stack_setRunning {x c : Ctx} {rest : List Ctx} (h : s.stack = x :: rest) :
    (s.setRunning c).stack = c :: rest := by
  unfold CritState.stack at h
  unfold CritState.setRunning CritState.stack
  cases hact : s.active with
  | nil =>
      rw [hact] at h
      simp [← (List.cons.inj h).2]
  | cons y ys =>
      rw [hact] at h
      simp [← (List.cons.inj h).2]

/-- The other tasks stay as they are. -/
theorem CritState.setRunning_tasks_of_ne (c : Ctx) {i : ℕ} (hi : i ≠ s.current) :
    (s.setRunning c).tasks i = s.tasks i := by
  unfold CritState.setRunning
  split
  · exact Function.update_of_ne hi _ _
  · rfl

/-- What replaces the context that executes has its priority, so no task changes its own. -/
theorem CritState.setRunning_prio {c : Ctx} (hc : c.prio = s.running.prio) (i : ℕ) :
    ((s.setRunning c).tasks i).prio = (s.tasks i).prio := by
  unfold CritState.setRunning
  split
  · rename_i hact
    by_cases hi : i = s.current
    · subst hi
      simp [hc, CritState.running, hact]
    · simp [hi]
  · rfl

/-- The rest is untouched. -/
theorem CritState.setRunning_frame (s : CritState K Op) (c : Ctx) :
    (s.setRunning c).regs = s.regs ∧ (s.setRunning c).primask = s.primask ∧
    (s.setRunning c).current = s.current ∧ (s.setRunning c).shared = s.shared ∧
    (s.setRunning c).log = s.log := by
  unfold CritState.setRunning
  split <;> exact ⟨rfl, rfl, rfl, rfl, rfl⟩

/-- Replacing the context that executes, with the other fields spelled out. -/
theorem CritState.setRunning_eq (s : CritState K Op) (c : Ctx) :
    s.setRunning c =
      { s.setRunning c with regs := s.regs, primask := s.primask, log := s.log ++ [] } := by
  rw [List.append_nil]
  unfold CritState.setRunning
  split <;> rfl

/-- No exception is taken that is less urgent than an active context. -/
theorem CritState.execPrio_le {x : Ctx} (hx : x ∈ s.stack) : s.execPrio ≤ x.prio := by
  unfold CritState.execPrio
  generalize s.stack = l at hx ⊢
  induction l with
  | nil => exact absurd hx List.not_mem_nil
  | cons y ys ih =>
      rw [List.map_cons, List.foldr_cons]
      rcases List.mem_cons.mp hx with rfl | hx
      · exact Nat.min_le_left _ _
      · exact Nat.le_trans (Nat.min_le_right _ _) (ih hx)

/-- Nor one that `BASEPRI` masks. -/
theorem CritState.execPrio_le_basepri (h : s.regs.basepri ≠ 0) : s.execPrio ≤ s.regs.basepri := by
  unfold CritState.execPrio
  rw [if_neg h]
  induction s.stack with
  | nil => exact Nat.le_refl _
  | cons y ys ih => exact Nat.le_trans (Nat.min_le_right _ _) ih

end Stack

/-- **The invariant.** The stack is cut at its innermost context that may use the kernel, `c`: those
above it are more urgent than the threshold and have nothing to do with the kernel, those below are in no
section, and the masks and the log are as `c` has made them. -/
structure CritInv {K Op : Type*} (n : Nvic) (f : Op → K → K) (k₀ : K) (s : CritState K Op)
    (hi : List Ctx) (c : Ctx) (lo : List Ctx) : Prop where
  stack : s.stack = hi ++ c :: lo
  urgent : ∀ x ∈ hi, x.prio < n.threshold ∧ x.pc = .body ∧ x.depth = 0
  prio : n.threshold ≤ c.prio
  wf : c.Wf
  below : ∀ x ∈ lo, n.threshold ≤ x.prio ∧ x.Wf ∧ x.inside = false
  others : ∀ i, i ≠ s.current → (s.tasks i).Wf ∧ (s.tasks i).inside = false
  taskPrio : ∀ i, (s.tasks i).prio = 256
  regs : s.regs.Of n c
  primask : s.primask = true ↔ c.pc = .pendMasked
  alone : c.pc = .pendMasked → hi = []
  log : exec serialStep none s.log = some c.holder
  shared : s.shared = runLog f k₀ s.log

namespace CritInv

variable {K Op : Type*} {n : Nvic} {f : Op → K → K} {k₀ : K} {s s' : CritState K Op} {hi lo : List Ctx}
  {c : Ctx}

/-- **The innermost context moves on**: what it needs is that the masks and the log stay its own. -/
theorem move (h : CritInv n f k₀ s [] c lo) {c' : Ctx} {g : CritRegs} (pm : Bool)
    {es : List (Mark Who Op)} (hwf : c'.Wf) (hprio : c'.prio = c.prio) (hg : g.Of n c')
    (hpm : pm = true ↔ c'.pc = .pendMasked) (hes : exec serialStep c.holder es = some c'.holder)
    (hacts : runLog f s.shared es = s.shared) :
    CritInv n f k₀ { s.setRunning c' with regs := g, primask := pm, log := s.log ++ es } [] c' lo := by
  obtain ⟨-, -, hcur, hshared, -⟩ := s.setRunning_frame c'
  have hrun := CritState.running_of_stack h.stack
  refine ⟨CritState.stack_setRunning h.stack, by simp, by rw [hprio]; exact h.prio, hwf, h.below,
    fun i hi => ?_, fun i => ?_, hg, hpm, fun _ => rfl, exec_append.mpr ⟨_, h.log, hes⟩, ?_⟩
  · replace hi : i ≠ s.current := hcur ▸ hi
    show ((s.setRunning c').tasks i).Wf ∧ ((s.setRunning c').tasks i).inside = false
    rw [CritState.setRunning_tasks_of_ne c' hi]
    exact h.others i hi
  · show ((s.setRunning c').tasks i).prio = 256
    rw [CritState.setRunning_prio (by rw [hprio, hrun])]
    exact h.taskPrio i
  · show (s.setRunning c').shared = _
    rw [hshared, runLog_append, ← h.shared, hacts]

/-- **An exception is taken.** If it may use the kernel, nobody is inside. -/
theorem exception (h : CritInv n f k₀ s hi c lo) (hn : n.Valid) {prio : ℕ} {pc : CritPc}
    (hpc : pc = .body ∨ (pc = .pendEntry ∧ n.threshold ≤ prio))
    (hstep : takeException s prio pc = some s') : ∃ hi' c' lo', CritInv n f k₀ s' hi' c' lo' := by
  unfold takeException at hstep
  split at hstep
  · rename_i hen
    obtain rfl := (Option.some.inj hstep).symm
    obtain ⟨hpm, hlt⟩ := hen
    have hnp : c.pc ≠ .pendMasked := fun hp => by
      rw [h.primask.mpr hp] at hpm
      exact absurd hpm (by simp)
    have hmem : ∀ x ∈ hi ++ c :: lo, prio < x.prio := fun x hx =>
      Nat.lt_of_lt_of_le hlt (CritState.execPrio_le (h.stack ▸ hx))
    by_cases hurg : prio < n.threshold
    · -- more urgent than the threshold: it goes on top of the others
      have hbody : pc = .body := hpc.resolve_right fun hp => absurd hp.2 (by omega)
      refine ⟨⟨.handler s.served, prio, pc, 0⟩ :: hi, c, lo, ?_, ?_, h.prio, h.wf, h.below, h.others,
        h.taskPrio, h.regs, h.primask, fun hp => absurd hp hnp, h.log, h.shared⟩
      · show _ :: s.stack = _
        rw [h.stack]
        rfl
      · intro x hx
        rcases List.mem_cons.mp hx with rfl | hx
        · exact ⟨hurg, hbody, rfl⟩
        · exact h.urgent x hx
    · -- it may use the kernel: then nothing more urgent is active and no section is open
      have hnil : hi = [] := by
        rcases hi with _ | ⟨x, hi⟩
        · rfl
        · have hx := hmem x (by simp)
          have hx' := (h.urgent x (by simp)).1
          omega
      subst hnil
      have hmask : c.masked = false := by
        by_contra hm
        have hbase : s.regs.basepri = n.threshold := by
          rw [h.regs.basepri, if_pos (by simpa using hm)]
        have hpos := hn.threshold_pos
        have hle := CritState.execPrio_le_basepri (s := s) (by omega)
        omega
      have hins : c.inside = false := by
        simp [Ctx.inside, hmask, hnp]
      have hdepth := Ctx.depth_of_not_inside hins
      refine ⟨[], ⟨.handler s.served, prio, pc, 0⟩, c :: lo, ?_, by simp, by simpa using hurg, ?_, ?_,
        h.others, h.taskPrio, ⟨h.regs.prev, ?_, ?_⟩, ?_, fun _ => rfl, ?_, h.shared⟩
      · show _ :: s.stack = _
        rw [h.stack]
        rfl
      · rcases hpc with rfl | ⟨rfl, -⟩
        · exact ⟨Nat.two_pow_pos 32, trivial⟩
        · exact ⟨Nat.two_pow_pos 32, rfl⟩
      · intro x hx
        rcases List.mem_cons.mp hx with rfl | hx
        · exact ⟨h.prio, h.wf, hins⟩
        · exact h.below x hx
      · rw [h.regs.basepri, hmask]
        rcases hpc with rfl | ⟨rfl, -⟩ <;> rfl
      · exact h.regs.nest.trans hdepth
      · show s.primask = true ↔ pc = .pendMasked
        rw [hpm]
        rcases hpc with rfl | ⟨rfl, -⟩ <;> simp
      · rw [h.log, Ctx.holder, hins]
        rcases hpc with rfl | ⟨rfl, -⟩ <;> rfl
  · exact absurd hstep (by simp)

/-- **A handler more urgent than the threshold** does nothing but return or be interrupted. -/
theorem step_urgent {x : Ctx} (h : CritInv n f k₀ s (x :: hi) c lo) (hn : n.Valid) {a : CritAction Op}
    (hd : CritDisciplined n s a) (hstep : critStep n f s a = some s') :
    ∃ hi' c' lo', CritInv n f k₀ s' hi' c' lo' := by
  have hrun := CritState.running_of_stack h.stack
  obtain ⟨hurg, hbody, hdepth⟩ := h.urgent x (by simp)
  rw [← hrun] at hurg hbody hdepth
  cases a with
  | enter => exact absurd hd.1 (by omega)
  | exit => exact absurd hstep (by simp [critStep, hdepth])
  | access y => exact absurd hstep (by simp [critStep, hdepth, hbody])
  | instr => exact absurd hstep (by simp [critStep, critInstr, hbody])
  | mask => exact absurd hstep (by simp [critStep, hbody])
  | switch t => exact absurd hstep (by simp [critStep, hbody])
  | irq prio => exact h.exception hn (Or.inl rfl) hstep
  | pendsv => exact h.exception hn (Or.inr ⟨rfl, hn.threshold_le.1⟩) hstep
  | ret =>
      have hst := h.stack
      unfold CritState.stack at hst
      simp only [critStep] at hstep
      cases hact : s.active with
      | nil => exact absurd hstep (by simp [hact])
      | cons y rest =>
          rw [hact] at hst hstep
          simp only at hstep
          split at hstep
          · obtain rfl := (Option.some.inj hstep).symm
            refine ⟨hi, c, lo, (List.cons.inj hst).2, fun z hz => h.urgent z (by simp [hz]), h.prio, h.wf,
              h.below, h.others, h.taskPrio, h.regs, h.primask, fun hp => ?_, h.log, h.shared⟩
            exact absurd (h.alone hp) (by simp)
          · exact absurd hstep (by simp)

/-- **The innermost handler returns**, out of all its sections; the next context was in none. -/
theorem ret (h : CritInv n f k₀ s [] c lo) (hstep : critStep n f s .ret = some s') :
    ∃ hi' c' lo', CritInv n f k₀ s' hi' c' lo' := by
  have hst := h.stack
  unfold CritState.stack at hst
  simp only [critStep] at hstep
  cases hact : s.active with
  | nil => exact absurd hstep (by simp [hact])
  | cons y rest =>
      rw [hact] at hst hstep
      obtain ⟨rfl, hrest⟩ := List.cons.inj hst
      simp only at hstep
      split at hstep
      · rename_i hout
        obtain rfl := (Option.some.inj hstep).symm
        cases lo with
        | nil => exact absurd hrest (by simp)
        | cons c' lo =>
            obtain ⟨hprio', hwf', hins'⟩ := h.below c' (by simp)
            have hdepth : y.depth = 0 := by
              rcases hout with ho | hp
              · exact ho.2
              · have hwf := h.wf.2
                rw [hp] at hwf
                exact hwf
            have hins : y.inside = false ∧ y.pc ≠ .pendMasked := by
              rcases hout with ho | hp
              · simp [Ctx.inside, Ctx.masked, hdepth, ho.1]
              · simp [Ctx.inside, Ctx.masked, hdepth, hp]
            have hmask : y.masked = false ∧ c'.masked = false := by
              have h1 := hins.1
              simp only [Ctx.inside, Bool.or_eq_false_iff] at h1 hins'
              exact ⟨h1.1, hins'.1⟩
            have hnp' : c'.pc ≠ .pendMasked := by
              simp only [Ctx.inside, Bool.or_eq_false_iff] at hins'
              simpa using hins'.2
            refine ⟨[], c', lo, hrest, by simp, hprio', hwf', fun z hz => h.below z (by simp [hz]),
              h.others, h.taskPrio, ⟨h.regs.prev, ?_, ?_⟩, ?_, fun _ => rfl, ?_, h.shared⟩
            · rw [hmask.2]
              exact h.regs.basepri.trans (by rw [hmask.1])
            · rw [Ctx.depth_of_not_inside hins']
              exact h.regs.nest.trans hdepth
            · exact iff_of_false (fun hp => hins.2 (h.primask.mp hp)) hnp'
            · show exec serialStep none s.log = _
              rw [h.log, Ctx.holder, Ctx.holder, hins.1, hins']
              rfl
      · exact absurd hstep (by simp)

/-- **`PendSV_Handler` switches tasks**: neither of the two is in a section. -/
theorem switch (h : CritInv n f k₀ s [] c lo) (hn : n.Valid) {t : ℕ}
    (hstep : critStep n f s (.switch t) = some s') : ∃ hi' c' lo', CritInv n f k₀ s' hi' c' lo' := by
  have hst := h.stack
  unfold CritState.stack at hst
  simp only [critStep] at hstep
  split at hstep
  · rename_i hen
    obtain rfl := (Option.some.inj hstep).symm
    obtain ⟨y, hact⟩ := List.length_eq_one_iff.mp hen.2
    rw [hact] at hst
    obtain ⟨rfl, hlo⟩ := List.cons.inj hst
    -- the task that is switched out was below the handler
    obtain ⟨-, hwfc, hinsc⟩ := h.below (s.tasks s.current) (by rw [← hlo]; simp)
    have hall : ∀ i, (s.tasks i).Wf ∧ (s.tasks i).inside = false := fun i => by
      by_cases hi : i = s.current
      · rw [hi]
        exact ⟨hwfc, hinsc⟩
      · exact h.others i hi
    refine ⟨[], y, [s.tasks t], by simp [CritState.stack, hact], by simp, h.prio, h.wf, fun z hz => ?_,
      fun i _ => hall i, h.taskPrio, h.regs, h.primask, fun _ => rfl, h.log, h.shared⟩
    rw [List.mem_singleton] at hz
    subst hz
    have hle : n.threshold ≤ 0xE0 := hn.threshold_eq ▸ hn.le
    exact ⟨by rw [h.taskPrio]; omega, hall t⟩
  · exact absurd hstep (by simp)

/-- **Every disciplined step keeps the invariant.** -/
theorem step (h : CritInv n f k₀ s hi c lo) (hn : n.Valid) {a : CritAction Op}
    (hd : CritDisciplined n s a) (hstep : critStep n f s a = some s') :
    ∃ hi' c' lo', CritInv n f k₀ s' hi' c' lo' := by
  rcases hi with _ | ⟨x, hi⟩
  swap
  · exact h.step_urgent hn hd hstep
  have hrun := CritState.running_of_stack h.stack
  cases a with
  | enter =>
      obtain ⟨-, hdepth⟩ := hd
      simp only [critStep, hrun] at hstep hdepth
      split at hstep
      · rename_i hbody
        obtain rfl := (Option.some.inj hstep).symm
        rw [CritState.setRunning_eq]
        have hregs := h.regs.of_body .enterRead hbody (by simp [Ctx.masked])
        refine ⟨[], _, lo, h.move _ ⟨h.wf.1, hdepth⟩ rfl hregs ?_ ?_ rfl⟩
        · rw [h.primask, hbody]
          simp
        · simp [Ctx.holder, Ctx.inside, Ctx.masked, hbody]
      · exact absurd hstep (by simp)
  | exit =>
      simp only [critStep, hrun] at hstep
      split at hstep
      · rename_i hbody
        obtain rfl := (Option.some.inj hstep).symm
        rw [CritState.setRunning_eq]
        have hregs := h.regs.of_body .exitTest hbody.1 (by simp [Ctx.masked])
        refine ⟨[], _, lo, h.move _ ⟨h.wf.1, hbody.2⟩ rfl hregs ?_ ?_ rfl⟩
        · rw [h.primask, hbody.1]
          simp
        · simp [Ctx.holder, Ctx.inside, Ctx.masked, hbody.1]
      · exact absurd hstep (by simp)
  | access x =>
      simp only [critStep, hrun] at hstep
      split at hstep
      · rename_i hin
        obtain rfl := (Option.some.inj hstep).symm
        have hins : c.inside = true := by
          rcases hin with hb | hp
          · exact Ctx.inside_of_depth hb.2
          · simp [Ctx.inside, hp]
        refine ⟨[], c, lo, h.stack, by simp, h.prio, h.wf, h.below, h.others, h.taskPrio, h.regs,
          h.primask, fun _ => rfl, exec_append.mpr ⟨_, h.log, ?_⟩, ?_⟩
        · simp [exec, serialStep, Ctx.holder, hins]
        · show f x s.shared = _
          rw [runLog_append, ← h.shared]
          rfl
      · exact absurd hstep (by simp)
  | instr =>
      simp only [critStep, hrun] at hstep
      obtain ⟨⟨g, c'⟩, hinstr, rfl⟩ := Option.map_eq_some_iff.mp hstep
      obtain ⟨hwf, hg, -, hprio, hnp, hlog⟩ := critInstr_spec Op h.wf h.regs hinstr
      have hpm : s.primask = false := by
        by_contra hp
        have hpc := h.primask.mp (by simpa using hp)
        exact absurd hinstr (by simp [critInstr, hpc])
      have hmove := h.move s.primask hwf hprio hg (by simp [hpm, hnp]) hlog ?_
      · refine ⟨[], c', lo, ?_⟩
        rw [(s.setRunning_frame c').2.1.symm] at hmove
        exact hmove
      · unfold critMarks
        split <;> rfl
  | mask =>
      simp only [critStep, hrun] at hstep
      split at hstep
      · rename_i hpc
        obtain rfl := (Option.some.inj hstep).symm
        have hdepth : c.depth = 0 := by simpa [Ctx.Wf, hpc] using h.wf.2
        have hwf' : Ctx.Wf { c with pc := .pendMasked } := ⟨h.wf.1, hdepth⟩
        have hregs : s.regs.Of n { c with pc := .pendMasked } := by
          refine ⟨h.regs.prev, ?_, h.regs.nest⟩
          rw [h.regs.basepri]
          simp [Ctx.masked, hdepth, hpc]
        have hmark : exec serialStep c.holder ([.enter c.who] : List (Mark Who Op)) =
            some (Ctx.holder { c with pc := .pendMasked }) := by
          simp [exec, serialStep, Ctx.holder, Ctx.inside, Ctx.masked, hdepth, hpc]
        have hmove := h.move true hwf' rfl hregs (by simp) hmark rfl
        rw [← (s.setRunning_frame { c with pc := .pendMasked }).1] at hmove
        exact ⟨[], _, lo, hmove⟩
      · rename_i hpc
        obtain rfl := (Option.some.inj hstep).symm
        have hdepth : c.depth = 0 := by simpa [Ctx.Wf, hpc] using h.wf.2
        have hwf' : Ctx.Wf { c with pc := .pendExit } := ⟨h.wf.1, hdepth⟩
        have hregs : s.regs.Of n { c with pc := .pendExit } := by
          refine ⟨h.regs.prev, ?_, h.regs.nest⟩
          rw [h.regs.basepri]
          simp [Ctx.masked, hdepth, hpc]
        have hmark : exec serialStep c.holder ([.leave c.who] : List (Mark Who Op)) =
            some (Ctx.holder { c with pc := .pendExit }) := by
          simp [exec, serialStep, Ctx.holder, Ctx.inside, Ctx.masked, hdepth, hpc]
        have hmove := h.move false hwf' rfl hregs (by simp) hmark rfl
        rw [← (s.setRunning_frame { c with pc := .pendExit }).1] at hmove
        exact ⟨[], _, lo, hmove⟩
      · exact absurd hstep (by simp)
  | switch t => exact h.switch hn hstep
  | irq prio => exact h.exception hn (Or.inl rfl) hstep
  | pendsv => exact h.exception hn (Or.inr ⟨rfl, hn.threshold_le.1⟩) hstep
  | ret => exact h.ret hstep

/-- The more urgent contexts are in no section. -/
theorem urgent_inside (h : CritInv n f k₀ s hi c lo) {x : Ctx} (hx : x ∈ hi) : x.inside = false := by
  obtain ⟨-, hbody, hdepth⟩ := h.urgent x hx
  simp [Ctx.inside, Ctx.masked, hbody, hdepth]

/-- Whoever is inside is `c`, with the more urgent contexts above. -/
theorem eq_of_inside (h : CritInv n f k₀ s hi c lo) {above below : List Ctx} {x : Ctx}
    (hst : s.stack = above ++ x :: below) (hx : x.inside = true) : above = hi ∧ x = c := by
  have hno : ∀ y, y.inside = false → y ≠ x := by
    rintro y hy rfl
    exact absurd (hy.symm.trans hx) (by simp)
  rcases List.append_eq_append_iff.mp (h.stack.symm.trans hst) with ⟨l, hl, hrest⟩ | ⟨l, hl, hrest⟩
  · cases l with
    | nil => exact ⟨by simpa using hl, (List.cons.inj hrest).1.symm⟩
    | cons y ys =>
        have hmem : x ∈ lo := by
          rw [(List.cons.inj hrest).2]
          simp
        exact absurd rfl (hno x (h.below x hmem).2.2)
  · cases l with
    | nil => exact ⟨by simpa using hl.symm, (List.cons.inj hrest).1⟩
    | cons y ys =>
        have hmem : x ∈ hi := by
          rw [hl, (List.cons.inj hrest).1]
          simp
        exact absurd rfl (hno x (h.urgent_inside hmem))

/-- If `c` is not inside, nobody is. -/
theorem inside_false (h : CritInv n f k₀ s hi c lo) (hc : c.inside = false) :
    ∀ x ∈ s.stack, x.inside = false := by
  intro x hx
  rw [h.stack] at hx
  rcases List.mem_append.mp hx with hx | hx
  · exact h.urgent_inside hx
  · rcases List.mem_cons.mp hx with rfl | hx
    · exact hc
    · exact (h.below x hx).2.2

/-- After reset `main` is in no section. -/
theorem of_reset (hn : n.Valid) (k₀ : K) :
    CritInv n f k₀ (.reset k₀) [] ⟨.task 0, 256, .body, 0⟩ [] := by
  have hle : n.threshold ≤ 0xE0 := hn.threshold_eq ▸ hn.le
  have hwf : ∀ i, Ctx.Wf ⟨.task i, 256, .body, 0⟩ := fun i => ⟨Nat.two_pow_pos 32, trivial⟩
  exact ⟨rfl, by simp, by show n.threshold ≤ 256; omega, hwf 0, by simp, fun i _ => ⟨hwf i, rfl⟩,
    fun _ => rfl, ⟨rfl, rfl, rfl⟩, by simp [CritState.reset], fun _ => rfl, rfl, rfl⟩

/-- **The invariant of a disciplined run.** -/
theorem of_run (hn : n.Valid) {as : List (CritAction Op)}
    (hrun : exec (critStep n f) (.reset k₀) as = some s)
    (hd : Along (critStep n f) (CritDisciplined n) (.reset k₀) as) :
    ∃ hi c lo, CritInv n f k₀ s hi c lo :=
  exec_invariant (I := fun s => ∃ hi c lo, CritInv n f k₀ s hi c lo)
    (fun _ _ _ ⟨_, _, _, h⟩ ha hstep => h.step hn ha hstep) ⟨_, _, _, of_reset hn k₀⟩ hd hrun

end CritInv

/-! ## Results -/

section Results

variable {K Op : Type*} {n : Nvic} {f : Op → K → K} {k₀ : K} {s : CritState K Op}
  {as : List (CritAction Op)}

/-- **Critical sections exclude each other.** In every disciplined run, however interrupts nest and
tasks are switched:

* of all contexts at most one is inside a section, and it is one of those that execute or have been
  interrupted, never a task that has been switched out;
* while a context is inside by `BASEPRI`, the register holds the threshold, `g_cs_nest` is the number of
  sections that context is in, and what has interrupted it is more urgent than the threshold;
* when nobody is inside, nothing is masked and `g_cs_nest` is zero. -/
theorem critical_sections_exclusive (hn : n.Valid)
    (hrun : exec (critStep n f) (.reset k₀) as = some s)
    (hd : Along (critStep n f) (CritDisciplined n) (.reset k₀) as) :
    (s.stack.filter Ctx.inside).length ≤ 1 ∧ (∀ i, i ≠ s.current → (s.tasks i).inside = false) ∧
    (∀ above c below, s.stack = above ++ c :: below → c.masked = true →
      s.regs.basepri = n.threshold ∧ s.regs.csNest = c.depth ∧ ∀ x ∈ above, x.prio < n.threshold) ∧
    ((∀ c ∈ s.stack, c.inside = false) →
      s.regs.basepri = 0 ∧ s.regs.csNest = 0 ∧ s.primask = false) := by
  obtain ⟨hi, c, lo, h⟩ := CritInv.of_run hn hrun hd
  refine ⟨?_, fun i hi => (h.others i hi).2, fun above x below hst hx => ?_, fun hout => ?_⟩
  · have hhi : hi.filter Ctx.inside = [] :=
      List.filter_eq_nil_iff.mpr fun x hx => by simp [h.urgent_inside hx]
    have hlo : lo.filter Ctx.inside = [] :=
      List.filter_eq_nil_iff.mpr fun x hx => by simp [(h.below x hx).2.2]
    rw [h.stack, List.filter_append, List.filter_cons, hhi, hlo]
    split <;> simp
  · obtain ⟨rfl, rfl⟩ := h.eq_of_inside hst (by simp [Ctx.inside, hx])
    exact ⟨by rw [h.regs.basepri, if_pos hx], h.regs.nest, fun y hy => (h.urgent y hy).1⟩
  · have hc : c.inside = false := hout c (by rw [h.stack]; simp)
    have hmask : c.masked = false ∧ ¬ c.pc = .pendMasked := by
      simpa [Ctx.inside] using hc
    refine ⟨by rw [h.regs.basepri, hmask.1]; rfl, h.regs.nest.trans (Ctx.depth_of_not_inside hc), ?_⟩
    simpa using fun hp => hmask.2 (h.primask.mp hp)

/-- The instructions of the outermost `hrt_port_crit_enter`, and of the exit that matches it. -/
def enterAll : List (CritAction ℕ) := .enter :: List.replicate 6 .instr

@[inherit_doc enterAll]
def exitAll : List (CritAction ℕ) := .exit :: List.replicate 5 .instr

/-- A task has found `g_cs_nest` zero and is about to mask, when an interrupt is taken that uses the
kernel itself; then the task goes on, and is interrupted inside by one that does not. -/
def interruptedEnter : List (CritAction ℕ) :=
  [.enter, .instr, .instr, .irq 0x60] ++ enterAll ++ [.access 1] ++ exitAll ++
    [.ret, .instr, .instr, .instr, .instr, .access 2, .irq 0x20]

/-- The shared data of the runs: the digits written so far. -/
def writeDigit (x k : ℕ) : ℕ := 10 * k + x

/-- The task is inside, with the default threshold in `BASEPRI`. -/
theorem critical_sections_exclusive_interrupted :
    ∃ s, exec (critStep .default writeDigit) (.reset 0) interruptedEnter = some s ∧
      s.regs.basepri = 0x50 ∧ s.regs.csNest = 1 := by
  have heval : ((exec (critStep .default writeDigit) (.reset 0) interruptedEnter).map fun s => s.stack) =
      some [⟨.handler 1, 0x20, .body, 0⟩, ⟨.task 0, 256, .body, 1⟩] := by
    decide +kernel
  obtain ⟨s, hs, hstack⟩ := Option.map_eq_some_iff.mp heval
  obtain ⟨-, -, hmask, -⟩ := critical_sections_exclusive Nvic.default_valid hs (by decide +kernel)
  obtain ⟨hbase, hnest, -⟩ := hmask [⟨.handler 1, 0x20, .body, 0⟩] ⟨.task 0, 256, .body, 1⟩ [] hstack rfl
  exact ⟨s, hs, hbase, hnest⟩

/-- **A threshold of zero masks nothing**: the build option that the header does not rule out lets an
interrupt into the section it has interrupted. -/
theorem critical_sections_overlap :
    ∃ s, exec (critStep ⟨4, 0⟩ writeDigit) (.reset 0) (enterAll ++ [.irq 0x60, .enter, .instr, .instr,
        .instr, .instr]) = some s ∧
      Along (critStep ⟨4, 0⟩ writeDigit) (CritDisciplined ⟨4, 0⟩) (.reset 0)
        (enterAll ++ [.irq 0x60, .enter, .instr, .instr, .instr, .instr]) ∧
      (s.stack.filter Ctx.inside).length = 2 := by
  have heval : ((exec (critStep ⟨4, 0⟩ writeDigit) (.reset 0) (enterAll ++ [.irq 0x60, .enter, .instr,
      .instr, .instr, .instr])).map fun s => (s.stack.filter Ctx.inside).length) = some 2 := by
    decide +kernel
  obtain ⟨s, hs, hlen⟩ := Option.map_eq_some_iff.mp heval
  exact ⟨s, hs, by decide +kernel, hlen⟩

/-- **Critical sections are atomic.** In every disciplined run the log of the accesses to the shared data
is a sequence of whole sections, and at most one more that is still open; the shared data are what those
sections make of the initial data when each is executed in one step. -/
theorem critical_sections_serial (hn : n.Valid)
    (hrun : exec (critStep n f) (.reset k₀) as = some s)
    (hd : Along (critStep n f) (CritDisciplined n) (.reset k₀) as) :
    ∃ (blocks : List (Block Who Op)) (last : Option (Block Who Op)),
      s.log = blocks.flatMap Block.marks ++ last.elim [] Block.opened ∧
      s.shared = last.elim id (Block.effect f) (blocks.foldl (fun k b => b.effect f k) k₀) ∧
      (∀ b ∈ last, ∃ c ∈ s.stack, c.inside = true ∧ c.who = b.who) ∧
      (last = none → ∀ c ∈ s.stack, c.inside = false) := by
  obtain ⟨hi, c, lo, h⟩ := CritInv.of_run hn hrun hd
  obtain ⟨blocks, last, hlast, hlog⟩ := exists_blocks h.log
  refine ⟨blocks, last, hlog, ?_, fun b hb => ?_, fun hnone => ?_⟩
  · rw [h.shared, hlog, runLog_append, runLog_blocks]
    cases last with
    | none => rfl
    | some b => exact runLog_opened f _ b
  · obtain rfl : last = some b := hb
    unfold Ctx.holder at hlast
    split at hlast
    · rename_i hins
      exact ⟨c, by rw [h.stack]; simp, hins, (Option.some.inj hlast).symm⟩
    · exact absurd hlast (by simp)
  · subst hnone
    refine h.inside_false ?_
    simpa [Ctx.holder] using hlast

/-- The task writes another digit and leaves; `PendSV` switches to a second task. -/
def thenSwitched : List (CritAction ℕ) :=
  [.ret, .access 3] ++ exitAll ++ [.pendsv, .mask, .access 4, .switch 1, .mask, .ret] ++ enterAll ++
    [.access 5] ++ exitAll

/-- The five digits are those of four sections. -/
theorem critical_sections_serial_switched :
    ∃ s, ∃ blocks : List (Block Who ℕ),
      exec (critStep .default writeDigit) (.reset 0) (interruptedEnter ++ thenSwitched) = some s ∧
      s.current = 1 ∧ s.shared = 12345 ∧ s.log = blocks.flatMap Block.marks ∧
      s.shared = blocks.foldl (fun k b => b.effect writeDigit k) 0 := by
  have heval : ((exec (critStep .default writeDigit) (.reset 0) (interruptedEnter ++ thenSwitched)).map
      fun s => (s.current, s.shared, s.stack.filter Ctx.inside)) = some (1, 12345, []) := by
    decide +kernel
  obtain ⟨s, hs, hv⟩ := Option.map_eq_some_iff.mp heval
  simp only [Prod.mk.injEq] at hv
  obtain ⟨hcur, hshared, hout⟩ := hv
  obtain ⟨blocks, last, hlog, heff, hopen, -⟩ :=
    critical_sections_serial Nvic.default_valid hs (by decide +kernel)
  cases last with
  | none => exact ⟨s, blocks, hs, hcur, hshared, by simpa using hlog, heff⟩
  | some b =>
      obtain ⟨c, hc, hins, -⟩ := hopen b rfl
      exact absurd hins (by simpa using List.filter_eq_nil_iff.mp hout c hc)

end Results

end CortexM

end HardRT
