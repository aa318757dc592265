import HardRT.Ports.TickTimer
import Mathlib.Logic.Function.Basic

/-! # The POSIX process and its signal mask

`src/port/posix/port_posix.c` keeps the tick out of critical regions by blocking `SIGALRM`. It does so
in three ways that share one process mask: critical sections count their nesting in the global
`g_crit_depth` and unblock unconditionally when it drops to zero; `hrt_port_yield_to_scheduler` and the
scheduler loop save the mask in a local variable and put it back; and every `swapcontext` stores the
mask in the context that is left and loads the one of the context that is entered, for a new task the
mask `getcontext` saw when the task was created.

Here these functions are taken step by step. A tick may arrive before every step at which the mask lets
it; tasks create tasks, yield, return through `uc_link`, and the loop picks whom it likes.

* `SigPc`, `SigCtx`, `Signals` — where each context is, and the process.
* `sigInstr` — the steps of a context that stays on the CPU.
* `sigStep` — the machine. -/

namespace HardRT

namespace Posix

/-! ## Contexts -/

/-- **Where a context is**: in code of its own or of the kernel, or before one of the steps of the
port's functions. Local variables that have been read are arguments. -/
inductive SigPc
  | body
  /-- `hrt_port_crit_enter`: the load of `g_crit_depth++`. -/
  | enterLoad
  /-- Its store. -/
  | enterStore (v : ℤ)
  /-- `== 0`, on the value before the increment. -/
  | enterTest (v : ℤ)
  /-- `sigprocmask(SIG_BLOCK, &g_sigalrm_set, NULL)`. -/
  | enterBlock
  /-- `hrt_port_crit_exit`: the load of `--g_crit_depth`. -/
  | exitLoad
  /-- Its store. -/
  | exitStore (v : ℤ)
  /-- `== 0`, on the value after the decrement. -/
  | exitTest (v : ℤ)
  /-- `sigprocmask(SIG_UNBLOCK, &g_sigalrm_set, NULL)`. -/
  | exitUnblock
  /-- `hrt_port_yield_to_scheduler`: `block_sigalrm(&old)`. -/
  | yieldBlock
  /-- `swapcontext(&g_ctxs[cur].ctx, &g_sched_ctx)`. -/
  | yieldSwap (old : Bool)
  /-- `unblock_sigalrm(&old)`. -/
  | yieldBack (old : Bool)
  /-- The context has returned through `uc_link`. -/
  | gone
  /-- `hrt_port_start_systick`: `sigemptyset(&g_sigalrm_set)`. -/
  | initEmpty
  /-- `sigaddset(&g_sigalrm_set, SIGALRM)`. -/
  | initAdd
  /-- `sigaction` and `setitimer`. -/
  | initArm
  /-- `hrt_port_enter_scheduler`: `if (!g_switch_pending)`. -/
  | loopTest
  /-- `g_switch_pending = 0`. -/
  | loopClear
  /-- `block_sigalrm(&old)`. -/
  | loopBlock
  /-- `hrt__pick_next_ready()`. -/
  | loopPick (old : Bool)
  /-- `unblock_sigalrm(&old)` when nobody is ready. -/
  | loopNone (old : Bool)
  /-- `hrt__set_current(next)` and `swapcontext(&g_sched_ctx, &g_ctxs[next].ctx)`. -/
  | loopSwap (old : Bool) (next : ℕ)
  /-- `hrt__on_scheduler_entry()`. -/
  | loopEntry (old : Bool)
  /-- `unblock_sigalrm(&old)` after a task has come back. -/
  | loopUnblock (old : Bool)
  deriving DecidableEq, Repr

namespace SigPc

/-- The context is in the scheduler loop. -/
def inLoop : SigPc → Bool
  | .loopTest | .loopClear | .loopBlock | .loopPick _ | .loopNone _ | .loopSwap _ _ | .loopEntry _
  | .loopUnblock _ => true
  | _ => false

/-- The context is in `hrt_port_start_systick`. -/
def inInit : SigPc → Bool
  | .initEmpty | .initAdd | .initArm => true
  | _ => false

/-- The loop does not start the timer. -/
theorem inInit_of_inLoop (pc : SigPc) (h : pc.inLoop = true) : pc.inInit = false := by
  cases pc <;> first | rfl | cases h

/-- The task the context is about to swap to. -/
def target : SigPc → Option ℕ
  | .loopSwap _ next => some next
  | _ => none

end SigPc

/-- **A context**: where it is, how many critical sections it is in, and the mask that `getcontext` or
the last `swapcontext` has saved in it (`true`: `SIGALRM` is blocked). -/
structure SigCtx where
  pc : SigPc
  depth : ℕ
  mask : Bool
  deriving DecidableEq, Repr

/-- The context at another place. -/
def SigCtx.goto (c : SigCtx) (pc : SigPc) : SigCtx := { c with pc := pc }

/-- The process mask, as far as `SIGALRM` is concerned, and `g_crit_depth`. -/
structure SigRegs where
  blocked : Bool
  critDepth : ℤ
  deriving DecidableEq, Repr

/-- **The next step of a context that stays on the CPU**; `set` says whether `SIGALRM` is in
`g_sigalrm_set`. -/
def sigInstr (set : Bool) (g : SigRegs) (c : SigCtx) : Option (SigRegs × SigCtx) :=
  match c.pc with
  | .enterLoad => some (g, { c with pc := .enterStore g.critDepth })
  | .enterStore v => some ({ g with critDepth := v + 1 }, { c with pc := .enterTest v })
  | .enterTest v =>
      if v = 0 then some (g, { c with pc := .enterBlock })
      else some (g, { c with pc := .body, depth := c.depth + 1 })
  | .enterBlock =>
      some ({ g with blocked := g.blocked || set }, { c with pc := .body, depth := c.depth + 1 })
  | .exitLoad => some (g, { c with pc := .exitStore g.critDepth })
  | .exitStore v =>
      some ({ g with critDepth := v - 1 }, { c with pc := .exitTest (v - 1), depth := c.depth - 1 })
  | .exitTest v =>
      if v = 0 then some (g, { c with pc := .exitUnblock }) else some (g, { c with pc := .body })
  | .exitUnblock => some ({ g with blocked := g.blocked && !set }, { c with pc := .body })
  | .yieldBlock =>
      some ({ g with blocked := g.blocked || set }, { c with pc := .yieldSwap g.blocked })
  | .yieldBack old => some ({ g with blocked := old }, { c with pc := .body })
  | .loopClear => some (g, { c with pc := .loopBlock })
  | .loopBlock => some ({ g with blocked := g.blocked || set }, { c with pc := .loopPick g.blocked })
  | .loopNone old => some ({ g with blocked := old }, { c with pc := .loopTest })
  | .loopEntry old => some (g, { c with pc := .loopUnblock old })
  | .loopUnblock old => some ({ g with blocked := old }, { c with pc := .loopTest })
  | .body | .yieldSwap _ | .gone | .initEmpty | .initAdd | .initArm | .loopTest | .loopPick _
  | .loopSwap _ _ => none

/-! ## The process -/

/-- Where `_tick_sighandler` is: in `hrt__tick_isr`, before `g_switch_pending = 1`, or at its end. -/
inductive HandlerPc
  | isr
  | pend
  | ret
  deriving DecidableEq, Repr

/-- **The process**: `SIGALRM` in `g_sigalrm_set`, the timer running, the mask, the handler that has
been entered with the mask to restore, the context of `main` and the scheduler loop, those of the tasks
with `g_ctxs[].valid`, and which of them executes (`none` for the loop). -/
structure Signals where
  alrmSet : Bool
  armed : Bool
  regs : SigRegs
  handler : Option (HandlerPc × Bool)
  loop : SigCtx
  tasks : ℕ → SigCtx
  valid : ℕ → Bool
  running : Option ℕ

namespace Signals

/-- The context that executes, or that the handler has interrupted. -/
def ctx (s : Signals) : SigCtx :=
  match s.running with
  | none => s.loop
  | some t => s.tasks t

/-- It has made a step to `c` that left the registers as `g`. -/
def put (s : Signals) (g : SigRegs) (c : SigCtx) : Signals :=
  match s.running with
  | none => { s with regs := g, loop := c }
  | some t => { s with regs := g, tasks := Function.update s.tasks t c }

/-- It goes to another place. -/
def goto (s : Signals) (pc : SigPc) : Signals := s.put s.regs (s.ctx.goto pc)

/-- Task `t` gives the CPU to the loop and is left as `c`: the loop goes on behind its own `swapcontext`,
with the mask it had there. -/
def toLoop (s : Signals) (t : ℕ) (c : SigCtx) : Signals :=
  { s with
    tasks := Function.update s.tasks t c
    running := none
    regs := { s.regs with blocked := s.loop.mask } }

/-- The loop gives the CPU to task `next` and is left as `c`. -/
def toTask (s : Signals) (next : ℕ) (c : SigCtx) : Signals :=
  { s with
    loop := c
    running := some next
    regs := { s.regs with blocked := (s.tasks next).mask } }

/-- When the program starts, `main` runs with `SIGALRM` unblocked and no timer. -/
def main : Signals where
  alrmSet := false
  armed := false
  regs := ⟨false, 0⟩
  handler := none
  loop := ⟨.body, 0, false⟩
  tasks := fun _ => ⟨.body, 0, false⟩
  valid := fun _ => false
  running := none

end Signals

/-- What can happen next. -/
inductive SigAction (Op : Type*)
  /-- The context that executes calls `hrt_port_crit_enter`. -/
  | enter
  /-- It calls `hrt_port_crit_exit`, for a section it is in. -/
  | exit
  /-- A task calls `hrt_port_yield_to_scheduler`, outside of sections. -/
  | yield
  /-- The context that executes prepares the context of a new task `i`. -/
  | create (i : ℕ)
  /-- The function of a task returns to `uc_link`. -/
  | finish
  /-- `main` calls `hrt_init`, which calls `hrt_port_start_systick`. -/
  | init
  /-- `main` calls `hrt_start`. -/
  | start
  /-- Work on the data of the kernel: in a section, in the masked part of the loop, or in
  `hrt__tick_isr`. -/
  | work (x : Op)
  /-- The next step of one of the port's functions, or of the handler. -/
  | instr
  /-- The loop finds `g_switch_pending` set or clear. -/
  | poll (pending : Bool)
  /-- `hrt__pick_next_ready` has returned a task, or nobody. -/
  | pick (next : Option ℕ)
  /-- `SIGALRM` is delivered. -/
  | tick
  deriving DecidableEq, Repr

section Machine

variable {Op : Type*} (src : TickSource)

/-- The places outside the handler at which the kernel works on its data under the mask. -/
def SigCtx.working (c : SigCtx) : Bool :=
  match c.pc with
  | .body => 0 < c.depth
  | .loopPick _ | .loopSwap _ _ | .loopEntry _ => true
  | _ => false

/-- The steps of `_tick_sighandler`. The kernel restores the mask when it returns. -/
def handlerStep (s : Signals) (pc : HandlerPc) (saved : Bool) : SigAction Op → Option Signals
  | .work _ => if pc = .isr then some s else none
  | .instr =>
      match pc with
      | .isr => some { s with handler := some (.pend, saved) }
      | .pend => some { s with handler := some (.ret, saved) }
      | .ret => some { s with handler := none, regs := { s.regs with blocked := saved } }
  | _ => none

/-- The steps that are not of `sigInstr`: switches between contexts, and the start of the timer. -/
def switchStep (s : Signals) : Option Signals :=
  match s.running, s.ctx.pc with
  | some t, .yieldSwap old => some (s.toLoop t ⟨.yieldBack old, s.ctx.depth, s.regs.blocked⟩)
  | none, .loopSwap old next => some (s.toTask next ⟨.loopEntry old, s.ctx.depth, s.regs.blocked⟩)
  | none, .initEmpty => some { s.goto .initAdd with alrmSet := false }
  | none, .initAdd => some { s.goto .initArm with alrmSet := true }
  | none, .initArm => some { s.goto .body with armed := true }
  | _, _ => none

/-- The steps of the thread, no handler being active. -/
def threadStep (s : Signals) : SigAction Op → Option Signals
  | .enter =>
      -- `g_crit_depth` is an `int`
      if s.ctx.pc = .body ∧ s.ctx.depth + 1 < 2 ^ 31 then
        some (s.goto .enterLoad)
      else none
  | .exit =>
      if s.ctx.pc = .body ∧ 0 < s.ctx.depth then some (s.goto .exitLoad) else none
  | .yield =>
      if s.ctx.pc = .body ∧ s.ctx.depth = 0 ∧ s.running.any s.valid then
        some (s.goto .yieldBlock)
      else none
  | .create i =>
      if s.ctx.pc = .body ∧ s.ctx.depth = 0 ∧ s.running ≠ some i then
        some { s with
          tasks := Function.update s.tasks i ⟨.body, 0, s.regs.blocked⟩
          valid := Function.update s.valid i true }
      else none
  | .finish =>
      match s.running with
      | none => none
      | some t =>
          if s.ctx.pc = .body ∧ s.ctx.depth = 0 then some (s.toLoop t (s.ctx.goto .gone)) else none
  | .init =>
      if s.running = none ∧ s.ctx.pc = .body ∧ s.ctx.depth = 0 then
        if src = .external then some s else some (s.goto .initEmpty)
      else none
  | .start =>
      if s.running = none ∧ s.ctx.pc = .body ∧ s.ctx.depth = 0 then
        some (s.goto .loopTest)
      else none
  | .work _ => if s.ctx.working then some s else none
  | .instr =>
      match sigInstr s.alrmSet s.regs s.ctx with
      | some r => some (s.put r.1 r.2)
      | none => switchStep s
  | .poll pending =>
      if s.ctx.pc = .loopTest then
        some (s.goto (if pending then .loopClear else .loopTest))
      else none
  | .pick next =>
      match s.ctx.pc, next with
      | .loopPick old, none => some (s.goto (.loopNone old))
      | .loopPick old, some t =>
          if s.valid t ∧ (s.tasks t).pc ≠ .gone then
            some (s.goto (.loopSwap old t))
          else none
      | _, _ => none
  | .tick =>
      -- delivery blocks the signal until the handler returns
      if s.armed = true ∧ s.regs.blocked = false then
        some { s with handler := some (.isr, s.regs.blocked), regs := { s.regs with blocked := true } }
      else none

/-- **The machine.** A handler runs to its end before the thread goes on. -/
def sigStep (s : Signals) (a : SigAction Op) : Option Signals :=
  match s.handler with
  | some (pc, saved) => handlerStep s pc saved a
  | none => threadStep src s a

/-- An action that is none of the handler's is one of the thread, no handler being active. -/
theorem sigStep_thread {s s' : Signals} {a : SigAction Op} (ha : a ≠ .instr ∧ ∀ x, a ≠ .work x)
    (h : sigStep src s a = some s') : s.handler = none ∧ threadStep src s a = some s' := by
  unfold sigStep at h
  split at h
  · cases a with
    | instr => exact absurd rfl ha.1
    | work x => exact absurd rfl (ha.2 x)
    | _ => exact absurd h (by simp [handlerStep])
  · exact ⟨‹_›, h⟩

/-- A creation leaves the context that executes alone. -/
theorem threadStep_create {s s' : Signals} {i : ℕ}
    (h : threadStep src s (.create i : SigAction Op) = some s') :
    s'.ctx = s.ctx ∧ s'.running = s.running ∧ s'.handler = s.handler := by
  simp only [threadStep] at h
  split at h
  · rename_i hc
    obtain rfl := Option.some.inj h
    refine ⟨?_, rfl, rfl⟩
    unfold Signals.ctx
    cases hr : s.running with
    | none => rfl
    | some t =>
        have hti : t ≠ i := fun e => hc.2.2 (e ▸ hr)
        exact Function.update_of_ne hti _ _
  · exact absurd h (by simp)

end Machine

/-! ## Steps of the context that executes -/

namespace Signals

variable (s : Signals) (g : SigRegs) (c : SigCtx)

@[simp] theorem ctx_put : (s.put g c).ctx = c := by
  unfold put ctx
  cases s.running <;> simp

@[simp] theorem put_running : (s.put g c).running = s.running := by
  unfold put
  split <;> simp_all

@[simp] theorem put_valid : (s.put g c).valid = s.valid := by
  unfold put
  split <;> rfl

@[simp] theorem put_alrmSet : (s.put g c).alrmSet = s.alrmSet := by
  unfold put
  split <;> rfl

@[simp] theorem put_armed : (s.put g c).armed = s.armed := by
  unfold put
  split <;> rfl

@[simp] theorem put_regs : (s.put g c).regs = g := by
  unfold put
  split <;> rfl

@[simp] theorem put_handler : (s.put g c).handler = s.handler := by
  unfold put
  split <;> rfl

/-- The tasks that do not execute keep their contexts. -/
theorem put_tasks {t : ℕ} (ht : s.running ≠ some t) : (s.put g c).tasks t = s.tasks t := by
  unfold put
  split
  · rfl
  · rename_i u hu
    have hne : t ≠ u := fun h => ht (h ▸ hu)
    exact Function.update_of_ne hne _ _

/-- While a task executes the loop keeps its context. -/
theorem put_loop (h : s.running ≠ none) : (s.put g c).loop = s.loop := by
  unfold put
  split
  · exact absurd ‹_› h
  · rfl

end Signals

end Posix

end HardRT
