import HardRT.Posix.SignalMask
import HardRT.Posix.System

/-! # What the POSIX machine leaves out

The machine of `HardRT.Posix.System` takes the masked parts of the port as single steps: the loop picks a
task, makes it current and swaps to it at once, and a task that yields is back in the loop, with
`hrt__on_scheduler_entry` done. Here the same kernel runs in the process of `HardRT.Posix.Signals`, one
step of the port's functions at a time, and the two are compared.

* `Proc`, `procStep` — the kernel inside the process.
* `Proc.abs` — the machine state a process state stands for: the one after the region in progress.
* `process_refines` — every run of the process is a run of the machine. -/

namespace HardRT

open Lib

namespace Posix

/-! ## The kernel inside the process -/

/-- The process and the kernel with its tasks. -/
structure Proc where
  sig : Signals
  sys : Sys

/-- **The next action of task `t` is a critical section.** The other actions are core functions that
take none: `hrt_create_task`, `hrt_yield`, `hrt_sleep`, the two setters and
`hrt__pend_context_switch`. -/
def sectioned (sz : Sizing) (t : ℕ) (c : Call) : Cont → Bool
  | .user =>
      match c with
      | .createTask _ | .yield | .sleep _ | .setPolicy _ | .setDefaultTimeslice _ => false
      | .taskDelete => t ≠ sz.idleId
      | .mutexTryLock _ | .mutexLock _ | .mutexUnlock _ => t < sz.maxTasks
      | .semTryTake _ | .semTake _ | .semGive _ | .queueTrySend _ _ | .queueSend _ _ | .queueTryRecv _
      | .queueRecv _ => true
  | .resumed (.sendAgain _ _) | .resumed (.recvAgain _) | .semTake _ | .mutexLock _ | .queueSend _ _
  | .queueRecv _ => true
  | .none | .yield _ | .pend _ | .hop _ | .resumed (.ret _ _) => false

/-- What can happen next. -/
inductive ProcAction
  /-- `main` makes a call, before the scheduler is started. -/
  | main (c : MainCall)
  /-- `hrt_init` starts the timer. -/
  | init
  /-- `hrt_start`. -/
  | start
  /-- The task that executes takes its next action, issuing `c` if it is between calls. -/
  | task (c : Call)
  /-- It calls `hrt_port_crit_enter`. -/
  | enter
  /-- It calls `hrt_port_crit_exit`. -/
  | exit
  /-- It calls `hrt_port_yield_to_scheduler`. -/
  | yield
  /-- Its function has ended and `hrt__task_trampoline` returns to `uc_link`. -/
  | finish
  /-- The next step of one of the port's functions, or of the handler. -/
  | instr
  /-- The loop looks at `g_switch_pending`. -/
  | poll
  /-- The loop calls `hrt__pick_next_ready`. -/
  | pick
  /-- `SIGALRM` is delivered. -/
  | tick
  deriving DecidableEq, Repr

section Machine

variable (sz : Sizing) (src : TickSource)

/-- Contexts as `hrt_port_prepare_task_stack` leaves them, if a task was created. -/
def created (s : Signals) : Option ℕ → Option Signals
  | none => some s
  | some id => sigStep src s (.create id : SigAction Unit)

/-- The slot in which a call of `main` builds a context. -/
def mainSpawn (k : Kernel) : MainCall → Option ℕ
  | .createTask a => (hrtCreateTask sz .posix a k).1
  | .setPolicy _ | .setDefaultTimeslice _ => none

/-- What the next step of the handler or of the port's functions does to the kernel. -/
def instrEffect (p : Proc) : Sys :=
  match p.sig.handler with
  | some (.isr, _) => { p.sys with k := hrtTickIsr sz p.sys.k }
  | some (.pend, _) => { p.sys with k := p.sys.k.hrtPendContextSwitch }
  | some (.ret, _) => p.sys
  | none =>
      match p.sig.running, p.sig.ctx.pc with
      | some t, .yieldSwap _ =>
          -- the task goes on behind the call
          match p.sys.conts t with
          | .hop a => p.sys.land t a
          | _ => p.sys
      | none, .loopClear => { p.sys with k := { p.sys.k with pend := false } }
      | none, .loopSwap _ next => { p.sys with k := { p.sys.k with current := some next } }
      | none, .loopEntry _ => { p.sys with k := hrtOnSchedulerEntry sz p.sys.k }
      | _, _ => p.sys

/-- **The process with its kernel.** The context of a trampoline that has returned is not resumed again:
`Signals` has it as gone, and to swap to it is undefined. -/
def procStep (p : Proc) : ProcAction → Option Proc
  | .main c =>
      if p.sig.handler = none ∧ p.sig.running = none ∧ p.sig.ctx.pc = .body then
        (created src p.sig (mainSpawn sz p.sys.k c)).map fun sig => ⟨sig, p.sys.main sz .posix c⟩
      else none
  | .task c =>
      match p.sig.running with
      | none => none
      | some t =>
          if p.sig.handler = none ∧ p.sig.ctx.pc = .body ∧
              decide (0 < p.sig.ctx.depth) = sectioned sz t c (p.sys.conts t) then
            (nextAction sz .posix t c p.sys.k (p.sys.conts t)).bind fun o =>
              (created src p.sig o.spawn).map fun sig => ⟨sig, p.sys.apply t o⟩
          else none
  | .yield =>
      match p.sig.running with
      | none => none
      | some t =>
          match p.sys.conts t with
          | .hop _ => (sigStep src p.sig (.yield : SigAction Unit)).map fun sig => ⟨sig, p.sys⟩
          | _ => none
  | .finish =>
      match p.sig.running with
      | none => none
      | some t =>
          if Exited t (p.sys.k.stateOf t) (p.sys.conts t) p.sys.log then
            (sigStep src p.sig (.finish : SigAction Unit)).map fun sig =>
              ⟨sig, p.sys.land t (.ret .taskDelete 0)⟩
          else none
  | .init => (sigStep src p.sig (.init : SigAction Unit)).map fun sig => ⟨sig, p.sys⟩
  | .start =>
      (sigStep src p.sig (.start : SigAction Unit)).map fun sig =>
        ⟨sig, { p.sys with k := p.sys.k.hrtPendContextSwitch }⟩
  | .enter => (sigStep src p.sig (.enter : SigAction Unit)).map fun sig => ⟨sig, p.sys⟩
  | .exit => (sigStep src p.sig (.exit : SigAction Unit)).map fun sig => ⟨sig, p.sys⟩
  | .instr => (sigStep src p.sig (.instr : SigAction Unit)).map fun sig => ⟨sig, instrEffect sz p⟩
  | .poll => (sigStep src p.sig (.poll p.sys.k.pend : SigAction Unit)).map fun sig => ⟨sig, p.sys⟩
  | .pick =>
      let r := hrtPickNextReady sz p.sys.k
      (sigStep src p.sig (.pick (if r.1 = sz.idleId then none else some r.1) : SigAction Unit)).map
        fun sig => ⟨sig, { p.sys with k := r.2 }⟩
  | .tick => (sigStep src p.sig (.tick : SigAction Unit)).map fun sig => ⟨sig, p.sys⟩

end Machine

/-! ## What a state stands for -/

/-- Where the machine's loop is when `main` or the loop executes at `pc`. -/
def SigPc.mode : SigPc → Mode
  | .loopTest | .loopClear | .loopNone _ | .loopEntry _ | .loopUnblock _ => .head
  | .loopBlock | .loopPick _ => .cleared
  | .loopSwap _ _ => .running
  | _ => .boot

/-- Where the machine's loop is. -/
def Signals.mode (s : Signals) : Mode :=
  match s.running with
  | some _ => .running
  | none => s.ctx.pc.mode

/-- What the loop has left to do of a masked region: to make the picked task current, or to note that a
task has come back. -/
def SigPc.rest (sz : Sizing) (pc : SigPc) (k : Kernel) : Kernel :=
  match pc with
  | .loopSwap _ next => { k with current := some next }
  | .loopEntry _ => hrtOnSchedulerEntry sz k
  | _ => k

/-- The system once the handler has set `g_switch_pending`. -/
def Proc.settled (p : Proc) : Sys :=
  match p.sig.handler with
  | some (.pend, _) => { p.sys with k := p.sys.k.hrtPendContextSwitch }
  | _ => p.sys

/-- **The system after the region in progress.** -/
def Proc.region (sz : Sizing) (p : Proc) : Sys :=
  match p.sig.running with
  | some _ => p.settled
  | none => { p.settled with k := p.sig.ctx.pc.rest sz p.settled.k }

/-- **What a state of the process stands for.** -/
def Proc.abs (sz : Sizing) (p : Proc) : State := ⟨p.region sz, p.sig.mode⟩

/-- The process when `hrt_init` has set up the kernel, its timer not yet running. -/
def Proc.boot (sz : Sizing) (cfg : Option KernelConfig) (objs : ObjectSpecs) (mem : Kernel) : Proc :=
  ⟨.main, Sys.boot sz .posix cfg objs mem⟩

/-- **What is known of the context that executes**: a task is `g_current`, not in the idle slot, and on
its way out of a call if it is in `hrt_port_yield_to_scheduler`; what the loop has looked at is still
so. -/
def Placed (sz : Sizing) (sys : Sys) (running : Option ℕ) (pc : SigPc) : Prop :=
  match running with
  | some t =>
      sys.k.current = some t ∧ t ≠ sz.idleId ∧ pc.inLoop = false ∧
        ((pc = .yieldBlock ∨ ∃ old, pc = .yieldSwap old) → ∃ a, sys.conts t = .hop a)
  | none => (∀ next, pc.target = some next → next ≠ sz.idleId) ∧ (pc = .loopClear → sys.k.pend = true)

/-- A place of which nothing more is known than who executes. -/
def SigPc.plain : SigPc → Bool
  | .yieldBlock | .yieldSwap _ | .loopClear | .loopSwap _ _ => false
  | _ => true

/-- `main` or the loop is at such a place. -/
theorem Placed.of_plain {sz : Sizing} {sys : Sys} {pc : SigPc} (h : pc.plain = true) :
    Placed sz sys none pc := by
  have htgt : pc.target = none ∧ pc ≠ .loopClear := by
    cases pc <;> simp_all [SigPc.target, SigPc.plain]
  exact ⟨fun next hn => absurd (htgt.1.symm.trans hn) (by simp), fun hc => absurd hc htgt.2⟩

/-- The context goes on to such a place. -/
theorem Placed.move {sz : Sizing} {sys : Sys} {running : Option ℕ} {pc pc' : SigPc}
    (h : Placed sz sys running pc) (hloop : pc.inLoop = false → pc'.inLoop = false)
    (hplain : pc'.plain = true) : Placed sz sys running pc' := by
  cases running with
  | none => exact Placed.of_plain hplain
  | some t =>
      refine ⟨h.1, h.2.1, hloop h.2.2.1, fun hy => ?_⟩
      rcases hy with rfl | ⟨old, rfl⟩ <;> cases hplain

/-- The invariant. -/
structure ProcInv (sz : Sizing) (src : TickSource) (p : Proc) : Prop where
  sig : SigInv src p.sig
  placed : Placed sz p.settled p.sig.running p.sig.ctx.pc

/-! ## Single steps -/

section Steps

variable {sz : Sizing} {src : TickSource} {p p' : Proc}

theorem Proc.settled_of_none (h : p.sig.handler = none) : p.settled = p.sys := by
  rw [Proc.settled, h]

/-- A place outside of masked regions has nothing left to do. -/
theorem SigCtx.rest_of_not_inside {c : SigCtx} (h : c.inside = false) (k : Kernel) :
    c.pc.rest sz k = k := by
  obtain ⟨pc, depth, mask⟩ := c
  cases pc <;> first | rfl | cases h

/-- **A step that changes nothing**: the same context goes on at a place that stands for the same. -/
theorem quiet_step (hsig : SigInv src p'.sig) (hsys : p'.settled = p.settled)
    (hrun : p'.sig.running = p.sig.running)
    (hplaced : Placed sz p.settled p.sig.running p'.sig.ctx.pc)
    (hmode : p.sig.running = none → p'.sig.ctx.pc.mode = p.sig.ctx.pc.mode)
    (hrest : p.sig.running = none → ∀ k, p'.sig.ctx.pc.rest sz k = p.sig.ctx.pc.rest sz k) :
    ProcInv sz src p' ∧ p'.abs sz = p.abs sz := by
  refine ⟨⟨hsig, by rw [hsys, hrun]; exact hplaced⟩, ?_⟩
  unfold Proc.abs Proc.region Signals.mode
  rw [hrun, hsys]
  cases hr : p.sig.running with
  | none => simp only [hmode hr, hrest hr]
  | some t => rfl

/-- A step that changes nothing is no step of the machine. -/
theorem stutter (h : ProcInv sz src p' ∧ p'.abs sz = p.abs sz) :
    ProcInv sz src p' ∧ ∃ as, exec (step sz) (p.abs sz) as = some (p'.abs sz) :=
  ⟨h.1, [], congrArg some h.2.symm⟩

/-- A step that is one of the machine. -/
theorem single {q : State} {a : Action} (hinv : ProcInv sz src p') (hq : p.abs sz = q)
    (hstep : step sz q a = some (p'.abs sz)) :
    ProcInv sz src p' ∧ ∃ as, exec (step sz) (p.abs sz) as = some (p'.abs sz) :=
  ⟨hinv, [a], exec_cons.mpr ⟨_, hq ▸ hstep, rfl⟩⟩

/-- **A step that stays on the CPU** and that the machine does not see. -/
theorem sig_stutters (hh : p.sig.handler = none) {sig : Signals} (hinv : SigInv src sig)
    (hh' : sig.handler = none) (hrun : sig.running = p.sig.running)
    (hplaced : Placed sz p.sys p.sig.running sig.ctx.pc)
    (hmode : p.sig.running = none → sig.ctx.pc.mode = p.sig.ctx.pc.mode)
    (hrest : p.sig.running = none → ∀ k, sig.ctx.pc.rest sz k = p.sig.ctx.pc.rest sz k) :
    ProcInv sz src ⟨sig, p.sys⟩ ∧ Proc.abs sz ⟨sig, p.sys⟩ = p.abs sz := by
  refine quiet_step hinv ?_ hrun ?_ hmode hrest
  · rw [Proc.settled_of_none hh, Proc.settled_of_none (p := ⟨sig, p.sys⟩) hh']
  · rw [Proc.settled_of_none hh]
    exact hplaced

/-- The context goes on at a place that stands for the same. -/
theorem goto_stutters (hh : p.sig.handler = none) {pc : SigPc} (hsig : SigInv src (p.sig.goto pc))
    (hplaced : Placed sz p.sys p.sig.running pc) (hmode : pc.mode = p.sig.ctx.pc.mode)
    (hrest : ∀ k, pc.rest sz k = p.sig.ctx.pc.rest sz k) :
    ProcInv sz src ⟨p.sig.goto pc, p.sys⟩ ∧ Proc.abs sz ⟨p.sig.goto pc, p.sys⟩ = p.abs sz := by
  have hctx : (p.sig.goto pc).ctx.pc = pc := by
    rw [Signals.goto, Signals.ctx_put]
    rfl
  refine sig_stutters hh hsig ((Signals.put_handler _ _ _).trans hh) (Signals.put_running _ _ _) ?_
    (fun _ => ?_) (fun _ => ?_) <;> rwa [hctx]

/-- A creation leaves the context that executes alone. -/
theorem created_spec {s s' : Signals} {new : Option ℕ} (hs : SigInv src s) (hh : s.handler = none)
    (hc : created src s new = some s') :
    SigInv src s' ∧ s'.ctx = s.ctx ∧ s'.running = s.running ∧ s'.handler = none := by
  cases new with
  | none =>
      obtain rfl := Option.some.inj hc
      exact ⟨hs, rfl, rfl, hh⟩
  | some id =>
      have hthread : threadStep src s (.create id : SigAction Unit) = some s' :=
        (sigStep_thread src (by simp) hc).2
      obtain ⟨hctx, hrun, hhand⟩ := threadStep_create src hthread
      exact ⟨(hs.step hc).1, hctx, hrun, hhand.trans hh⟩

/-- What a context that has nothing left to do of a region stands for. -/
theorem Proc.abs_of_rest (h : ∀ k, p.sig.ctx.pc.rest sz k = k) : p.abs sz = ⟨p.settled, p.sig.mode⟩ := by
  unfold Proc.abs Proc.region
  cases p.sig.running with
  | none => simp only [h]
  | some t => rfl

/-- What a task that executes stands for. -/
theorem Proc.abs_task (hh : p.sig.handler = none) {t : ℕ} (hr : p.sig.running = some t) :
    p.abs sz = ⟨p.sys, .running⟩ := by
  rw [Proc.abs, Proc.region, Signals.mode, hr, Proc.settled_of_none hh]

/-- What `main` or the loop stands for. -/
theorem Proc.abs_loop (hh : p.sig.handler = none) (hr : p.sig.running = none) :
    p.abs sz = ⟨{ p.sys with k := p.sig.ctx.pc.rest sz p.sys.k }, p.sig.ctx.pc.mode⟩ := by
  rw [Proc.abs, Proc.region, Signals.mode, hr, Proc.settled_of_none hh]

/-- `main` or the loop goes on at `pc`, the system being `sys` afterwards. -/
theorem goto_loop (sz : Sizing) (src : TickSource) (hh : p.sig.handler = none)
    (hr : p.sig.running = none) (pc : SigPc) (sys : Sys) :
    Proc.abs sz ⟨p.sig.goto pc, sys⟩ = ⟨{ sys with k := pc.rest sz sys.k }, pc.mode⟩ ∧
    (SigInv src (p.sig.goto pc) → Placed sz sys none pc → ProcInv sz src ⟨p.sig.goto pc, sys⟩) := by
  have hh' : (p.sig.goto pc).handler = none := (Signals.put_handler _ _ _).trans hh
  have hr' : (p.sig.goto pc).running = none := (Signals.put_running _ _ _).trans hr
  have hctx : (p.sig.goto pc).ctx.pc = pc := by
    rw [Signals.goto, Signals.ctx_put]
    rfl
  constructor
  · rw [Proc.abs_loop (p := ⟨p.sig.goto pc, sys⟩) hh' hr']
    show (⟨{ sys with k := SigPc.rest sz (p.sig.goto pc).ctx.pc sys.k }, (p.sig.goto pc).ctx.pc.mode⟩ :
      State) = _
    rw [hctx]
  · intro hsig hplaced
    refine ⟨hsig, ?_⟩
    rw [Proc.settled_of_none (p := ⟨p.sig.goto pc, sys⟩) hh']
    show Placed sz sys (p.sig.goto pc).running (p.sig.goto pc).ctx.pc
    rw [hr', hctx]
    exact hplaced

/-- Where the steps of `sigInstr` lead that the machine does not see, all but the clearing of
`g_switch_pending` and `hrt__on_scheduler_entry`. -/
theorem sigInstr_unseen (sz : Sizing) {set : Bool} {g : SigRegs} {c : SigCtx} {r : SigRegs × SigCtx}
    (hr : sigInstr set g c = some r) (hclear : c.pc ≠ .loopClear) (hentry : ∀ old, c.pc ≠ .loopEntry old) :
    (r.2.pc.plain = true ∨ (c.pc = .yieldBlock ∧ ∃ old, r.2.pc = .yieldSwap old)) ∧
    r.2.pc.mode = c.pc.mode ∧ ∀ k, r.2.pc.rest sz k = c.pc.rest sz k := by
  obtain ⟨pc, depth, mask⟩ := c
  cases pc with
  | enterTest v | exitTest v =>
      simp only [sigInstr] at hr
      split at hr <;> obtain rfl := Option.some.inj hr <;> exact ⟨Or.inl rfl, rfl, fun _ => rfl⟩
  | enterLoad | enterStore _ | enterBlock | exitLoad | exitStore _ | exitUnblock | yieldBack _ | loopBlock
  | loopNone _ | loopUnblock _ =>
      obtain rfl := Option.some.inj hr
      exact ⟨Or.inl rfl, rfl, fun _ => rfl⟩
  | yieldBlock =>
      obtain rfl := Option.some.inj hr
      exact ⟨Or.inr ⟨rfl, _, rfl⟩, rfl, fun _ => rfl⟩
  | loopClear => exact absurd rfl hclear
  | loopEntry old => exact absurd rfl (hentry old)
  | body | yieldSwap _ | gone | initEmpty | initAdd | initArm | loopTest | loopPick _ | loopSwap _ _ =>
      exact absurd hr (by simp [sigInstr])

/-- They do nothing to the kernel. -/
theorem instrEffect_unseen (sz : Sizing) (hh : p.sig.handler = none) {r : SigRegs × SigCtx}
    (hr : sigInstr p.sig.alrmSet p.sig.regs p.sig.ctx = some r) (hclear : p.sig.ctx.pc ≠ .loopClear)
    (hentry : ∀ old, p.sig.ctx.pc ≠ .loopEntry old) : instrEffect sz p = p.sys := by
  simp only [instrEffect, hh]
  split
  · rename_i old hrun hpc
    exact absurd hr (by simp [sigInstr, hpc])
  · exact absurd ‹_› hclear
  · rename_i old next hrun hpc
    exact absurd hr (by simp [sigInstr, hpc])
  · exact absurd ‹_› (hentry _)
  · rfl

/-- **`hrt_port_start_systick`** is nothing to the machine. -/
theorem init_stutters (hh : p.sig.handler = none) (hrun : p.sig.running = none)
    (hinit : p.sig.ctx.pc.inInit = true) {pc : SigPc} (hpc : pc = .initAdd ∨ pc = .initArm ∨ pc = .body)
    {set arm : Bool} (hinv : SigInv src { p.sig.goto pc with alrmSet := set, armed := arm }) :
    ProcInv sz src ⟨{ p.sig.goto pc with alrmSet := set, armed := arm }, instrEffect sz p⟩ ∧
    Proc.abs sz ⟨{ p.sig.goto pc with alrmSet := set, armed := arm }, instrEffect sz p⟩ = p.abs sz := by
  have hold : p.sig.ctx.pc.mode = .boot ∧ (∀ k, p.sig.ctx.pc.rest sz k = k) ∧ instrEffect sz p = p.sys := by
    unfold instrEffect
    rw [hh, hrun]
    revert hinit
    cases p.sig.ctx.pc <;> simp [SigPc.inInit, SigPc.mode, SigPc.rest]
  have hctx : Signals.ctx { p.sig.goto pc with alrmSet := set, armed := arm } = p.sig.ctx.goto pc :=
    Signals.ctx_put _ _ _
  rw [hold.2.2]
  refine sig_stutters hh hinv ((Signals.put_handler _ _ _).trans hh) (Signals.put_running _ _ _) ?_
    (fun _ => ?_) (fun _ k => ?_)
  · rw [hctx, hrun]
    rcases hpc with rfl | rfl | rfl <;> exact Placed.of_plain rfl
  · rw [hctx, hold.1]
    rcases hpc with rfl | rfl | rfl <;> rfl
  · rw [hctx, hold.2.1]
    rcases hpc with rfl | rfl | rfl <;> rfl

variable (h : ProcInv sz src p)

include h

/-- While no handler is active. -/
theorem ProcInv.placed_of_none (hh : p.sig.handler = none) :
    Placed sz p.sys p.sig.running p.sig.ctx.pc := by
  rw [← Proc.settled_of_none hh]
  exact h.placed

/-- Only the loop is in the loop. -/
theorem ProcInv.loop_of_inLoop (hh : p.sig.handler = none) (hl : p.sig.ctx.pc.inLoop = true) :
    p.sig.running = none := by
  cases hr : p.sig.running with
  | none => rfl
  | some t =>
      obtain ⟨-, -, hloop, -⟩ := hr ▸ h.placed_of_none hh
      exact absurd (hloop.symm.trans hl) (by simp)

/-- A section is entered. -/
theorem ProcInv.enter_step (hstep : procStep sz src p .enter = some p') :
    ProcInv sz src p' ∧ p'.abs sz = p.abs sz := by
  obtain ⟨sig, hsig, rfl⟩ := Option.map_eq_some_iff.mp hstep
  have hinv := (h.sig.step hsig).1
  obtain ⟨hh, hthread⟩ := sigStep_thread src (by simp) hsig
  simp only [threadStep] at hthread
  split at hthread
  · rename_i hc
    obtain rfl := Option.some.inj hthread
    exact goto_stutters hh hinv ((h.placed_of_none hh).move (fun _ => rfl) rfl) (by rw [hc.1]; rfl)
      (by rw [hc.1]; exact fun _ => rfl)
  · exact absurd hthread (by simp)

/-- A section is left. -/
theorem ProcInv.exit_step (hstep : procStep sz src p .exit = some p') :
    ProcInv sz src p' ∧ p'.abs sz = p.abs sz := by
  obtain ⟨sig, hsig, rfl⟩ := Option.map_eq_some_iff.mp hstep
  have hinv := (h.sig.step hsig).1
  obtain ⟨hh, hthread⟩ := sigStep_thread src (by simp) hsig
  simp only [threadStep] at hthread
  split at hthread
  · rename_i hc
    obtain rfl := Option.some.inj hthread
    exact goto_stutters hh hinv ((h.placed_of_none hh).move (fun _ => rfl) rfl) (by rw [hc.1]; rfl)
      (by rw [hc.1]; exact fun _ => rfl)
  · exact absurd hthread (by simp)

/-- The timer is started. -/
theorem ProcInv.init_step (hstep : procStep sz src p .init = some p') :
    ProcInv sz src p' ∧ p'.abs sz = p.abs sz := by
  obtain ⟨sig, hsig, rfl⟩ := Option.map_eq_some_iff.mp hstep
  have hinv := (h.sig.step hsig).1
  obtain ⟨hh, hthread⟩ := sigStep_thread src (by simp) hsig
  simp only [threadStep] at hthread
  split at hthread
  · rename_i hc
    split at hthread
    · obtain rfl := Option.some.inj hthread
      exact ⟨h, rfl⟩
    · obtain rfl := Option.some.inj hthread
      exact goto_stutters hh hinv ((h.placed_of_none hh).move (fun _ => rfl) rfl) (by rw [hc.2.1]; rfl)
        (by rw [hc.2.1]; exact fun _ => rfl)
  · exact absurd hthread (by simp)

/-- A task enters `hrt_port_yield_to_scheduler`. -/
theorem ProcInv.yield_step (hstep : procStep sz src p .yield = some p') :
    ProcInv sz src p' ∧ p'.abs sz = p.abs sz := by
  simp only [procStep] at hstep
  split at hstep
  · exact absurd hstep (by simp)
  · rename_i t hrun
    split at hstep
    · rename_i a hhop
      obtain ⟨sig, hsig, rfl⟩ := Option.map_eq_some_iff.mp hstep
      have hinv := (h.sig.step hsig).1
      obtain ⟨hh, hthread⟩ := sigStep_thread src (by simp) hsig
      simp only [threadStep] at hthread
      split at hthread
      · rename_i hc
        obtain rfl := Option.some.inj hthread
        refine goto_stutters hh hinv ?_ (by rw [hc.1]; rfl) (by rw [hc.1]; exact fun _ => rfl)
        obtain ⟨hcur, hidle, -, -⟩ := hrun ▸ h.placed_of_none hh
        rw [hrun]
        exact ⟨hcur, hidle, rfl, fun _ => ⟨a, hhop⟩⟩
      · exact absurd hthread (by simp)
    · exact absurd hstep (by simp)

/-- The loop looks at `g_switch_pending`. -/
theorem ProcInv.poll_step (hstep : procStep sz src p .poll = some p') :
    ProcInv sz src p' ∧ p'.abs sz = p.abs sz := by
  obtain ⟨sig, hsig, rfl⟩ := Option.map_eq_some_iff.mp hstep
  have hinv := (h.sig.step hsig).1
  obtain ⟨hh, hthread⟩ := sigStep_thread src (by simp) hsig
  simp only [threadStep] at hthread
  split at hthread
  · rename_i hc
    obtain rfl := Option.some.inj hthread
    have hrun := h.loop_of_inLoop hh (by rw [hc]; rfl)
    cases hp : p.sys.k.pend with
    | false =>
        rw [hp] at hinv
        refine goto_stutters hh hinv ?_ (by rw [hc]; rfl) (by rw [hc]; exact fun _ => rfl)
        rw [hrun]
        exact Placed.of_plain rfl
    | true =>
        rw [hp] at hinv
        refine goto_stutters hh hinv ?_ (by rw [hc]; rfl) (by rw [hc]; exact fun _ => rfl)
        rw [hrun]
        exact ⟨fun _ hn => absurd hn (by simp [SigPc.target]), fun _ => hp⟩
  · exact absurd hthread (by simp)

/-- **A tick is delivered**, which the machine does not see yet. -/
theorem ProcInv.tick_step (hstep : procStep sz src p .tick = some p') :
    ProcInv sz src p' ∧ p'.abs sz = p.abs sz := by
  obtain ⟨sig, hsig, rfl⟩ := Option.map_eq_some_iff.mp hstep
  have hinv := (h.sig.step hsig).1
  obtain ⟨hh, hthread⟩ := sigStep_thread src (by simp) hsig
  simp only [threadStep] at hthread
  split at hthread
  · obtain rfl := Option.some.inj hthread
    refine quiet_step hinv ?_ rfl h.placed (fun _ => rfl) (fun _ _ => rfl)
    rw [Proc.settled_of_none hh]
    rfl
  · exact absurd hthread (by simp)

/-- `hrt_start`. -/
theorem ProcInv.start_step (hstep : procStep sz src p .start = some p') :
    ProcInv sz src p' ∧ ∃ as, exec (step sz) (p.abs sz) as = some (p'.abs sz) := by
  obtain ⟨sig, hsig, rfl⟩ := Option.map_eq_some_iff.mp hstep
  have hinv := (h.sig.step hsig).1
  obtain ⟨hh, hthread⟩ := sigStep_thread src (by simp) hsig
  simp only [threadStep] at hthread
  split at hthread
  · rename_i hc
    obtain rfl := Option.some.inj hthread
    obtain ⟨hrun, hbody, -⟩ := hc
    obtain ⟨habs, hput⟩ := goto_loop sz src hh hrun .loopTest
      { p.sys with k := p.sys.k.hrtPendContextSwitch }
    refine single (a := .start) (hput hinv (Placed.of_plain rfl)) (Proc.abs_loop hh hrun) ?_
    rw [habs, hbody]
    rfl
  · exact absurd hthread (by simp)

/-- A call of `main`. -/
theorem ProcInv.main_step {c : MainCall} (hstep : procStep sz src p (.main c) = some p') :
    ProcInv sz src p' ∧ ∃ as, exec (step sz) (p.abs sz) as = some (p'.abs sz) := by
  simp only [procStep] at hstep
  split at hstep
  · rename_i hc
    obtain ⟨hh, hrun, hbody⟩ := hc
    obtain ⟨sig, hsig, rfl⟩ := Option.map_eq_some_iff.mp hstep
    obtain ⟨hinv, hctx, hrun', hh'⟩ := created_spec h.sig hh hsig
    refine single (a := .main c) ⟨hinv, ?_⟩ (Proc.abs_loop hh hrun) ?_
    · show Placed sz _ sig.running sig.ctx.pc
      rw [hrun', hrun, hctx, hbody]
      exact Placed.of_plain rfl
    · rw [hbody, Proc.abs_loop (p := ⟨sig, _⟩) hh' (hrun'.trans hrun)]
      show _ = some (⟨{ p.sys.main sz .posix c with k := SigPc.rest sz sig.ctx.pc _ },
        sig.ctx.pc.mode⟩ : State)
      rw [hctx, hbody]
      rfl
  · exact absurd hstep (by simp)

/-- **An action of the task that executes.** -/
theorem ProcInv.task_step {c : Call} (hstep : procStep sz src p (.task c) = some p') :
    ProcInv sz src p' ∧ ∃ as, exec (step sz) (p.abs sz) as = some (p'.abs sz) := by
  simp only [procStep] at hstep
  split at hstep
  · exact absurd hstep (by simp)
  · rename_i t hrun
    split at hstep
    · rename_i hc
      obtain ⟨hh, hbody, -⟩ := hc
      obtain ⟨o, ho, hmap⟩ := Option.bind_eq_some_iff.mp hstep
      obtain ⟨sig, hsig, rfl⟩ := Option.map_eq_some_iff.mp hmap
      obtain ⟨hinv, hctx, hrun', hh'⟩ := created_spec h.sig hh hsig
      obtain ⟨hcur, hidle, -, -⟩ := hrun ▸ h.placed_of_none hh
      refine single (a := .task c) ⟨hinv, ?_⟩ (Proc.abs_task hh hrun) ?_
      · rw [Proc.settled_of_none (p := ⟨sig, _⟩) hh']
        show Placed sz (p.sys.apply t o) sig.running sig.ctx.pc
        rw [hrun', hrun, hctx, hbody]
        refine ⟨(taskEffect ho).current.trans hcur, hidle, rfl, fun hy => ?_⟩
        rcases hy with hy | ⟨old, hy⟩ <;> cases hy
      · rw [Proc.abs_task (p := ⟨sig, _⟩) hh' (hrun'.trans hrun)]
        -- a task with an action of its own is not in `hrt_port_yield_to_scheduler`
        have htask : p.sys.task sz .posix t c = some (p.sys.apply t o) := by
          rw [Sys.task, ho]
          rfl
        simp only [step, hcur, if_true]
        cases hcont : p.sys.conts t with
        | hop a => exact absurd ho (by simp [hcont, nextAction])
        | _ => simp only [htask, Option.map_some]
    · exact absurd hstep (by simp)

/-- **The loop picks a task**, or finds nobody: the machine does the whole masked part at once. -/
theorem ProcInv.pick_step (hstep : procStep sz src p .pick = some p') :
    ProcInv sz src p' ∧ ∃ as, exec (step sz) (p.abs sz) as = some (p'.abs sz) := by
  obtain ⟨sig, hsig, rfl⟩ := Option.map_eq_some_iff.mp hstep
  have hinv := (h.sig.step hsig).1
  obtain ⟨hh, hthread⟩ := sigStep_thread src (by simp) hsig
  simp only [threadStep] at hthread
  split at hthread
  · -- nobody is ready
    rename_i old hc hnone
    obtain rfl := Option.some.inj hthread
    have hrun := h.loop_of_inLoop hh (by rw [hc]; rfl)
    have hidle : (hrtPickNextReady sz p.sys.k).1 = sz.idleId := by
      by_contra hne
      exact absurd hnone (by simp [hne])
    obtain ⟨habs, hput⟩ := goto_loop sz src hh hrun (.loopNone old)
      { p.sys with k := (hrtPickNextReady sz p.sys.k).2 }
    refine single (a := .loop) (hput hinv (Placed.of_plain rfl)) (Proc.abs_loop hh hrun) ?_
    rw [habs, hc]
    show loopStep sz ⟨p.sys, .cleared⟩ = _
    simp only [loopStep, if_pos hidle]
    rfl
  · rename_i old t hc hsome
    split at hthread
    · obtain rfl := Option.some.inj hthread
      have hrun := h.loop_of_inLoop hh (by rw [hc]; rfl)
      obtain ⟨hidle, rfl⟩ : (hrtPickNextReady sz p.sys.k).1 ≠ sz.idleId ∧
          (hrtPickNextReady sz p.sys.k).1 = t := by
        split at hsome
        · exact absurd hsome (by simp)
        · exact ⟨‹_›, Option.some.inj hsome⟩
      obtain ⟨habs, hput⟩ := goto_loop sz src hh hrun (.loopSwap old _)
        { p.sys with k := (hrtPickNextReady sz p.sys.k).2 }
      refine single (a := .loop) (hput hinv ?_) (Proc.abs_loop hh hrun) ?_
      · refine ⟨fun next hn => ?_, fun hc => absurd hc (by simp)⟩
        obtain rfl := Option.some.inj hn
        exact hidle
      · rw [habs, hc]
        show loopStep sz ⟨p.sys, .cleared⟩ = _
        simp only [loopStep, if_neg hidle]
        rfl
    · exact absurd hthread (by simp)
  · exact absurd hthread (by simp)

/-- **The steps of the handler**: the tick takes effect with `hrt__tick_isr`. -/
theorem ProcInv.handler_step {pc : HandlerPc} {saved : Bool} (hh : p.sig.handler = some (pc, saved))
    (hstep : procStep sz src p .instr = some p') :
    ProcInv sz src p' ∧ ∃ as, exec (step sz) (p.abs sz) as = some (p'.abs sz) := by
  obtain ⟨sig, hsig, rfl⟩ := Option.map_eq_some_iff.mp hstep
  have hinv := (h.sig.step hsig).1
  have hin := h.sig.inside_of_handler hh
  rw [sigStep, hh] at hsig
  cases pc with
  | isr =>
      obtain rfl := Option.some.inj hsig
      -- the interrupted context is in no masked region, so nothing is left to do of one
      have hrest : ∀ k, p.sig.ctx.pc.rest sz k = k := SigCtx.rest_of_not_inside hin
      have hset : Proc.settled ⟨{ p.sig with handler := some (.pend, saved) }, instrEffect sz p⟩ =
          { p.sys with k := tickHandler sz true p.sys.k } := by
        simp only [Proc.settled, instrEffect, hh]
        rfl
      have hold : p.abs sz = ⟨p.sys, p.sig.mode⟩ := by
        rw [Proc.abs_of_rest hrest, Proc.settled, hh]
      have hnew : Proc.abs sz ⟨{ p.sig with handler := some (.pend, saved) }, instrEffect sz p⟩ =
          ⟨{ p.sys with k := tickHandler sz true p.sys.k }, p.sig.mode⟩ := by
        rw [Proc.abs_of_rest (p := ⟨{ p.sig with handler := some (.pend, saved) }, _⟩) hrest, hset]
        rfl
      refine single (a := .tick true) ⟨hinv, ?_⟩ hold ?_
      · rw [hset]
        have hplaced := h.placed
        rw [Proc.settled, hh] at hplaced
        show Placed sz _ p.sig.running p.sig.ctx.pc
        cases hr : p.sig.running with
        | none =>
            rw [hr] at hplaced
            exact ⟨hplaced.1, fun _ => rfl⟩
        | some t =>
            rw [hr] at hplaced
            exact ⟨(tickHandler_current sz true p.sys.k).trans hplaced.1, hplaced.2⟩
      · rw [hnew]
        rfl
  | pend =>
      obtain rfl := Option.some.inj hsig
      refine stutter (quiet_step hinv ?_ rfl h.placed (fun _ => rfl) (fun _ _ => rfl))
      simp only [Proc.settled, instrEffect, hh]
  | ret =>
      obtain rfl := Option.some.inj hsig
      refine stutter (quiet_step hinv ?_ rfl h.placed (fun _ => rfl) (fun _ _ => rfl))
      simp only [Proc.settled, instrEffect, hh]

/-- **The loop has the CPU back**, the system being `sys`: the machine has noted it already. -/
theorem ProcInv.back (hh : p.sig.handler = none) {t : ℕ} (hrun : p.sig.running = some t) (c : SigCtx)
    (sys : Sys) :
    Proc.abs sz ⟨p.sig.toLoop t c, sys⟩ = ⟨{ sys with k := hrtOnSchedulerEntry sz sys.k }, .head⟩ ∧
    (SigInv src (p.sig.toLoop t c) → ProcInv sz src ⟨p.sig.toLoop t c, sys⟩) := by
  have hloop : (p.sig.toLoop t c).ctx.pc = .loopEntry false := by
    show p.sig.loop.pc = _
    rw [h.sig.loop (by rw [hrun]; simp)]
  constructor
  · rw [Proc.abs_loop (p := ⟨p.sig.toLoop t c, sys⟩) hh rfl]
    show (⟨{ sys with k := SigPc.rest sz (p.sig.toLoop t c).ctx.pc sys.k },
      (p.sig.toLoop t c).ctx.pc.mode⟩ : State) = _
    rw [hloop]
    rfl
  · intro hinv
    refine ⟨hinv, ?_⟩
    show Placed sz _ none (p.sig.toLoop t c).ctx.pc
    rw [hloop]
    exact Placed.of_plain rfl

/-- **A task swaps to the loop.** -/
theorem ProcInv.to_loop (hh : p.sig.handler = none) {t : ℕ} (hrun : p.sig.running = some t) {old : Bool}
    (hpc : p.sig.ctx.pc = .yieldSwap old) {c : SigCtx} (hinv : SigInv src (p.sig.toLoop t c)) :
    ProcInv sz src ⟨p.sig.toLoop t c, instrEffect sz p⟩ ∧
    ∃ as, exec (step sz) (p.abs sz) as = some (Proc.abs sz ⟨p.sig.toLoop t c, instrEffect sz p⟩) := by
  obtain ⟨hcur, hidle, -, hhop⟩ := hrun ▸ h.placed_of_none hh
  obtain ⟨a, ha⟩ := hhop (Or.inr ⟨old, hpc⟩)
  have heff : instrEffect sz p = p.sys.land t a := by
    simp only [instrEffect, hh, hrun, hpc, ha]
  rw [heff]
  obtain ⟨habs, hput⟩ := h.back hh hrun c (p.sys.land t a)
  refine single (a := .task .yield) (hput hinv) (Proc.abs_task hh hrun) ?_
  rw [habs]
  simp only [step, hcur, ha, if_neg hidle, if_true]
  rfl

/-- **A trampoline returns to the loop.** -/
theorem ProcInv.finish_step (hstep : procStep sz src p .finish = some p') :
    ProcInv sz src p' ∧ ∃ as, exec (step sz) (p.abs sz) as = some (p'.abs sz) := by
  simp only [procStep] at hstep
  split at hstep
  · exact absurd hstep (by simp)
  · rename_i t hrun
    split at hstep
    · rename_i hexit
      obtain ⟨sig, hsig, rfl⟩ := Option.map_eq_some_iff.mp hstep
      have hinv := (h.sig.step hsig).1
      obtain ⟨hh, hthread⟩ := sigStep_thread src (by simp) hsig
      obtain ⟨hcur, -, -, -⟩ := hrun ▸ h.placed_of_none hh
      simp only [threadStep, hrun] at hthread
      split at hthread
      · obtain rfl := Option.some.inj hthread
        obtain ⟨habs, hput⟩ := h.back hh hrun (p.sig.ctx.goto .gone)
          (p.sys.land t (.ret .taskDelete 0))
        refine single (a := .finish) (hput hinv) (Proc.abs_task hh hrun) ?_
        rw [habs]
        simp only [step, hcur, if_pos hexit, if_true]
        rfl
      · exact absurd hthread (by simp)
    · exact absurd hstep (by simp)

/-- **The loop swaps to the task it has picked.** -/
theorem ProcInv.to_task (hh : p.sig.handler = none) (hrun : p.sig.running = none) {old : Bool} {next : ℕ}
    (hpc : p.sig.ctx.pc = .loopSwap old next) {c : SigCtx} (hinv : SigInv src (p.sig.toTask next c)) :
    ProcInv sz src ⟨p.sig.toTask next c, instrEffect sz p⟩ ∧
    Proc.abs sz ⟨p.sig.toTask next c, instrEffect sz p⟩ = p.abs sz := by
  have heff : instrEffect sz p = { p.sys with k := { p.sys.k with current := some next } } := by
    simp only [instrEffect, hh, hrun, hpc]
  obtain ⟨hidle, -⟩ := hrun ▸ h.placed_of_none hh
  -- the task is new or has yielded
  obtain ⟨hv, hlive⟩ := h.sig.target next (by rw [hpc]; rfl)
  have hnext : (p.sig.tasks next).pc = .body ∨ (p.sig.tasks next).pc = .yieldBack false := by
    rcases h.sig.tasks next (by rw [hrun]; simp) hv with hf | ⟨hp, -⟩ | ⟨hgone, -⟩
    · exact Or.inl (by rw [hf])
    · exact Or.inr (by rw [hp])
    · exact absurd hgone hlive
  rw [heff]
  refine ⟨⟨hinv, ?_⟩, ?_⟩
  · rw [Proc.settled_of_none (p := ⟨p.sig.toTask next c, _⟩) hh]
    show Placed sz _ (some next) (p.sig.tasks next).pc
    refine ⟨rfl, hidle next (by rw [hpc]; rfl), ?_, ?_⟩
    · rcases hnext with hn | hn <;> rw [hn] <;> rfl
    · rintro (hy | ⟨old', hy⟩) <;> rcases hnext with hn | hn <;> exact absurd (hn.symm.trans hy) (by simp)
  · rw [Proc.abs_task (p := ⟨p.sig.toTask next c, _⟩) hh rfl, Proc.abs_loop hh hrun, hpc]
    rfl

/-- **A step of `sigInstr`**: the machine sees only that `g_switch_pending` is cleared. -/
theorem ProcInv.local_step (hh : p.sig.handler = none) {r : SigRegs × SigCtx}
    (hr : sigInstr p.sig.alrmSet p.sig.regs p.sig.ctx = some r) (hinv : SigInv src (p.sig.put r.1 r.2)) :
    ProcInv sz src ⟨p.sig.put r.1 r.2, instrEffect sz p⟩ ∧
    ∃ as, exec (step sz) (p.abs sz) as = some (Proc.abs sz ⟨p.sig.put r.1 r.2, instrEffect sz p⟩) := by
  by_cases hseen : p.sig.ctx.pc = .loopClear ∨ ∃ old, p.sig.ctx.pc = .loopEntry old
  · have hrun : p.sig.running = none := by
      refine h.loop_of_inLoop hh ?_
      rcases hseen with hpc | ⟨old, hpc⟩ <;> rw [hpc] <;> rfl
    rcases hseen with hpc | ⟨old, hpc⟩
    · -- the look at `g_switch_pending` and its clearing are one step of the machine
      obtain ⟨-, hpend⟩ := hrun ▸ h.placed_of_none hh
      have hput : p.sig.put r.1 r.2 = p.sig.goto .loopBlock := by
        simp only [sigInstr, hpc] at hr
        obtain rfl := Option.some.inj hr
        rfl
      have heff : instrEffect sz p = { p.sys with k := { p.sys.k with pend := false } } := by
        simp only [instrEffect, hh, hrun, hpc]
      rw [hput] at hinv ⊢
      rw [heff]
      obtain ⟨habs, hmk⟩ := goto_loop sz src hh hrun .loopBlock
        { p.sys with k := { p.sys.k with pend := false } }
      refine single (a := .loop) (hmk hinv (Placed.of_plain rfl)) (Proc.abs_loop hh hrun) ?_
      rw [habs, hpc]
      show loopStep sz ⟨p.sys, .head⟩ = _
      simp only [loopStep, if_pos (hpend hpc)]
      rfl
    · -- the machine has noted the return already
      have hput : p.sig.put r.1 r.2 = p.sig.goto (.loopUnblock old) := by
        simp only [sigInstr, hpc] at hr
        obtain rfl := Option.some.inj hr
        rfl
      have heff : instrEffect sz p = { p.sys with k := hrtOnSchedulerEntry sz p.sys.k } := by
        simp only [instrEffect, hh, hrun, hpc]
      rw [hput] at hinv ⊢
      rw [heff]
      obtain ⟨habs, hmk⟩ := goto_loop sz src hh hrun (.loopUnblock old)
        { p.sys with k := hrtOnSchedulerEntry sz p.sys.k }
      refine stutter ⟨hmk hinv (Placed.of_plain rfl), ?_⟩
      rw [habs, Proc.abs_loop hh hrun, hpc]
      rfl
  · rw [not_or, not_exists] at hseen
    obtain ⟨hnext, hmode, hrest⟩ := sigInstr_unseen sz hr hseen.1 hseen.2
    have heff := instrEffect_unseen sz hh hr hseen.1 hseen.2
    have hctx : (p.sig.put r.1 r.2).ctx = r.2 := Signals.ctx_put _ _ _
    rw [heff]
    refine stutter (sig_stutters hh hinv ((Signals.put_handler _ _ _).trans hh)
      (Signals.put_running _ _ _) ?_ (fun _ => ?_) (fun _ => ?_))
    · rw [hctx]
      have hplaced := h.placed_of_none hh
      have hloop := (sigInstr_spec Unit h.sig.wf (h.sig.regs_of_none hh) hr).2.2.1
      rcases hnext with hplain | ⟨hpc, old, hold⟩
      · exact hplaced.move (fun hl => hloop.trans hl) hplain
      · -- between the two steps of `hrt_port_yield_to_scheduler`
        rw [hold]
        cases hrun : p.sig.running with
        | none => exact ⟨fun _ hn => absurd hn (by simp [SigPc.target]), fun hc => absurd hc (by simp)⟩
        | some t =>
            rw [hrun] at hplaced
            exact ⟨hplaced.1, hplaced.2.1, rfl, fun _ => hplaced.2.2.2 (Or.inl hpc)⟩
    · rw [hctx]
      exact hmode
    · rw [hctx]
      exact hrest

/-- **The steps of the port's functions.** -/
theorem ProcInv.thread_step (hh : p.sig.handler = none) (hstep : procStep sz src p .instr = some p') :
    ProcInv sz src p' ∧ ∃ as, exec (step sz) (p.abs sz) as = some (p'.abs sz) := by
  obtain ⟨sig, hsig, rfl⟩ := Option.map_eq_some_iff.mp hstep
  have hinv := (h.sig.step hsig).1
  rw [sigStep, hh] at hsig
  simp only [threadStep] at hsig
  split at hsig
  · rename_i r hr
    obtain rfl := Option.some.inj hsig
    exact h.local_step hh hr hinv
  · unfold switchStep at hsig
    split at hsig
    · rename_i t old hrun hpc
      obtain rfl := Option.some.inj hsig
      exact h.to_loop hh hrun hpc hinv
    · rename_i old next hrun hpc
      obtain rfl := Option.some.inj hsig
      exact stutter (h.to_task hh hrun hpc hinv)
    · rename_i hrun hpc
      obtain rfl := Option.some.inj hsig
      exact stutter (init_stutters hh hrun (by rw [hpc]; rfl) (Or.inl rfl) hinv)
    · rename_i hrun hpc
      obtain rfl := Option.some.inj hsig
      exact stutter (init_stutters hh hrun (by rw [hpc]; rfl) (Or.inr (Or.inl rfl)) hinv)
    · rename_i hrun hpc
      obtain rfl := Option.some.inj hsig
      exact stutter (init_stutters hh hrun (by rw [hpc]; rfl) (Or.inr (Or.inr rfl)) hinv)
    · exact absurd hsig (by simp)

/-- **A step of the process** is one of the machine, or none. -/
theorem ProcInv.step {a : ProcAction} (hstep : procStep sz src p a = some p') :
    ProcInv sz src p' ∧ ∃ as, exec (step sz) (p.abs sz) as = some (p'.abs sz) := by
  cases a with
  | main c => exact h.main_step hstep
  | init => exact stutter (h.init_step hstep)
  | start => exact h.start_step hstep
  | task c => exact h.task_step hstep
  | enter => exact stutter (h.enter_step hstep)
  | exit => exact stutter (h.exit_step hstep)
  | yield => exact stutter (h.yield_step hstep)
  | finish => exact h.finish_step hstep
  | instr =>
      cases hh : p.sig.handler with
      | none => exact h.thread_step hh hstep
      | some hd => exact h.handler_step hh hstep
  | poll => exact stutter (h.poll_step hstep)
  | pick => exact h.pick_step hstep
  | tick => exact stutter (h.tick_step hstep)

end Steps

/-! ## Result -/

section Result

variable {sz : Sizing} {src : TickSource} {cfg : Option KernelConfig} {objs : ObjectSpecs} {mem : Kernel}

end Result

end Posix

end HardRT
