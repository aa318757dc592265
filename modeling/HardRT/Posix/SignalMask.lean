import HardRT.Lib.SerialLog
import HardRT.Posix.Signals

/-! # Masked regions

What the mask operations of the POSIX port achieve together: a tick never lands in a critical section or
in the masked part of the scheduler loop, and is never shut out anywhere else, although the nesting
counter is global, the mask is saved in three different places, and none of the functions is atomic.

* `SigCtx.inside` — the masked regions.
* `sigInstr_spec` — one step of a context that stays on the CPU.
* `SigInv` — the invariant: the mask is that of the context that executes.
* `signal_mask_balanced` — ticks never land in a masked region, and are never shut out of the others.
* `masked_regions_serial` — masked regions and tick handlers are atomic with respect to each other. -/

namespace HardRT

open Lib

namespace Posix

/-! ## One context -/

namespace SigCtx

/-- **The context is inside a masked region**: it has blocked `SIGALRM`, or was switched to while it was
blocked, and has not unblocked it. -/
def inside (c : SigCtx) : Bool :=
  match c.pc with
  | .exitTest _ | .exitUnblock | .yieldSwap _ | .yieldBack _ | .loopPick _ | .loopNone _ | .loopSwap _ _
  | .loopEntry _ | .loopUnblock _ => true
  | _ => 0 < c.depth

/-- What `g_crit_depth` is while the context executes: it is one ahead between the increment and the end
of `hrt_port_crit_enter`. -/
def counted (c : SigCtx) : ℤ :=
  match c.pc with
  | .enterTest _ | .enterBlock => c.depth + 1
  | _ => c.depth

/-- What a context has in its local variables is true of it. -/
def Wf (c : SigCtx) : Prop :=
  match c.pc with
  | .body | .enterLoad => True
  | .enterStore v | .enterTest v | .exitTest v => v = c.depth
  | .exitLoad => 0 < c.depth
  | .exitStore v => 0 < c.depth ∧ v = c.depth
  | .enterBlock | .exitUnblock | .yieldBlock | .gone | .initEmpty | .initAdd | .initArm | .loopTest
  | .loopClear | .loopBlock => c.depth = 0
  | .yieldSwap old | .yieldBack old | .loopPick old | .loopNone old | .loopSwap old _ | .loopEntry old
  | .loopUnblock old => c.depth = 0 ∧ old = false

/-- The context of a task that has been created and has not run. -/
def Fresh (c : SigCtx) : Prop := c = ⟨.body, 0, false⟩

/-- The context of a task that has left the CPU in `hrt_port_yield_to_scheduler`. -/
def Parked (set : Bool) (c : SigCtx) : Prop := c = ⟨.yieldBack false, 0, set⟩

end SigCtx

/-- **The registers are those of the context `c`.** -/
structure SigRegs.Of (set : Bool) (g : SigRegs) (c : SigCtx) : Prop where
  blocked : g.blocked = (set && c.inside)
  critDepth : g.critDepth = c.counted

/-- The parties of the log: the thread, in whichever context, and the tick handler. -/
inductive Party
  | thread
  | handler
  deriving DecidableEq, Repr

/-- The event of a step of `sigInstr`: blocking the signal enters a region, unblocking it leaves it. -/
def instrMarks (Op : Type*) (c : SigCtx) : List (Mark Party Op) :=
  match c.pc with
  | .enterBlock | .yieldBlock | .loopBlock => [.enter .thread]
  | .exitUnblock | .yieldBack _ | .loopNone _ | .loopUnblock _ => [.leave .thread]
  | _ => []

/-- Who is in a masked region, if it is this context. -/
def SigCtx.holder (c : SigCtx) : Option Party := if c.inside then some .thread else none

/-- **One step of a context that stays on the CPU**: the registers stay its own, it does not leave the
loop and does not come into `hrt_port_start_systick`, and the region begins and ends with the writes to
the mask. -/
theorem sigInstr_spec (Op : Type*) {set : Bool} {g g' : SigRegs} {c c' : SigCtx} (hwf : c.Wf)
    (hg : g.Of set c) (h : sigInstr set g c = some (g', c')) :
    c'.Wf ∧ g'.Of set c' ∧ c'.pc.inLoop = c.pc.inLoop ∧ c'.pc.inInit = false ∧
    c'.pc.target = none ∧ exec serialStep c.holder (instrMarks Op c) = some c'.holder := by
  obtain ⟨hblocked, hcount⟩ := hg
  obtain ⟨pc, depth, mask⟩ := c
  -- one case for each step; `hwf` says what is known of the local variables
  cases pc with
  | enterLoad =>
      obtain ⟨rfl, rfl⟩ := Prod.mk.inj (Option.some.inj h)
      exact ⟨hcount, ⟨hblocked, hcount⟩, rfl, rfl, rfl, rfl⟩
  | enterStore v =>
      obtain ⟨rfl, rfl⟩ := Prod.mk.inj (Option.some.inj h)
      obtain rfl : v = depth := hwf
      exact ⟨rfl, ⟨hblocked, rfl⟩, rfl, rfl, rfl, rfl⟩
  | enterTest v =>
      obtain rfl : v = depth := hwf
      rcases Nat.eq_zero_or_pos depth with rfl | hpos
      · obtain ⟨rfl, rfl⟩ := Prod.mk.inj (Option.some.inj h)
        exact ⟨rfl, ⟨hblocked, hcount⟩, rfl, rfl, rfl, rfl⟩
      · have hne : ¬ (depth : ℤ) = 0 := by omega
        simp only [sigInstr, if_neg hne] at h
        obtain ⟨rfl, rfl⟩ := Prod.mk.inj (Option.some.inj h)
        refine ⟨trivial, ⟨?_, ?_⟩, rfl, rfl, rfl, ?_⟩
        · simpa [SigCtx.inside, hpos] using hblocked
        · simpa [SigCtx.counted] using hcount
        · simp [SigCtx.holder, SigCtx.inside, instrMarks, hpos]
  | enterBlock =>
      obtain ⟨rfl, rfl⟩ := Prod.mk.inj (Option.some.inj h)
      obtain rfl : depth = 0 := hwf
      have hb : g.blocked = false := by simpa [SigCtx.inside] using hblocked
      exact ⟨trivial, ⟨by simp [SigCtx.inside, hb], hcount⟩, rfl, rfl, rfl, rfl⟩
  | exitLoad =>
      obtain ⟨rfl, rfl⟩ := Prod.mk.inj (Option.some.inj h)
      exact ⟨⟨hwf, hcount⟩, ⟨hblocked, hcount⟩, rfl, rfl, rfl, rfl⟩
  | exitStore v =>
      obtain ⟨rfl, rfl⟩ := Prod.mk.inj (Option.some.inj h)
      obtain ⟨hpos, rfl⟩ : 0 < depth ∧ v = depth := hwf
      have hpred : ((depth : ℤ) - 1) = ((depth - 1 : ℕ) : ℤ) := by omega
      refine ⟨hpred, ⟨?_, hpred⟩, rfl, rfl, rfl, ?_⟩
      · simpa [SigCtx.inside, hpos] using hblocked
      · simp [SigCtx.holder, SigCtx.inside, instrMarks, hpos]
  | exitTest v =>
      obtain rfl : v = depth := hwf
      rcases Nat.eq_zero_or_pos depth with rfl | hpos
      · obtain ⟨rfl, rfl⟩ := Prod.mk.inj (Option.some.inj h)
        exact ⟨rfl, ⟨hblocked, hcount⟩, rfl, rfl, rfl, rfl⟩
      · have hne : ¬ (depth : ℤ) = 0 := by omega
        simp only [sigInstr, if_neg hne] at h
        obtain ⟨rfl, rfl⟩ := Prod.mk.inj (Option.some.inj h)
        refine ⟨trivial, ⟨?_, hcount⟩, rfl, rfl, rfl, ?_⟩
        · simpa [SigCtx.inside, hpos] using hblocked
        · simp [SigCtx.holder, SigCtx.inside, instrMarks, hpos]
  | exitUnblock =>
      obtain ⟨rfl, rfl⟩ := Prod.mk.inj (Option.some.inj h)
      obtain rfl : depth = 0 := hwf
      refine ⟨trivial, ⟨?_, hcount⟩, rfl, rfl, rfl, rfl⟩
      -- the signal is unblocked whatever the mask was before; it was blocked by this very set
      have hb : g.blocked = set := by simpa [SigCtx.inside] using hblocked
      simp [SigCtx.inside, hb]
  | yieldBlock =>
      obtain ⟨rfl, rfl⟩ := Prod.mk.inj (Option.some.inj h)
      obtain rfl : depth = 0 := hwf
      have hb : g.blocked = false := by simpa [SigCtx.inside] using hblocked
      exact ⟨⟨rfl, hb⟩, ⟨by simp [SigCtx.inside, hb], hcount⟩, rfl, rfl, rfl, rfl⟩
  | yieldBack old =>
      obtain ⟨rfl, rfl⟩ := Prod.mk.inj (Option.some.inj h)
      obtain ⟨rfl, rfl⟩ : depth = 0 ∧ old = false := hwf
      exact ⟨trivial, ⟨by simp [SigCtx.inside], hcount⟩, rfl, rfl, rfl, rfl⟩
  | loopClear =>
      obtain ⟨rfl, rfl⟩ := Prod.mk.inj (Option.some.inj h)
      exact ⟨hwf, ⟨hblocked, hcount⟩, rfl, rfl, rfl, rfl⟩
  | loopBlock =>
      obtain ⟨rfl, rfl⟩ := Prod.mk.inj (Option.some.inj h)
      obtain rfl : depth = 0 := hwf
      have hb : g.blocked = false := by simpa [SigCtx.inside] using hblocked
      exact ⟨⟨rfl, hb⟩, ⟨by simp [SigCtx.inside, hb], hcount⟩, rfl, rfl, rfl, rfl⟩
  | loopNone old =>
      obtain ⟨rfl, rfl⟩ := Prod.mk.inj (Option.some.inj h)
      obtain ⟨rfl, rfl⟩ : depth = 0 ∧ old = false := hwf
      exact ⟨rfl, ⟨by simp [SigCtx.inside], hcount⟩, rfl, rfl, rfl, rfl⟩
  | loopEntry old =>
      obtain ⟨rfl, rfl⟩ := Prod.mk.inj (Option.some.inj h)
      exact ⟨hwf, ⟨hblocked, hcount⟩, rfl, rfl, rfl, rfl⟩
  | loopUnblock old =>
      obtain ⟨rfl, rfl⟩ := Prod.mk.inj (Option.some.inj h)
      obtain ⟨rfl, rfl⟩ : depth = 0 ∧ old = false := hwf
      exact ⟨rfl, ⟨by simp [SigCtx.inside], hcount⟩, rfl, rfl, rfl, rfl⟩
  | body => exact absurd h (by simp [sigInstr])
  | yieldSwap old => exact absurd h (by simp [sigInstr])
  | gone => exact absurd h (by simp [sigInstr])
  | initEmpty => exact absurd h (by simp [sigInstr])
  | initAdd => exact absurd h (by simp [sigInstr])
  | initArm => exact absurd h (by simp [sigInstr])
  | loopTest => exact absurd h (by simp [sigInstr])
  | loopPick old => exact absurd h (by simp [sigInstr])
  | loopSwap old next => exact absurd h (by simp [sigInstr])

/-! ## The process -/

namespace Signals

/-- The registers of the thread: those the handler will give back to it. -/
def threadRegs (s : Signals) : SigRegs :=
  match s.handler with
  | none => s.regs
  | some (_, saved) => { s.regs with blocked := saved }

/-- **Who is in a masked region**: the handler, or the context that executes. -/
def holder (s : Signals) : Option Party :=
  match s.handler with
  | none => s.ctx.holder
  | some _ => some .handler

end Signals

/-- While no handler is active. -/
theorem Signals.holder_of_none {s : Signals} (h : s.handler = none) : s.holder = s.ctx.holder := by
  rw [Signals.holder, h]

/-- **The events of a step.** -/
def sigMarks {Op : Type*} (s : Signals) (a : SigAction Op) : List (Mark Party Op) :=
  match s.handler with
  | some (pc, _) =>
      match a with
      | .work x => [.act .handler x]
      | .instr => if pc = .ret then [.leave .handler] else []
      | _ => []
  | none =>
      match a with
      | .tick => [.enter .handler]
      | .work x => [.act .thread x]
      -- the mask of the loop, which is loaded, blocks the signal
      | .finish => [.enter .thread]
      | .instr =>
          match s.ctx.pc with
          -- so does that of a task that has yielded, but not that of a new one
          | .loopSwap _ next => if (s.tasks next).inside then [] else [.leave .thread]
          | _ => instrMarks Op s.ctx
      | _ => []

/-- Where the kernel works under the mask is inside. -/
theorem SigCtx.inside_of_working {c : SigCtx} (h : c.working = true) : c.inside = true := by
  obtain ⟨pc, depth, mask⟩ := c
  cases pc <;> first | exact h | rfl | cases h

/-- What is known of a task that does not execute: it is new, or has yielded once the loop was running,
or has returned. -/
def SigCtx.Out (set inLoop : Bool) (c : SigCtx) : Prop :=
  c.Fresh ∨ (c.Parked set ∧ inLoop = true) ∨ (c.pc = .gone ∧ c.depth = 0)

/-- **The invariant**: the registers of the thread are those of the context that executes, and every
other context has been left where its saved mask is right. -/
structure SigInv (src : TickSource) (s : Signals) : Prop where
  wf : s.ctx.Wf
  regs : s.threadRegs.Of s.alrmSet s.ctx
  handled : ∀ pc saved, s.handler = some (pc, saved) → s.armed = true ∧ saved = false
  armed : s.armed = true ∨ s.ctx.pc = .initArm → s.alrmSet = true ∨ s.ctx.pc = .initAdd
  init : s.ctx.pc.inInit = true → s.running = none ∧ src ≠ .external
  loop : s.running ≠ none → s.loop = ⟨.loopEntry false, 0, s.alrmSet⟩
  tasks : ∀ t, s.running ≠ some t → s.valid t = true → (s.tasks t).Out s.alrmSet s.loop.pc.inLoop
  target : ∀ next, s.ctx.pc.target = some next → s.valid next = true ∧ (s.tasks next).pc ≠ .gone
  external : src = .external → s.alrmSet = false

namespace SigInv

variable {Op : Type*} {src : TickSource} {s s' : Signals}

/-- When the program starts. -/
theorem of_main : SigInv src .main :=
  ⟨trivial, ⟨rfl, rfl⟩, by simp [Signals.main], by simp [Signals.main, Signals.ctx],
    fun h => absurd h (by simp [Signals.main, Signals.ctx, SigPc.inInit]), fun h => absurd rfl h,
    by simp [Signals.main], by simp [Signals.main, Signals.ctx, SigPc.target], fun _ => rfl⟩

/-- While no handler is active the registers are those of the context that executes. -/
theorem regs_of_none (h : SigInv src s) (hh : s.handler = none) : s.regs.Of s.alrmSet s.ctx := by
  have hregs := h.regs
  rwa [Signals.threadRegs, hh] at hregs

/-- **An armed timer and an open mask**: the context that executes is in no masked region. -/
theorem inside_of_open (h : SigInv src s) (harm : s.armed = true) (hopen : s.threadRegs.blocked = false) :
    s.ctx.inside = false := by
  rcases h.armed (Or.inl harm) with hset | hpc
  · have hb := h.regs.blocked
    rw [hopen, hset] at hb
    simpa using hb.symm
  · have hwf := h.wf
    unfold SigCtx.Wf at hwf
    rw [hpc] at hwf
    simp only at hwf
    simp [SigCtx.inside, hpc, hwf]

/-- A handler is active only while no context is in a masked region. -/
theorem inside_of_handler (h : SigInv src s) {pc : HandlerPc} {saved : Bool}
    (hh : s.handler = some (pc, saved)) : s.ctx.inside = false := by
  obtain ⟨harm, hsaved⟩ := h.handled pc saved hh
  refine h.inside_of_open harm ?_
  rw [Signals.threadRegs, hh]
  exact hsaved

/-- **A step of the context that executes**, which leaves the others alone. -/
theorem local_step (h : SigInv src s) (hh : s.handler = none) {g : SigRegs} {c : SigCtx} (hwf : c.Wf)
    (hg : g.Of s.alrmSet c)
    (harm : s.armed = true ∨ c.pc = .initArm → s.alrmSet = true ∨ c.pc = .initAdd)
    (hinit : c.pc.inInit = true → s.running = none ∧ src ≠ .external)
    (hloop : s.ctx.pc.inLoop = true → c.pc.inLoop = true)
    (htgt : ∀ next, c.pc.target = some next → s.valid next = true ∧ (s.tasks next).pc ≠ .gone) :
    SigInv src (s.put g c) := by
  have hregs : (s.put g c).threadRegs = g := by simp [Signals.threadRegs, hh]
  refine ⟨?_, ?_, ?_, ?_, ?_, ?_, ?_, ?_, ?_⟩
  · rwa [s.ctx_put]
  · rwa [s.ctx_put, s.put_alrmSet, hregs]
  · intro pc saved hp
    rw [s.put_handler, hh] at hp
    cases hp
  · rw [s.put_armed, s.put_alrmSet, s.ctx_put]
    exact harm
  · rw [s.ctx_put, s.put_running]
    exact hinit
  · rw [s.put_running, s.put_alrmSet]
    intro hr
    rw [s.put_loop g c hr]
    exact h.loop hr
  · intro t ht hv
    rw [s.put_running] at ht
    rw [s.put_valid] at hv
    rw [s.put_tasks g c ht, s.put_alrmSet]
    -- a parked task stays one because the loop is not left
    rcases h.tasks t ht hv with hf | ⟨hp, hl⟩ | hgone
    · exact Or.inl hf
    · refine Or.inr (Or.inl ⟨hp, ?_⟩)
      by_cases hr : s.running = none
      · have hc : s.ctx = s.loop ∧ (s.put g c).loop = c := by simp [Signals.ctx, Signals.put, hr]
        rw [hc.2]
        exact hloop (by rw [hc.1]; exact hl)
      · rw [s.put_loop g c hr]
        exact hl
    · exact Or.inr (Or.inr hgone)
  · intro next hn
    rw [s.ctx_put] at hn
    obtain ⟨hv, hlive⟩ := htgt next hn
    refine ⟨by rwa [s.put_valid], ?_⟩
    by_cases hr : s.running = some next
    · have hc : (s.put g c).tasks next = c := by simp [Signals.put, hr]
      rw [hc]
      intro hgone
      rw [hgone] at hn
      cases hn
    · rw [s.put_tasks g c hr]
      exact hlive
  · rw [s.put_alrmSet]
    exact h.external

/-- The context that executes goes to another place, which is inside if the old one was: a call begins,
or the loop goes on. -/
theorem move_step (h : SigInv src s) (hh : s.handler = none) (hpc : s.ctx.pc ≠ .initAdd) (pc : SigPc)
    (hwf : (s.ctx.goto pc).Wf) (hin : (s.ctx.goto pc).inside = s.ctx.inside)
    (hcount : (s.ctx.goto pc).counted = s.ctx.counted)
    (harm' : pc ≠ .initArm) (hinit : pc.inInit = true → s.running = none ∧ src ≠ .external)
    (hloop : s.ctx.pc.inLoop = true → pc.inLoop = true)
    (htgt : ∀ next, pc.target = some next → s.valid next = true ∧ (s.tasks next).pc ≠ .gone) :
    SigInv src (s.goto pc) ∧ (s.goto pc).holder = s.holder := by
  have hg := h.regs_of_none hh
  have hg' : s.regs.Of s.alrmSet (s.ctx.goto pc) :=
    ⟨by rw [hin]; exact hg.blocked, by rw [hcount]; exact hg.critDepth⟩
  have harm : s.armed = true ∨ pc = .initArm → s.alrmSet = true ∨ pc = .initAdd := fun ha =>
    (h.armed (Or.inl (ha.resolve_right harm'))).imp_right fun hp => absurd hp hpc
  refine ⟨h.local_step hh hwf hg' harm hinit hloop htgt, ?_⟩
  have hh' : (s.goto pc).handler = none := (s.put_handler _ _).trans hh
  have hctx : (s.goto pc).ctx = s.ctx.goto pc := s.ctx_put _ _
  rw [Signals.holder_of_none hh', Signals.holder_of_none hh, hctx, SigCtx.holder, SigCtx.holder, hin]

/-- **A call begins**, from code of a context's own. -/
theorem call_step (h : SigInv src s) (hh : s.handler = none) (hbody : s.ctx.pc = .body) {pc : SigPc}
    (hpc : pc = .enterLoad ∨ pc = .exitLoad ∨ pc = .yieldBlock ∨ pc = .initEmpty ∨ pc = .loopTest)
    (hwf : (s.ctx.goto pc).Wf) (hinit : pc = .initEmpty → s.running = none ∧ src ≠ .external) :
    SigInv src (s.goto pc) ∧ (s.goto pc).holder = s.holder := by
  have hin : s.ctx.inside = decide (0 < s.ctx.depth) := by
    rw [SigCtx.inside, hbody]
  have hcount : s.ctx.counted = s.ctx.depth := by
    rw [SigCtx.counted, hbody]
  have hold : s.ctx.pc ≠ .initAdd ∧ (s.ctx.pc.inLoop = true → pc.inLoop = true) := by
    rw [hbody]
    exact ⟨by simp, fun hl => by cases hl⟩
  refine h.move_step hh hold.1 pc hwf ?_ ?_ ?_ ?_ hold.2 ?_
  · rw [hin]
    rcases hpc with rfl | rfl | rfl | rfl | rfl <;> rfl
  · rw [hcount]
    rcases hpc with rfl | rfl | rfl | rfl | rfl <;> rfl
  · rcases hpc with rfl | rfl | rfl | rfl | rfl <;> simp
  · rcases hpc with rfl | rfl | rfl | rfl | rfl
    case inr.inr.inr.inl => exact fun _ => hinit rfl
    all_goals exact fun hi => by cases hi
  · rcases hpc with rfl | rfl | rfl | rfl | rfl <;> exact fun _ hn => by cases hn

/-- **The loop goes on** to a place that is inside if the old one was. -/
theorem loop_step (h : SigInv src s) (hh : s.handler = none) (hold : s.ctx.pc.inLoop = true) {pc : SigPc}
    (hpc : pc.inLoop = true) (hwf : (s.ctx.goto pc).Wf) (hin : (s.ctx.goto pc).inside = s.ctx.inside)
    (htgt : ∀ next, pc.target = some next → s.valid next = true ∧ (s.tasks next).pc ≠ .gone) :
    SigInv src (s.goto pc) ∧ (s.goto pc).holder = s.holder := by
  have hcount : (s.ctx.goto pc).counted = s.ctx.depth := by
    cases pc <;> first | rfl | cases hpc
  have hcount' : s.ctx.counted = s.ctx.depth := by
    revert hold
    cases hp : s.ctx.pc <;> simp [SigPc.inLoop, SigCtx.counted, hp]
  refine h.move_step hh ?_ pc hwf hin (hcount.trans hcount'.symm) ?_ ?_ (fun _ => hpc) htgt
  · intro hp
    rw [hp] at hold
    cases hold
  · rintro rfl
    cases hpc
  · intro hi
    exact absurd (pc.inInit_of_inLoop hpc) (by simp [hi])

/-! ### The steps -/

/-- A handler's steps. -/
theorem handler_step (h : SigInv src s) {pc : HandlerPc} {saved : Bool} {a : SigAction Op}
    (hh : s.handler = some (pc, saved)) (hstep : handlerStep s pc saved a = some s') :
    SigInv src s' ∧ exec serialStep s.holder (sigMarks s a) = some s'.holder := by
  have hin := h.inside_of_handler hh
  obtain ⟨harm, hsaved⟩ := h.handled pc saved hh
  -- the thread's registers are the same whatever the handler does
  have hregs := h.regs
  rw [Signals.threadRegs, hh] at hregs
  cases a with
  | work x =>
      simp only [handlerStep] at hstep
      split at hstep
      · obtain rfl := Option.some.inj hstep
        refine ⟨h, ?_⟩
        simp only [Signals.holder, sigMarks, hh]
        rfl
      · exact absurd hstep (by simp)
  | instr =>
      cases pc with
      | isr =>
          obtain rfl := Option.some.inj hstep
          refine ⟨⟨h.wf, hregs, ?_, h.armed, h.init, h.loop, h.tasks, h.target,
            h.external⟩, ?_⟩
          · rintro pc' saved' hp
            obtain ⟨-, rfl⟩ := Prod.mk.inj (Option.some.inj hp)
            exact ⟨harm, hsaved⟩
          · simp [Signals.holder, sigMarks, hh]
      | pend =>
          obtain rfl := Option.some.inj hstep
          refine ⟨⟨h.wf, hregs, ?_, h.armed, h.init, h.loop, h.tasks, h.target,
            h.external⟩, ?_⟩
          · rintro pc' saved' hp
            obtain ⟨-, rfl⟩ := Prod.mk.inj (Option.some.inj hp)
            exact ⟨harm, hsaved⟩
          · simp [Signals.holder, sigMarks, hh]
      | ret =>
          obtain rfl := Option.some.inj hstep
          refine ⟨⟨h.wf, hregs, by simp, h.armed, h.init, h.loop, h.tasks, h.target,
            h.external⟩, ?_⟩
          have hout : s.ctx.holder = none := by simp [SigCtx.holder, hin]
          simp only [Signals.holder, sigMarks, hh]
          exact congrArg some hout.symm
  | enter | exit | yield | create _ | finish | init | start | poll _ | pick _ | tick =>
      exact absurd hstep (by simp [handlerStep])

/-- **A tick is delivered.** -/
theorem tick_step (h : SigInv src s) (hh : s.handler = none)
    (hstep : threadStep src s (.tick : SigAction Op) = some s') :
    SigInv src s' ∧ exec serialStep s.holder (sigMarks s (.tick : SigAction Op)) = some s'.holder := by
  simp only [threadStep] at hstep
  split at hstep
  · rename_i hc
    obtain ⟨harm, hopen⟩ := hc
    obtain rfl := Option.some.inj hstep
    have hthread : s.threadRegs = s.regs := by rw [Signals.threadRegs, hh]
    have hin := h.inside_of_open harm (by rw [hthread]; exact hopen)
    refine ⟨⟨h.wf, ?_, ?_, h.armed, h.init, h.loop, h.tasks, h.target,
            h.external⟩, ?_⟩
    · exact h.regs_of_none hh
    · rintro pc saved hp
      obtain ⟨-, rfl⟩ := Prod.mk.inj (Option.some.inj hp)
      exact ⟨harm, hopen⟩
    · have hout : s.ctx.holder = none := by simp [SigCtx.holder, hin]
      simp only [Signals.holder, sigMarks, hh, hout]
      rfl
  · exact absurd hstep (by simp)

/-- **A new context** has the mask of its creator, which is open. -/
theorem create_step (h : SigInv src s) (hh : s.handler = none) {i : ℕ}
    (hstep : threadStep src s (.create i : SigAction Op) = some s') :
    SigInv src s' ∧ s'.holder = s.holder := by
  obtain ⟨hctx, -, -⟩ := threadStep_create src hstep
  simp only [threadStep] at hstep
  split at hstep
  · rename_i hc
    obtain ⟨hpc, hdepth, -⟩ := hc
    obtain rfl := Option.some.inj hstep
    have hopen : s.regs.blocked = false := by
      rw [(h.regs_of_none hh).blocked]
      simp [SigCtx.inside, hpc, hdepth]
    refine ⟨⟨by rw [hctx]; exact h.wf, by rw [hctx]; exact h.regs, h.handled, by rw [hctx]; exact h.armed,
      by rw [hctx]; exact h.init, h.loop, ?_, ?_, h.external⟩, by simp only [Signals.holder, hctx]⟩
    rotate_left
    · rw [hctx, hpc]
      intro next hn
      cases hn
    intro t ht hv
    by_cases hti : t = i
    · subst hti
      left
      simp [SigCtx.Fresh, hopen]
    · have hv' : s.valid t = true := by simpa [hti] using hv
      simpa [Function.update_of_ne hti] using h.tasks t ht hv'
  · exact absurd hstep (by simp)

/-- **A task gives the CPU to the loop**, outside of sections: the loop is where it was left, masked. -/
theorem to_loop (h : SigInv src s) (hh : s.handler = none) {t : ℕ} (hrun : s.running = some t)
    (hdepth : s.ctx.counted = 0) (hpc : s.ctx.pc ≠ .initAdd) {c : SigCtx} (hc : c.Out s.alrmSet true) :
    SigInv src (s.toLoop t c) ∧ (s.toLoop t c).holder = some .thread := by
  have hloop := h.loop (by rw [hrun]; simp)
  have hctx : (s.toLoop t c).ctx = ⟨.loopEntry false, 0, s.alrmSet⟩ := hloop
  have hregs : (s.toLoop t c).threadRegs = ⟨s.alrmSet, 0⟩ := by
    have hcount : s.regs.critDepth = 0 := (h.regs_of_none hh).critDepth.trans hdepth
    simp only [Signals.threadRegs, Signals.toLoop, hh, hloop, hcount]
  constructor
  · refine ⟨?_, ?_, ?_, ?_, ?_, ?_, ?_, ?_, h.external⟩
    · rw [hctx]
      exact ⟨rfl, rfl⟩
    · rw [hctx, hregs]
      exact ⟨(Bool.and_true _).symm, rfl⟩
    · intro pc saved hp
      exact absurd (hh.symm.trans hp) (by simp)
    · intro ha
      rw [hctx] at ha
      exact Or.inl ((h.armed (Or.inl (ha.resolve_right (by simp)))).resolve_right hpc)
    · rw [hctx]
      intro hi
      cases hi
    · intro hr
      exact absurd rfl hr
    · intro u hu hv
      show SigCtx.Out s.alrmSet s.loop.pc.inLoop (Function.update s.tasks t c u)
      rw [hloop]
      by_cases hut : u = t
      · subst hut
        rw [Function.update_self]
        exact hc
      · have hu' : s.running ≠ some u := by
          rw [hrun]
          exact fun e => hut (Option.some.inj e).symm
        rw [Function.update_of_ne hut]
        simpa [hloop] using h.tasks u hu' hv
    · rw [hctx]
      intro next hn
      cases hn
  · have hh' : (s.toLoop t c).handler = none := hh
    simp only [Signals.holder, hh', hctx]
    rfl

/-- **A task returns** through `uc_link`. -/
theorem finish_step (h : SigInv src s) (hh : s.handler = none)
    (hstep : threadStep src s (.finish : SigAction Op) = some s') :
    SigInv src s' ∧ exec serialStep s.holder (sigMarks s (.finish : SigAction Op)) = some s'.holder := by
  simp only [threadStep] at hstep
  split at hstep
  · exact absurd hstep (by simp)
  · rename_i t hrun
    split at hstep
    · rename_i hc
      obtain ⟨hpc, hdepth⟩ := hc
      obtain rfl := Option.some.inj hstep
      have hcount : s.ctx.counted = 0 := by simp [SigCtx.counted, hpc, hdepth]
      obtain ⟨hinv, hheld⟩ := h.to_loop hh hrun hcount (by simp [hpc])
        (c := s.ctx.goto .gone) (Or.inr (Or.inr ⟨rfl, hdepth⟩))
      refine ⟨hinv, ?_⟩
      have hout : s.ctx.holder = none := by simp [SigCtx.holder, SigCtx.inside, hpc, hdepth]
      rw [hheld]
      simp only [Signals.holder, hh, sigMarks, hout]
      rfl
    · exact absurd hstep (by simp)

/-- **The loop gives the CPU to a task**: a new one starts unmasked, one that has yielded goes on
masked. -/
theorem to_task (h : SigInv src s) (hh : s.handler = none) {next : ℕ} {old : Bool}
    (hrun : s.running = none) (hpc : s.ctx.pc = .loopSwap old next) :
    SigInv src (s.toTask next ⟨.loopEntry old, s.ctx.depth, s.regs.blocked⟩) ∧
    (s.toTask next ⟨.loopEntry old, s.ctx.depth, s.regs.blocked⟩).holder = (s.tasks next).holder := by
  have hg := h.regs_of_none hh
  have hwf := h.wf
  rw [SigCtx.Wf, hpc] at hwf
  obtain ⟨hdepth, rfl⟩ := hwf
  have hblocked : s.regs.blocked = s.alrmSet := by simpa [SigCtx.inside, hpc] using hg.blocked
  have hcount : s.regs.critDepth = 0 := hg.critDepth.trans (by simp [SigCtx.counted, hpc, hdepth])
  obtain ⟨hv, hlive⟩ := h.target next (by rw [hpc]; rfl)
  -- new or parked: in both cases what the context has saved is true of it
  have hnext : (s.tasks next).Wf ∧ SigRegs.Of s.alrmSet ⟨(s.tasks next).mask, 0⟩ (s.tasks next) ∧
      (s.tasks next).pc.inInit = false ∧ (s.tasks next).pc.target = none := by
    rcases h.tasks next (by rw [hrun]; simp) hv with hf | ⟨hp, -⟩ | ⟨hgone, -⟩
    · rw [hf]
      exact ⟨trivial, ⟨(Bool.and_false _).symm, rfl⟩, rfl, rfl⟩
    · rw [hp]
      exact ⟨⟨rfl, rfl⟩, ⟨(Bool.and_true _).symm, rfl⟩, rfl, rfl⟩
    · exact absurd hgone hlive
  have hadd : s.ctx.pc ≠ .initAdd := by simp [hpc]
  have hctx : (s.toTask next ⟨.loopEntry false, s.ctx.depth, s.regs.blocked⟩).ctx = s.tasks next := rfl
  constructor
  · refine ⟨hnext.1, ?_, ?_, ?_, ?_, ?_, ?_, ?_, h.external⟩
    · have hregs : (s.toTask next ⟨.loopEntry false, s.ctx.depth, s.regs.blocked⟩).threadRegs =
          ⟨(s.tasks next).mask, 0⟩ := by
        simp only [Signals.threadRegs, Signals.toTask, hh, hcount]
      rw [hregs]
      exact hnext.2.1
    · intro pc saved hp
      exact absurd (hh.symm.trans hp) (by simp)
    · intro ha
      rw [hctx] at ha
      refine Or.inl ((h.armed (Or.inl (ha.resolve_right fun hp => ?_))).resolve_right hadd)
      rw [hp] at hnext
      exact absurd hnext.2.2.1 (by simp [SigPc.inInit])
    · rw [hctx, hnext.2.2.1]
      intro hi
      cases hi
    · intro _
      show (⟨.loopEntry false, s.ctx.depth, s.regs.blocked⟩ : SigCtx) = _
      rw [hdepth, hblocked]
      rfl
    · intro u hu hvu
      rcases h.tasks u (by rw [hrun]; simp) hvu with hf | ⟨hp, -⟩ | hgone
      · exact Or.inl hf
      · exact Or.inr (Or.inl ⟨hp, rfl⟩)
      · exact Or.inr (Or.inr hgone)
    · rw [hctx, hnext.2.2.2]
      intro u hu
      cases hu
  · have hh' : (s.toTask next ⟨.loopEntry false, s.ctx.depth, s.regs.blocked⟩).handler = none := hh
    simp only [Signals.holder, hh', hctx]

/-- **`hrt_port_start_systick`** changes the set while nobody has blocked anything and no task has run. -/
theorem init_step (h : SigInv src s) (hh : s.handler = none) (hinit : s.ctx.pc.inInit = true)
    (hdepth : s.ctx.depth = 0) (pc : SigPc) (hpc : pc = .initAdd ∨ pc = .initArm ∨ pc = .body)
    (set arm : Bool) (harm : arm = true ∨ pc = .initArm → set = true ∨ pc = .initAdd) :
    SigInv src { s.goto pc with alrmSet := set, armed := arm } ∧
    ({ s.goto pc with alrmSet := set, armed := arm } : Signals).holder = s.holder := by
  obtain ⟨hrun, hsrc⟩ := h.init hinit
  have hg := h.regs_of_none hh
  have hold : s.ctx.inside = false ∧ s.ctx.counted = 0 ∧ s.ctx.pc.inLoop = false := by
    revert hinit
    cases hp : s.ctx.pc <;> simp [SigPc.inInit, SigPc.inLoop, SigCtx.inside, SigCtx.counted, hp, hdepth]
  have hnew : (s.ctx.goto pc).Wf ∧ (s.ctx.goto pc).inside = false ∧ (s.ctx.goto pc).counted = 0 ∧
      pc.target = none := by
    rcases hpc with rfl | rfl | rfl <;>
      simp [SigCtx.goto, SigCtx.Wf, SigCtx.inside, SigCtx.counted, SigPc.target, hdepth]
  -- the state written out: `main` executes, so only its context changes
  have hs : ({ s.goto pc with alrmSet := set, armed := arm } : Signals) =
      { s with alrmSet := set, armed := arm, loop := s.ctx.goto pc } := by
    simp [Signals.goto, Signals.put, hrun]
  have hctx : Signals.ctx { s with alrmSet := set, armed := arm, loop := s.ctx.goto pc } =
      s.ctx.goto pc := by
    rw [Signals.ctx, hrun]
  have hregs : Signals.threadRegs { s with alrmSet := set, armed := arm, loop := s.ctx.goto pc } =
      s.regs := by
    rw [Signals.threadRegs, hh]
  rw [hs]
  constructor
  · refine ⟨?_, ?_, ?_, ?_, fun _ => ⟨hrun, hsrc⟩, fun hr => absurd hrun hr, ?_, ?_,
      fun hx => absurd hx hsrc⟩
    · rw [hctx]
      exact hnew.1
    · rw [hregs, hctx]
      refine ⟨?_, ?_⟩
      · rw [hg.blocked, hold.1, hnew.2.1, Bool.and_false, Bool.and_false]
      · rw [hg.critDepth, hold.2.1, hnew.2.2.1]
    · intro p saved hp
      exact absurd (hh.symm.trans hp) (by simp)
    · rw [hctx]
      exact harm
    · intro t ht hv
      -- `main` has not started the loop, so no task is parked
      have hloop : s.loop.pc.inLoop = false := by
        have hc : s.ctx = s.loop := by rw [Signals.ctx, hrun]
        rw [← hc]
        exact hold.2.2
      rcases h.tasks t ht hv with hf | ⟨-, hl⟩ | hgone
      · exact Or.inl hf
      · exact absurd (hloop.symm.trans hl) (by simp)
      · exact Or.inr (Or.inr hgone)
    · rw [hctx]
      intro next hn
      exact absurd (hnew.2.2.2.symm.trans hn) (by simp)
  · have hh' : Signals.handler { s with alrmSet := set, armed := arm, loop := s.ctx.goto pc } = none := hh
    rw [Signals.holder_of_none hh', Signals.holder_of_none hh, hctx, SigCtx.holder, SigCtx.holder,
      hold.1, hnew.2.1]

/-- **The steps that switch contexts or start the timer.** -/
theorem switch_step (h : SigInv src s) (hh : s.handler = none) (hstep : switchStep s = some s') :
    SigInv src s' ∧ exec serialStep s.holder (sigMarks s (.instr : SigAction Op)) = some s'.holder := by
  have hg := h.regs_of_none hh
  have hwf := h.wf
  unfold switchStep at hstep
  split at hstep
  · -- a task swaps to the loop
    rename_i t old hrun hpc
    obtain rfl := Option.some.inj hstep
    rw [SigCtx.Wf, hpc] at hwf
    obtain ⟨hdepth, rfl⟩ := hwf
    have hcount : s.ctx.counted = 0 := by simp [SigCtx.counted, hpc, hdepth]
    have hblocked : s.regs.blocked = s.alrmSet := by simpa [SigCtx.inside, hpc] using hg.blocked
    have hparked : SigCtx.Parked s.alrmSet ⟨.yieldBack false, s.ctx.depth, s.regs.blocked⟩ := by
      rw [SigCtx.Parked, hdepth, hblocked]
    obtain ⟨hinv, hheld⟩ := h.to_loop hh hrun hcount (by simp [hpc]) (Or.inr (Or.inl ⟨hparked, rfl⟩))
    refine ⟨hinv, ?_⟩
    rw [hheld]
    simp [Signals.holder, hh, sigMarks, SigCtx.holder, SigCtx.inside, instrMarks, hpc]
  · -- the loop swaps to a task
    rename_i old next hrun hpc
    obtain rfl := Option.some.inj hstep
    obtain ⟨hinv, hheld⟩ := h.to_task hh hrun hpc
    refine ⟨hinv, ?_⟩
    have hthread : s.ctx.holder = some .thread := by simp [SigCtx.holder, SigCtx.inside, hpc]
    rw [hheld]
    simp only [Signals.holder, hh, sigMarks, hpc, hthread]
    unfold SigCtx.holder
    split <;> rfl
  -- the three steps of `hrt_port_start_systick`
  · rename_i hrun hpc
    obtain rfl := Option.some.inj hstep
    have hdepth : s.ctx.depth = 0 := by rwa [SigCtx.Wf, hpc] at hwf
    obtain ⟨hinv, hheld⟩ := h.init_step hh (by rw [hpc]; rfl) hdepth .initAdd (Or.inl rfl) false s.armed
      (fun _ => Or.inr rfl)
    have hs : ({ s.goto .initAdd with alrmSet := false, armed := s.armed } : Signals) =
        { s.goto .initAdd with alrmSet := false } := by
      simp [Signals.goto]
    rw [hs] at hinv hheld
    exact ⟨hinv, by simp [hheld, sigMarks, hh, hpc, instrMarks]⟩
  · rename_i hrun hpc
    obtain rfl := Option.some.inj hstep
    have hdepth : s.ctx.depth = 0 := by rwa [SigCtx.Wf, hpc] at hwf
    obtain ⟨hinv, hheld⟩ := h.init_step hh (by rw [hpc]; rfl) hdepth .initArm (Or.inr (Or.inl rfl)) true
      s.armed (fun _ => Or.inl rfl)
    have hs : ({ s.goto .initArm with alrmSet := true, armed := s.armed } : Signals) =
        { s.goto .initArm with alrmSet := true } := by
      simp [Signals.goto]
    rw [hs] at hinv hheld
    exact ⟨hinv, by simp [hheld, sigMarks, hh, hpc, instrMarks]⟩
  · rename_i hrun hpc
    obtain rfl := Option.some.inj hstep
    have hdepth : s.ctx.depth = 0 := by rwa [SigCtx.Wf, hpc] at hwf
    -- the signal has been added to the set in the step before
    obtain ⟨hinv, hheld⟩ := h.init_step hh (by rw [hpc]; rfl) hdepth .body (Or.inr (Or.inr rfl)) s.alrmSet
      true (fun _ => (h.armed (Or.inr hpc)).imp_right fun hp => absurd (hpc.symm.trans hp) (by simp))
    have hs : ({ s.goto .body with alrmSet := s.alrmSet, armed := true } : Signals) =
        { s.goto .body with armed := true } := by
      simp [Signals.goto]
    rw [hs] at hinv hheld
    exact ⟨hinv, by simp [hheld, sigMarks, hh, hpc, instrMarks]⟩
  · exact absurd hstep (by simp)

/-- A step without an event, after which the same party is in the region. -/
theorem quiet {a : SigAction Op} (hm : sigMarks s a = []) (h : SigInv src s' ∧ s'.holder = s.holder) :
    SigInv src s' ∧ exec serialStep s.holder (sigMarks s a) = some s'.holder := by
  rw [hm, h.2]
  exact ⟨h.1, rfl⟩

/-- **A call of the port begins**: `hrt_port_crit_enter`, `hrt_port_crit_exit`,
`hrt_port_yield_to_scheduler`, the timer setup of `hrt_port_start_systick`, or the loop. -/
theorem begin_step (h : SigInv src s) (hh : s.handler = none) {a : SigAction Op}
    (ha : a = .enter ∨ a = .exit ∨ a = .yield ∨ a = .init ∨ a = .start)
    (hstep : threadStep src s a = some s') : SigInv src s' ∧ s'.holder = s.holder := by
  rcases ha with rfl | rfl | rfl | rfl | rfl <;> simp only [threadStep] at hstep <;> split at hstep
  · rename_i hc
    obtain rfl := Option.some.inj hstep
    exact h.call_step hh hc.1 (Or.inl rfl) trivial fun hi => by cases hi
  · exact absurd hstep (by simp)
  · rename_i hc
    obtain rfl := Option.some.inj hstep
    exact h.call_step hh hc.1 (Or.inr (Or.inl rfl)) hc.2 fun hi => by cases hi
  · exact absurd hstep (by simp)
  · rename_i hc
    obtain rfl := Option.some.inj hstep
    exact h.call_step hh hc.1 (Or.inr (Or.inr (Or.inl rfl))) hc.2.1 fun hi => by cases hi
  · exact absurd hstep (by simp)
  · rename_i hc
    split at hstep
    · -- with an external tick source there is nothing to set up
      obtain rfl := Option.some.inj hstep
      exact ⟨h, rfl⟩
    · rename_i hsrc
      obtain rfl := Option.some.inj hstep
      exact h.call_step hh hc.2.1 (Or.inr (Or.inr (Or.inr (Or.inl rfl)))) hc.2.2 fun _ => ⟨hc.1, hsrc⟩
  · exact absurd hstep (by simp)
  · rename_i hc
    obtain rfl := Option.some.inj hstep
    exact h.call_step hh hc.2.1 (Or.inr (Or.inr (Or.inr (Or.inr rfl)))) hc.2.2 fun hi => by cases hi
  · exact absurd hstep (by simp)

/-- **Work on the kernel's data** is done by a thread that is in the region. -/
theorem work_step (h : SigInv src s) (hh : s.handler = none) {x : Op}
    (hstep : threadStep src s (.work x) = some s') :
    SigInv src s' ∧ exec serialStep s.holder (sigMarks s (.work x)) = some s'.holder := by
  simp only [threadStep] at hstep
  split at hstep
  · rename_i hc
    obtain rfl := Option.some.inj hstep
    refine ⟨h, ?_⟩
    have hthread : s.holder = some .thread := by
      rw [Signals.holder_of_none hh, SigCtx.holder, if_pos (SigCtx.inside_of_working hc)]
    simp only [sigMarks, hh, hthread]
    rfl
  · exact absurd hstep (by simp)

/-- **A statement of the port** that stays in the context that executes. -/
theorem instr_step (h : SigInv src s) (hh : s.handler = none) {r : SigRegs × SigCtx}
    (hr : sigInstr s.alrmSet s.regs s.ctx = some r) :
    SigInv src (s.put r.1 r.2) ∧
      exec serialStep s.holder (sigMarks s (.instr : SigAction Op)) = some (s.put r.1 r.2).holder := by
  obtain ⟨hwf, hg, hloop, hinit, htgt, hmarks⟩ := sigInstr_spec Op h.wf (h.regs_of_none hh) hr
  -- neither the timer setup nor a swap is among these statements
  have hold : s.ctx.pc ≠ .initAdd ∧ ∀ old next, s.ctx.pc ≠ .loopSwap old next := by
    constructor <;> intros <;> intro hp <;> simp [sigInstr, hp] at hr
  have hnew : r.2.pc ≠ .initArm := by
    intro hp
    rw [hp] at hinit
    cases hinit
  refine ⟨h.local_step hh hwf hg ?_ ?_ ?_ ?_, ?_⟩
  · intro ha
    exact (h.armed (Or.inl (ha.resolve_right hnew))).imp_right fun hp => absurd hp hold.1
  · rw [hinit]
    exact fun hi => by cases hi
  · rw [hloop]
    exact id
  · rw [htgt]
    exact fun _ hn => by cases hn
  · have hm : sigMarks s (.instr : SigAction Op) = instrMarks Op s.ctx := by
      simp only [sigMarks, hh]
      split
      · exact absurd ‹_› (hold.2 _ _)
      · rfl
    have hh' : (s.put r.1 r.2).handler = none := (s.put_handler _ _).trans hh
    rw [hm, Signals.holder_of_none hh, Signals.holder_of_none hh', s.ctx_put]
    exact hmarks

/-- **The loop looks at `g_switch_pending`.** -/
theorem poll_step (h : SigInv src s) (hh : s.handler = none) {pending : Bool}
    (hstep : threadStep src s (.poll pending : SigAction Op) = some s') :
    SigInv src s' ∧ s'.holder = s.holder := by
  simp only [threadStep] at hstep
  split at hstep
  · rename_i hc
    obtain rfl := Option.some.inj hstep
    have hwf := h.wf
    have hdepth : s.ctx.depth = 0 := by rwa [SigCtx.Wf, hc] at hwf
    have hold : s.ctx.pc.inLoop = true := by rw [hc]; rfl
    have hin : s.ctx.inside = false := by simp [SigCtx.inside, hc, hdepth]
    cases pending
    · exact h.loop_step hh hold rfl hdepth (by rw [hin]; simp [SigCtx.inside, SigCtx.goto, hdepth])
        fun _ hn => by cases hn
    · exact h.loop_step hh hold rfl hdepth (by rw [hin]; simp [SigCtx.inside, SigCtx.goto, hdepth])
        fun _ hn => by cases hn
  · exact absurd hstep (by simp)

/-- **The loop picks**: nobody, or a task whose context is valid. -/
theorem pick_step (h : SigInv src s) (hh : s.handler = none) {next : Option ℕ}
    (hstep : threadStep src s (.pick next : SigAction Op) = some s') :
    SigInv src s' ∧ s'.holder = s.holder := by
  have hwf := h.wf
  simp only [threadStep] at hstep
  split at hstep
  · rename_i old hc
    obtain rfl := Option.some.inj hstep
    rw [SigCtx.Wf, hc] at hwf
    exact h.loop_step hh (by rw [hc]; rfl) rfl hwf (by simp [SigCtx.inside, SigCtx.goto, hc])
      fun _ hn => by cases hn
  · rename_i old t hc
    split at hstep
    · rename_i hv
      obtain rfl := Option.some.inj hstep
      rw [SigCtx.Wf, hc] at hwf
      refine h.loop_step hh (by rw [hc]; rfl) rfl hwf (by simp [SigCtx.inside, SigCtx.goto, hc]) ?_
      intro next hn
      obtain rfl := Option.some.inj hn
      exact hv
    · exact absurd hstep (by simp)
  · exact absurd hstep (by simp)

/-- **A step of the thread.** -/
theorem thread_step (h : SigInv src s) (hh : s.handler = none) {a : SigAction Op}
    (hstep : threadStep src s a = some s') :
    SigInv src s' ∧ exec serialStep s.holder (sigMarks s a) = some s'.holder := by
  have hbegin := fun ha => h.begin_step hh ha hstep
  cases a with
  | enter => exact quiet (by simp [sigMarks, hh]) (hbegin (by simp))
  | exit => exact quiet (by simp [sigMarks, hh]) (hbegin (by simp))
  | yield => exact quiet (by simp [sigMarks, hh]) (hbegin (by simp))
  | init => exact quiet (by simp [sigMarks, hh]) (hbegin (by simp))
  | start => exact quiet (by simp [sigMarks, hh]) (hbegin (by simp))
  | create i => exact quiet (by simp [sigMarks, hh]) (h.create_step hh hstep)
  | finish => exact h.finish_step hh hstep
  | work x => exact h.work_step hh hstep
  | instr =>
      simp only [threadStep] at hstep
      split at hstep
      · obtain rfl := Option.some.inj hstep
        exact h.instr_step hh ‹_›
      · exact h.switch_step hh hstep
  | poll pending => exact quiet (by simp [sigMarks, hh]) (h.poll_step hh hstep)
  | pick next => exact quiet (by simp [sigMarks, hh]) (h.pick_step hh hstep)
  | tick => exact h.tick_step hh hstep

/-- **The invariant along a run.** -/
theorem step (h : SigInv src s) {a : SigAction Op} (hstep : sigStep src s a = some s') :
    SigInv src s' ∧ exec serialStep s.holder (sigMarks s a) = some s'.holder := by
  unfold sigStep at hstep
  split at hstep
  · exact h.handler_step ‹_› hstep
  · exact h.thread_step ‹_› hstep

theorem of_run {as : List (SigAction Op)} (hrun : exec (sigStep src) .main as = some s) : SigInv src s :=
  exec_invariant' (fun _ _ _ h hs => (h.step hs).1) of_main hrun

end SigInv

/-! ## The data of the kernel -/

/-- The process with the data that the kernel keeps, and the log of the work on them. -/
structure Traced (K Op : Type*) where
  sig : Signals
  shared : K
  log : List (Mark Party Op)

section Traced

variable {K Op : Type*} (src : TickSource) (f : Op → K → K)

/-- What an action does to the data. -/
def SigAction.effect : SigAction Op → K → K
  | .work x => f x
  | _ => id

/-- The machine with data and log. -/
def tracedStep (s : Traced K Op) (a : SigAction Op) : Option (Traced K Op) :=
  (sigStep src s.sig a).map fun sig => ⟨sig, a.effect f s.shared, s.log ++ sigMarks s.sig a⟩

/-- The invariant: the log is serial, and the data are what the log has made of them. -/
structure TracedInv (k₀ : K) (s : Traced K Op) : Prop where
  sig : SigInv src s.sig
  log : exec serialStep none s.log = some s.sig.holder
  shared : s.shared = runLog f k₀ s.log

variable {src f} {k₀ : K} {s s' : Traced K Op}

/-- The effect of a step is that of its events. -/
theorem runLog_sigMarks (sig : Signals) (a : SigAction Op) (k : K) :
    runLog f k (sigMarks sig a) = a.effect f k := by
  cases hh : sig.handler with
  | none =>
      cases a with
      | instr =>
          simp only [sigMarks, hh, SigAction.effect]
          split
          · split <;> rfl
          · unfold instrMarks
            split <;> rfl
      | work x => simp only [sigMarks, hh]; rfl
      | enter | exit | yield | create _ | finish | init | start | poll _ | pick _ | tick =>
          simp only [sigMarks, hh]
          rfl
  | some hd =>
      cases a with
      | instr =>
          simp only [sigMarks, hh, SigAction.effect]
          split <;> rfl
      | work x => simp only [sigMarks, hh]; rfl
      | enter | exit | yield | create _ | finish | init | start | poll _ | pick _ | tick =>
          simp only [sigMarks, hh]
          rfl

theorem TracedInv.step (h : TracedInv src f k₀ s) {a : SigAction Op}
    (hstep : tracedStep src f s a = some s') : TracedInv src f k₀ s' := by
  obtain ⟨sig, hsig, rfl⟩ := Option.map_eq_some_iff.mp hstep
  obtain ⟨hinv, hmarks⟩ := h.sig.step hsig
  refine ⟨hinv, ?_, ?_⟩
  · rw [exec_append]
    exact ⟨_, h.log, hmarks⟩
  · rw [runLog_append, ← h.shared, runLog_sigMarks]

theorem TracedInv.of_run {as : List (SigAction Op)}
    (hrun : exec (tracedStep src f) ⟨.main, k₀, []⟩ as = some s) : TracedInv src f k₀ s :=
  exec_invariant' (fun _ _ _ h hs => h.step hs) ⟨SigInv.of_main, rfl, rfl⟩ hrun

end Traced

/-! ## Results -/

section Results

variable {Op : Type*} {src : TickSource}

/-- **The signal mask is balanced.** In every run, however ticks arrive and contexts are switched:

* a tick handler runs only while no context is in a masked region;
* otherwise `SIGALRM` is blocked exactly while the context that executes is in such a region, so code
  outside of them never loses the tick, and `g_crit_depth` counts the sections of that context;
* every other context is in no section, and unless it has returned its saved mask is the one it needs
  when it goes on;
* with an external tick source `g_sigalrm_set` stays empty and nothing is ever blocked. -/
theorem signal_mask_balanced {as : List (SigAction Op)} {s : Signals}
    (hrun : exec (sigStep src) .main as = some s) :
    (s.handler ≠ none → s.ctx.inside = false) ∧
    (s.handler = none → s.regs.blocked = (s.alrmSet && s.ctx.inside)) ∧
    (s.ctx.pc = .body → s.regs.critDepth = s.ctx.depth) ∧
    (∀ t, s.running ≠ some t → s.valid t = true → (s.tasks t).depth = 0 ∧
      ((s.tasks t).pc ≠ .gone → (s.tasks t).mask = (s.alrmSet && (s.tasks t).inside))) ∧
    (src = .external → s.regs.blocked = false) := by
  have h := SigInv.of_run hrun
  refine ⟨?_, ?_, ?_, ?_, ?_⟩
  · intro hh
    obtain ⟨hd, hd'⟩ := Option.ne_none_iff_exists'.mp hh
    exact h.inside_of_handler hd'
  · intro hh
    exact (h.regs_of_none hh).blocked
  · intro hpc
    have hthread : s.threadRegs.critDepth = s.regs.critDepth := by
      unfold Signals.threadRegs
      split <;> rfl
    have hcount := h.regs.critDepth
    rw [SigCtx.counted, hpc] at hcount
    exact hthread.symm.trans hcount
  · intro t ht hv
    rcases h.tasks t ht hv with hf | ⟨hp, -⟩ | ⟨hgone, hdepth⟩
    · rw [hf]
      exact ⟨rfl, fun _ => (Bool.and_false _).symm⟩
    · rw [hp]
      exact ⟨rfl, fun _ => (Bool.and_true _).symm⟩
    · exact ⟨hdepth, fun hne => absurd hgone hne⟩
  · intro hx
    -- the timer was never armed, so there is no handler
    have hset := h.external hx
    cases hh : s.handler with
    | none => rw [(h.regs_of_none hh).blocked, hset, Bool.false_and]
    | some hd =>
        rcases h.armed (Or.inl (h.handled hd.1 hd.2 hh).1) with hs | hp
        · exact absurd (hset.symm.trans hs) (by simp)
        · exact absurd hx (h.init (by rw [hp]; rfl)).2

/-- `main` starts the timer, creates a task and starts the loop, which swaps to it. -/
def startTask : List (SigAction ℕ) :=
  [.init, .instr, .instr, .instr, .create 0, .start, .poll true, .instr, .instr, .pick (some 0), .work 1,
    .instr]

/-- A tick between the increment of `g_crit_depth` and the system call, in `hrt_port_crit_enter`. -/
def interruptedCrit : List (SigAction ℕ) :=
  [.enter, .instr, .instr, .instr, .tick, .work 2, .instr, .instr, .instr, .instr, .work 3]

/-- Inside its section the task has the signal blocked and counts one section. -/
theorem signal_mask_balanced_section :
    ∃ s, exec (sigStep .systick) .main (startTask ++ interruptedCrit) = some s ∧
      s.running = some 0 ∧ s.regs = ⟨true, 1⟩ := by
  have heval : ((exec (sigStep .systick) .main (startTask ++ interruptedCrit)).map fun s =>
      (s.running, s.handler, s.alrmSet, s.ctx)) = some (some 0, none, true, ⟨.body, 1, false⟩) := by
    decide +kernel
  obtain ⟨s, hs, hv⟩ := Option.map_eq_some_iff.mp heval
  simp only [Prod.mk.injEq] at hv
  obtain ⟨hrun, hh, hset, hctx⟩ := hv
  obtain ⟨-, hblocked, hdepth, -, -⟩ := signal_mask_balanced hs
  have hb : s.regs.blocked = true := by rw [hblocked hh, hset, hctx]; rfl
  have hd : s.regs.critDepth = 1 := by rw [hdepth (by rw [hctx]), hctx]; rfl
  refine ⟨s, hs, hrun, ?_⟩
  rw [← hb, ← hd]

variable {K : Type*} {f : Op → K → K} {k₀ : K}

/-- **Masked regions and tick handlers are atomic.** In every run the log of the work on the kernel's
data is a sequence of whole regions (a critical section, `hrt__tick_isr`, or the way through the loop from
the swap of one task to the start of the next), and at most one more that is still open; the data are
what those regions make of the initial data when each is executed in one step. -/
theorem masked_regions_serial {as : List (SigAction Op)} {s : Traced K Op}
    (hrun : exec (tracedStep src f) ⟨.main, k₀, []⟩ as = some s) :
    ∃ (blocks : List (Block Party Op)) (last : Option (Block Party Op)),
      s.log = blocks.flatMap Block.marks ++ last.elim [] Block.opened ∧
      s.shared = last.elim id (Block.effect f) (blocks.foldl (fun k b => b.effect f k) k₀) ∧
      last.map Block.who = s.sig.holder := by
  have h := TracedInv.of_run hrun
  obtain ⟨blocks, last, hlast, hlog⟩ := exists_blocks h.log
  refine ⟨blocks, last, hlog, ?_, hlast⟩
  rw [h.shared, hlog, runLog_append, runLog_blocks]
  cases last with
  | none => rfl
  | some b => exact runLog_opened f _ b

/-- The task leaves its section and yields; the loop notes it and finds nobody. -/
def yieldedTask : List (SigAction ℕ) :=
  [.exit, .instr, .instr, .instr, .instr, .tick, .work 4, .instr, .instr, .instr, .yield, .instr, .instr,
    .work 5, .instr, .instr]

/-- The data of the runs: the digits written so far. -/
def noteDigit (x k : ℕ) : ℕ := 10 * k + x

/-- The five digits are those of five regions. -/
theorem masked_regions_serial_yielded :
    ∃ s, ∃ blocks : List (Block Party ℕ),
      exec (tracedStep .systick noteDigit) ⟨.main, 0, []⟩ (startTask ++ interruptedCrit ++ yieldedTask) =
        some s ∧
      s.sig.running = none ∧ s.shared = 12345 ∧ s.log = blocks.flatMap Block.marks ∧
      s.shared = blocks.foldl (fun k b => b.effect noteDigit k) 0 := by
  have heval : ((exec (tracedStep .systick noteDigit) ⟨.main, 0, []⟩
      (startTask ++ interruptedCrit ++ yieldedTask)).map fun s =>
        (s.sig.running, s.shared, s.sig.holder)) = some (none, 12345, none) := by
    decide +kernel
  obtain ⟨s, hs, hv⟩ := Option.map_eq_some_iff.mp heval
  simp only [Prod.mk.injEq] at hv
  obtain ⟨hrun, hshared, hout⟩ := hv
  obtain ⟨blocks, last, hlog, heff, hlast⟩ := masked_regions_serial hs
  obtain rfl : last = none := by simpa [hout] using hlast
  exact ⟨s, blocks, hs, hrun, hshared, by simpa using hlog, heff⟩

end Results

end Posix

end HardRT
