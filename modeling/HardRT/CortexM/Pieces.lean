import HardRT.CortexM.System
import HardRT.Lib.Sections
import HardRT.System.Pieces

/-! # The Cortex-M machine in pieces

`CortexM.step` takes the unprotected bodies of `hrt_yield`, `hrt_sleep`, `hrt_create_task` and
`hrt__tick_isr` as single steps. On the processor SysTick and the interrupts above it arrive between any
two of their stores, an interrupt of a higher priority also inside `hrt__tick_isr`, and PendSV as soon as
neither of them runs. `CortexM.machine` is the machine in which they do.

* `CortexM.machine` — the machine in pieces over `CortexM.step`.
* `CortexM.whole_eq` — finishing the open bodies changes the kernel only. -/

namespace HardRT

open Lib

namespace CortexM

/-- The unprotected part of an action. -/
def pieces (sz : Sizing) (s : Sys) : Action → List Piece
  | .main (.createTask a) => createPieces sz a s.k
  | .task c => s.k.current.elim [] fun t => bodyPieces sz t c s.k (s.conts t)
  | .tick => tickPieces sz
  | _ => []

/-- Who takes an action: SysTick suspends threads, other interrupts suspend SysTick, and PendSV switches
threads. -/
def level : Action → Level
  | .main _ | .start | .task _ => .thread
  | .tick => .handler
  | .isr _ => .interrupt
  | .pendsv _ => .switch

/-- The interrupts that leave a piece, still to run, as it is. -/
def Spares (sz : Sizing) (c : Piece) (s : Sys) : Action → Prop
  | .tick => c.SparedByTick sz s.k
  | .isr op => c.SparedByIsr sz s.k op
  | _ => False

instance (sz : Sizing) (c : Piece) (s : Sys) : DecidablePred (Spares sz c s)
  | .tick => inferInstanceAs (Decidable (c.SparedByTick sz s.k))
  | .isr op => inferInstanceAs (Decidable (c.SparedByIsr sz s.k op))
  | .main _ | .start | .task _ | .pendsv _ => instDecidableFalse

section Laws

variable {sz : Sizing} {idleStack : ℕ} {s s' : Sys} {a : Action}

/-- Pieces, run on a system, run on its kernel. -/
theorem foldl_effect (port : Port) (ps : List Piece) (s : Sys) :
    ps.foldl (fun s c => { s with k := c.effect sz port s.k }) s =
      { s with k := completePieces sz port ps s.k } := by
  induction ps generalizing s with
  | nil => rfl
  | cons c ps ih => exact ih _

/-- **The pieces of an action, run to their end**, are all that it does to the kernel. -/
theorem complete_pieces (hstep : step sz idleStack s a = some s') (hne : pieces sz s a ≠ []) :
    completePieces sz (.cortexM idleStack) (pieces sz s a) s.k = s'.k := by
  cases a with
  | main c =>
      obtain ⟨-, -, rfl⟩ := step_main hstep
      cases c with
      | createTask a => exact complete_createPieces hne
      | setPolicy p => exact absurd rfl hne
      | setDefaultTimeslice n => exact absurd rfl hne
  | task c =>
      obtain ⟨t, hcur, -, ⟨o, ho, rfl⟩ | ⟨x, hx, -⟩⟩ := step_task hstep
      · simp only [pieces, hcur, Option.elim] at hne ⊢
        exact complete_bodyPieces ho hne
      · simp only [pieces, hcur, Option.elim, hx] at hne
        exact absurd rfl hne
  | tick =>
      obtain rfl := Option.some.inj hstep
      rfl
  | _ => exact absurd rfl hne

/-- An interrupt commutes with the pieces that it spares. -/
theorem Spares.step {c : Piece} (h : Spares sz c s a) (hstep : step sz idleStack s a = some s') :
    CortexM.step sz idleStack { s with k := c.effect sz (.cortexM idleStack) s.k } a =
      some { s' with k := c.effect sz (.cortexM idleStack) s'.k } := by
  cases a with
  | tick =>
      obtain rfl := Option.some.inj hstep
      refine congrArg some ?_
      simp only [Sys.tickIsr, Piece.SparedByTick.commutes h]
  | isr op =>
      obtain rfl := Option.some.inj hstep
      refine congrArg some ?_
      simp only [Sys.isr, Piece.SparedByIsr.commutes h]
  | _ => exact absurd h not_false

end Laws

/-- **The Cortex-M machine in pieces.** An unprotected body opens a section: its call is logged and its
continuation set when it begins, and its changes of the kernel follow piece by piece, while no switch is
pending. -/
def machine (sz : Sizing) (idleStack : ℕ) : Sectioned Sys Action Piece (Option ℕ) where
  atomic := step sz idleStack
  level := level
  opens s a :=
    if pieces sz s a = [] then none
    else
      -- log and continuation are those after the call, the kernel is still the one before it
      (step sz idleStack s a).map fun s' => ({ s' with k := s.k }, pieces sz s a)
  run c s := ({ s with k := (c.run sz (.cortexM idleStack) s.k).1 }, (c.run sz (.cortexM idleStack) s.k).2)
  effect c s := { s with k := c.effect sz (.cortexM idleStack) s.k }
  place s := s.k.current
  -- a pending PendSV is taken before the thread goes on
  goes s := !s.k.pend
  spares c s a := Spares sz c s a
  run_effect c s := by
    rw [foldl_effect, complete_run]
  opens_atomic := by
    intro s a s₀ ps h
    split_ifs at h with hne
    obtain ⟨s', hs', heq⟩ := Option.map_eq_some_iff.mp h
    obtain ⟨rfl, rfl⟩ := Prod.mk.inj heq
    rw [foldl_effect, complete_pieces hs' hne, hs']
  place_effect c s := Piece.effect_current sz _ c s.k
  place_atomic := fun hlev hstep => step_current hstep fun _ ha => hlev (ha ▸ rfl)
  spares_effect := Spares.step
  spares_level := by
    intro c s a h
    cases a with
    | tick => decide
    | isr op => simp [level]
    | _ => exact absurd h not_false

instance (sz : Sizing) (idleStack : ℕ) (c : Piece) (s : Sys) (a : Action) :
    Decidable ((machine sz idleStack).spares c s a) :=
  inferInstanceAs (Decidable (Spares sz c s a))

/-- The finished state differs in the kernel only. -/
theorem whole_eq (sz : Sizing) (idleStack : ℕ) (x : Sectioned.State Sys Piece (Option ℕ)) :
    (machine sz idleStack).whole x = { x.base with
      k := completePieces sz (.cortexM idleStack) (x.handler ++ x.here (machine sz idleStack))
        x.base.k } := by
  rw [Sectioned.whole, ← Sectioned.complete_append]
  exact foldl_effect _ _ _

end CortexM

end HardRT
