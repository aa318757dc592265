import HardRT.CortexM.System
import HardRT.Posix.System
import HardRT.System.ReadyOrder

/-! # The moves of the ready queues on the two ports

* `Posix.moves`, `CortexM.moves` — the moves of a step.
* `Posix.moving`, `CortexM.moving` — the machines move the queues so. -/

namespace HardRT

open Lib

/-! ## POSIX -/

namespace Posix

/-- **The moves of a step of the POSIX machine**: the loop picks, a tick wakes the sleepers one by one,
and everything else is one operation. -/
def moves (sz : Sizing) (s : State) (a : Action) : List Move :=
  match a with
  | .loop => if s.mode = .cleared then [.pick s.sys.k] else []
  | .tick _ => tickMoves sz s.sys.k
  | a => ((step sz s a).map fun s' => Move.gain s.sys.k s'.sys.k).toList

/-- **The POSIX machine moves the queues so.** -/
theorem moving {sz : Sizing} (hr : sz.Representable) :
    Moving sz (step sz) (fun s => s.sys.k) (moves sz) (IdsInv sz) where
  inv s a s' h hstep := h.step hr hstep
  wf s h := h.known.ready.wf
  moves s a s' h hstep := by
    have hwf := h.known.ready.wf
    -- steps that are one operation
    have hone : Gains sz s.sys.k s'.sys.k → Moves sz s.sys.k
        ((step sz s a).map fun s' => Move.gain s.sys.k s'.sys.k).toList s'.sys.k := by
      intro hg
      rw [hstep]
      exact .one hg
    cases a with
    | main c =>
        refine hone ?_
        obtain ⟨-, rfl⟩ := step_main hstep
        exact h.known.main_gains hr .posix c
    | start =>
        refine hone ?_
        obtain ⟨-, rfl⟩ := step_start hstep
        exact .of_rq hwf rfl
    | loop =>
        simp only [moves]
        rcases step_loop hstep with ⟨hm, -, rfl⟩ | ⟨hm, rfl⟩ | ⟨hm, -, rfl⟩ | ⟨hm, -, rfl⟩
        · rw [if_neg (by rw [hm]; simp)]
          exact .stay rfl
        · rw [if_neg (by rw [hm]; simp)]
          exact .stay rfl
        · rw [if_pos hm]
          exact .pick rfl (.stay rfl)
        · rw [if_pos hm]
          exact .pick rfl (.stay rfl)
    | task c =>
        refine hone ?_
        obtain ⟨t, -, hcur, hact⟩ := step_task hstep
        rcases hact with ⟨o, ho, rfl⟩ | ⟨x, -, ⟨-, rfl⟩ | ⟨-, rfl⟩⟩
        · exact h.known.task_gains hr (h.cur t hcur) (taskEffect ho)
        · exact .of_rq hwf rfl
        · -- the loop gets the CPU back and may rotate the task
          exact ⟨_, _, AppendsOne.entry hwf hr (h.known.lt t (h.cur t hcur)) hcur⟩
    | finish =>
        refine hone ?_
        obtain ⟨t, -, -, -, rfl⟩ := step_finish hstep
        exact .of_rq hwf rfl
    | isr op =>
        refine hone ?_
        obtain rfl := Option.some.inj hstep
        exact h.known.isr_gains hr op
    | tick alarm =>
        obtain rfl := Option.some.inj hstep
        exact (Moves.tick hwf hr).congr (tickHandler_rq sz alarm s.sys.k)

end Posix

/-! ## Cortex-M -/

namespace CortexM

/-- **The moves of a step of the Cortex-M machine**: `hrt__schedule` queues the outgoing task, if it is
ready, and then picks. -/
def moves (sz : Sizing) (idleStack : ℕ) (s : Sys) (a : Action) : List Move :=
  match a with
  | .pendsv oldSp =>
      let k := saveOutgoing sz oldSp { s.k with pend := false }
      [.gain s.k k, .pick k]
  | .tick => tickMoves sz s.k
  | a => ((step sz idleStack s a).map fun s' => Move.gain s.k s'.k).toList

/-- **The Cortex-M machine moves the queues so.** -/
theorem moving {sz : Sizing} (hr : sz.Representable) (idleStack : ℕ) :
    Moving sz (step sz idleStack) Sys.k (moves sz idleStack) (IdsInv sz) where
  inv s a s' h hstep := h.step hr hstep
  wf s h := h.known.ready.wf
  moves s a s' h hstep := by
    have hwf := h.known.ready.wf
    -- steps that are one operation
    have hone : Gains sz s.k s'.k → Moves sz s.k
        ((step sz idleStack s a).map fun s' => Move.gain s.k s'.k).toList s'.k := by
      intro hg
      rw [hstep]
      exact .one hg
    cases a with
    | main c =>
        refine hone ?_
        obtain ⟨-, -, rfl⟩ := step_main hstep
        exact h.known.main_gains hr _ c
    | start =>
        refine hone ?_
        obtain ⟨-, rfl⟩ := step_start hstep
        exact .of_rq hwf rfl
    | task c =>
        refine hone ?_
        obtain ⟨t, hcur, -, ⟨o, ho, rfl⟩ | ⟨x, -, rfl⟩⟩ := step_task hstep
        · have hcont : s.conts t ≠ .none := by
            intro hn
            rw [hn] at ho
            exact absurd ho (by simp [nextAction])
          exact h.known.task_gains hr hcont (taskEffect ho)
        · exact .of_rq hwf rfl
    | isr op =>
        refine hone ?_
        obtain rfl := Option.some.inj hstep
        exact h.known.isr_gains hr op
    | tick =>
        obtain rfl := Option.some.inj hstep
        exact Moves.tick hwf hr
    | pendsv oldSp =>
        obtain ⟨-, -, rfl⟩ := step_pendsv hstep
        exact .gain rfl (h.known.saveOutgoing_gains hr oldSp) (.pick rfl (.stay rfl))

end CortexM

end HardRT
