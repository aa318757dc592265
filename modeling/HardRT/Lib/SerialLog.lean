import HardRT.Lib.Machine
import Mathlib.Data.List.Induction

/-! # Serial logs

Agents work on a shared state inside sections: they enter, act any number of times and leave. The log of
a system is *serial* when nobody acts outside a section and no two sections overlap. A serial log is a
sequence of blocks, one section each, so the shared state at its end is that of a system in which whole
sections are the atomic steps.

* `Mark` — an event of a section; `serialStep` the automaton of the serial logs.
* `exists_blocks` — a serial log is a sequence of blocks and, if somebody is inside, an unfinished one.
* `runLog_blocks` — the effect of a block is that of its actions, one after the other. -/

namespace Lib

variable {ω α σ : Type*}

/-- An event of a section of agent `w`. -/
inductive Mark (ω α : Type*)
  | enter (w : ω)
  | act (w : ω) (x : α)
  | leave (w : ω)

/-- **The automaton of the serial logs**; its state is who is inside. -/
def serialStep [DecidableEq ω] : Option ω → Mark ω α → Option (Option ω)
  | none, .enter w => some (some w)
  | some h, .act w _ => if w = h then some (some h) else none
  | some h, .leave w => if w = h then some none else none
  | none, .act _ _ | none, .leave _ | some _, .enter _ => none

/-- One section, from its beginning to its end. -/
structure Block (ω α : Type*) where
  who : ω
  acts : List α

/-- The events of a section that has begun. -/
def Block.opened (b : Block ω α) : List (Mark ω α) := .enter b.who :: b.acts.map (.act b.who)

/-- The events of a whole section. -/
def Block.marks (b : Block ω α) : List (Mark ω α) := b.opened ++ [.leave b.who]

/-- **A serial log is a sequence of sections**, the last of them unfinished if somebody is inside. -/
theorem exists_blocks [DecidableEq ω] {log : List (Mark ω α)} {h : Option ω}
    (hs : exec serialStep none log = some h) :
    ∃ (blocks : List (Block ω α)) (last : Option (Block ω α)), last.map Block.who = h ∧
      log = blocks.flatMap Block.marks ++ last.elim [] Block.opened := by
  induction log using List.reverseRecOn generalizing h with
  | nil =>
      obtain rfl := Option.some.inj hs
      exact ⟨[], none, rfl, rfl⟩
  | append_singleton log e ih =>
      obtain ⟨g, hg, he⟩ := exec_concat.mp hs
      obtain ⟨blocks, last, rfl, rfl⟩ := ih hg
      cases last with
      | none =>
          cases e with
          | enter w =>
              obtain rfl := Option.some.inj he
              exact ⟨blocks, some ⟨w, []⟩, rfl, by simp [Block.opened]⟩
          | act w x => exact absurd he (by simp [serialStep])
          | leave w => exact absurd he (by simp [serialStep])
      | some b =>
          cases e with
          | enter w => exact absurd he (by simp [serialStep])
          | act w x =>
              simp only [Option.map_some, serialStep] at he
              split at he
              · rename_i hw
                obtain rfl := Option.some.inj he
                exact ⟨blocks, some ⟨b.who, b.acts ++ [x]⟩, rfl, by simp [Block.opened, hw]⟩
              · exact absurd he (by simp)
          | leave w =>
              simp only [Option.map_some, serialStep] at he
              split at he
              · rename_i hw
                obtain rfl := Option.some.inj he
                exact ⟨blocks ++ [b], none, rfl, by simp [Block.marks, hw]⟩
              · exact absurd he (by simp)

/-! ## Effects -/

/-- What an event does to the shared state. -/
def Mark.effect (f : α → σ → σ) : Mark ω α → σ → σ
  | .act _ x => f x
  | .enter _ | .leave _ => id

/-- The shared state after the events of a log. -/
def runLog (f : α → σ → σ) (s : σ) (log : List (Mark ω α)) : σ :=
  log.foldl (fun s e => e.effect f s) s

/-- What a section does to the shared state: its actions, one after the other. -/
def Block.effect (f : α → σ → σ) (b : Block ω α) (s : σ) : σ := b.acts.foldl (fun s x => f x s) s

theorem runLog_append (f : α → σ → σ) (s : σ) (log log' : List (Mark ω α)) :
    runLog f s (log ++ log') = runLog f (runLog f s log) log' :=
  List.foldl_append

/-- The effect of a section that has begun. -/
theorem runLog_opened (f : α → σ → σ) (s : σ) (b : Block ω α) :
    runLog f s b.opened = b.effect f s := by
  show (b.acts.map (Mark.act b.who)).foldl (fun s e => Mark.effect f e s) s = _
  rw [List.foldl_map]
  rfl

/-- The effect of a whole section. -/
theorem runLog_marks (f : α → σ → σ) (s : σ) (b : Block ω α) : runLog f s b.marks = b.effect f s := by
  rw [Block.marks, runLog_append, runLog_opened]
  rfl

/-- **The effect of a sequence of sections**: each is one atomic step. -/
theorem runLog_blocks (f : α → σ → σ) (s : σ) (blocks : List (Block ω α)) :
    runLog f s (blocks.flatMap Block.marks) = blocks.foldl (fun s b => b.effect f s) s := by
  induction blocks generalizing s with
  | nil => rfl
  | cons b blocks ih => rw [List.flatMap_cons, runLog_append, runLog_marks, ih, List.foldl_cons]

end Lib
