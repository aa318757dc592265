import HardRT.Lib.Machine
import Mathlib.Logic.Function.Basic

/-! # Actions that run in pieces

In an atomic machine an action is one step. In the system it stands for, the body of the action may be
a sequence of pieces with interrupts between them. `Sectioned` lays the pieces next to the atomic
machine: some actions only open a section, a list of pieces still to run, and each piece is a step of
its own. One thread has the CPU; an interrupt handler, in pieces as well, suspends it, and other
interrupts suspend both.

* `Sectioned.step` — the machine in pieces; `Sectioned.Moves` names the ways a step comes about.
* `Sectioned.whole` — the state in which every open section has been finished.
* `Sectioned.Undisturbed` — the side condition: what arrives inside a section commutes with the pieces
  that are still to run.
* `Sectioned.refines` — an undisturbed run, read through `whole`, is a run of the atomic machine. -/

namespace Lib

/-- Who takes an action. -/
inductive Level
  /-- The thread that has the CPU. -/
  | thread
  /-- An interrupt handler; it suspends the thread. -/
  | handler
  /-- An interrupt that nothing suspends; it may arrive inside the handler. -/
  | interrupt
  /-- Another thread gets the CPU. -/
  | switch
  deriving DecidableEq, Repr

/-- **A machine in pieces.** The data are the atomic machine, the pieces and how actions open sections;
the laws say that a section run to its end is the atomic action, and that an action commutes with the
pieces that it spares. -/
structure Sectioned (σ α π κ : Type*) where
  /-- The machine whose actions are single steps. -/
  atomic : σ → α → Option σ
  /-- Who takes the action. -/
  level : α → Level
  /-- The beginning of an action that runs in pieces: the state after it, and the pieces to come. -/
  opens : σ → α → Option (σ × List π)
  /-- One piece: the state after it, and the pieces it puts before those still to come. -/
  run : π → σ → σ × List π
  /-- A piece together with the pieces that it brings. -/
  effect : π → σ → σ
  /-- The thread that has the CPU. -/
  place : σ → κ
  /-- That thread can go on. -/
  goes : σ → Bool
  /-- The action, taken before the piece instead of after it, makes no difference. -/
  spares : π → σ → α → Prop
  run_effect : ∀ p s, (run p s).2.foldl (fun s p => effect p s) (run p s).1 = effect p s
  opens_atomic : ∀ {s a s₀ ps}, opens s a = some (s₀, ps) →
    atomic s a = some (ps.foldl (fun s p => effect p s) s₀)
  place_effect : ∀ p s, place (effect p s) = place s
  place_atomic : ∀ {s a s'}, level a ≠ .switch → atomic s a = some s' → place s' = place s
  spares_effect : ∀ {p s a s'}, spares p s a → atomic s a = some s' →
    atomic (effect p s) a = some (effect p s')
  spares_level : ∀ {p s a}, spares p s a → level a ≠ .switch

namespace Sectioned

variable {σ α π κ : Type*}

/-- The atomic state, the open section of each thread and that of the handler. -/
structure State (σ π κ : Type*) where
  base : σ
  sections : κ → List π
  handler : List π

/-- What can happen next. -/
inductive Action (α : Type*)
  /-- An action begins, or happens at once. -/
  | act (a : α)
  /-- The thread runs its next piece. -/
  | piece
  /-- The handler runs its next piece. -/
  | handlerPiece
  deriving DecidableEq, Repr

/-- No section is open. -/
def closed (s : σ) : State σ π κ := ⟨s, fun _ => [], []⟩

variable (M : Sectioned σ α π κ)

/-- The state after the pieces `ps`. -/
def complete (ps : List π) (s : σ) : σ := ps.foldl (fun s p => M.effect p s) s

/-- The action spares every one of the pieces, each in the state in which it will run. -/
def Spares (a : α) : List π → σ → Prop
  | [], _ => True
  | p :: ps, s => M.spares p s a ∧ Spares a ps (M.effect p s)

/-- The section of the thread that has the CPU. -/
def State.here (x : State σ π κ) : List π := x.sections (M.place x.base)

/-- **The state once every open section is finished**: the handler's first, since it suspends the
thread. -/
def whole (x : State σ π κ) : σ := M.complete (x.here M) (M.complete x.handler x.base)

/-- **The machine in pieces.** A thread begins an action when it is in no section, and goes on with its
section when no handler suspends it; the handler is not entered twice; an interrupt comes at any
moment. -/
def step [DecidableEq κ] (x : State σ π κ) : Action α → Option (State σ π κ)
  | .act a =>
      match M.level a with
      | .thread =>
          if x.handler = [] ∧ x.here M = [] then
            match M.opens x.base a with
            | some (s, ps) =>
                some { x with base := s, sections := Function.update x.sections (M.place x.base) ps }
            | none => (M.atomic x.base a).map fun s => { x with base := s }
          else none
      | .handler =>
          if x.handler = [] then
            match M.opens x.base a with
            | some (s, ps) => some { x with base := s, handler := ps }
            | none => (M.atomic x.base a).map fun s => { x with base := s }
          else none
      | .interrupt => (M.atomic x.base a).map fun s => { x with base := s }
      | .switch =>
          -- the section of the thread that loses the CPU stays open
          if x.handler = [] then (M.atomic x.base a).map fun s => { x with base := s } else none
  | .piece =>
      if x.handler = [] ∧ M.goes x.base = true then
        match x.here M with
        | [] => none
        | p :: ps =>
            some { x with
              base := (M.run p x.base).1
              sections := Function.update x.sections (M.place x.base) ((M.run p x.base).2 ++ ps) }
      else none
  | .handlerPiece =>
      match x.handler with
      | [] => none
      | p :: ps => some { x with base := (M.run p x.base).1, handler := (M.run p x.base).2 ++ ps }

/-- **The undisturbed steps**: an action that arrives while sections are open spares every piece that
is still to run, those of the handler and those of the thread behind it. -/
def Undisturbed (x : State σ π κ) : Action α → Prop
  | .act a => M.Spares a x.handler x.base ∧ M.Spares a (x.here M) (M.complete x.handler x.base)
  | _ => True

/-- A condition on the actions of the atomic machine, read in the state in which every open section is
finished. -/
def Whole (P : σ → α → Prop) (x : State σ π κ) : Action α → Prop
  | .act a => P (M.whole x) a
  | _ => True

instance Spares.decidable [∀ p s a, Decidable (M.spares p s a)] (a : α) :
    ∀ (ps : List π) (s : σ), Decidable (M.Spares a ps s)
  | [], _ => instDecidableTrue
  | p :: ps, s =>
      haveI := Spares.decidable a ps (M.effect p s)
      inferInstanceAs (Decidable (_ ∧ _))

instance [∀ p s a, Decidable (M.spares p s a)] (x : State σ π κ) : DecidablePred (M.Undisturbed x)
  | .act _ => inferInstanceAs (Decidable (_ ∧ _))
  | .piece | .handlerPiece => instDecidableTrue

instance {P : σ → α → Prop} [∀ s a, Decidable (P s a)] (x : State σ π κ) : DecidablePred (M.Whole P x)
  | .act a => inferInstanceAs (Decidable (P (M.whole x) a))
  | .piece | .handlerPiece => instDecidableTrue

/-! ## Finishing a section -/

section Complete

variable {M}

@[simp] theorem complete_nil (s : σ) : M.complete [] s = s := rfl

theorem complete_cons (p : π) (ps : List π) (s : σ) :
    M.complete (p :: ps) s = M.complete ps (M.effect p s) := rfl

theorem complete_append (ps qs : List π) (s : σ) :
    M.complete (ps ++ qs) s = M.complete qs (M.complete ps s) :=
  List.foldl_append

/-- What the pieces of a section keep, the section keeps. -/
theorem complete_induction {I : σ → Prop} (h : ∀ p s, I s → I (M.effect p s)) :
    ∀ (ps : List π) {s : σ}, I s → I (M.complete ps s)
  | [], _, h0 => h0
  | p :: ps, _, h0 => complete_induction h ps (h p _ h0)

/-- A section does not move the thread. -/
theorem place_complete (ps : List π) (s : σ) : M.place (M.complete ps s) = M.place s :=
  complete_induction (I := fun s' => M.place s' = M.place s)
    (fun p s' h => (M.place_effect p s').trans h) ps rfl

/-- **Running a piece leaves the end of the section where it was.** -/
theorem complete_run (p : π) (ps : List π) (s : σ) :
    M.complete ((M.run p s).2 ++ ps) (M.run p s).1 = M.complete (p :: ps) s := by
  rw [complete_append, complete_cons]
  exact congrArg (M.complete ps) (M.run_effect p s)

/-- A piece does not move the thread. -/
theorem place_run (p : π) (s : σ) : M.place (M.run p s).1 = M.place s := by
  have heff := M.place_effect p s
  rw [← M.run_effect p s] at heff
  exact (place_complete _ _).symm.trans heff

/-- The beginning of an action in pieces does not move the thread. -/
theorem place_opens {s s₀ : σ} {a : α} {ps : List π} (hlev : M.level a ≠ .switch)
    (h : M.opens s a = some (s₀, ps)) : M.place s₀ = M.place s :=
  (place_complete ps s₀).symm.trans (M.place_atomic hlev (M.opens_atomic h))

/-- **An action that spares a section commutes with it.** -/
theorem complete_commutes {a : α} : ∀ {ps : List π} {s s' : σ}, M.Spares a ps s →
    M.atomic s a = some s' → M.atomic (M.complete ps s) a = some (M.complete ps s')
  | [], _, _, _, hstep => hstep
  | p :: ps, s, s', hsp, hstep => by
      -- the action moves before one piece after the other
      rw [complete_cons, complete_cons]
      exact complete_commutes hsp.2 (M.spares_effect hsp.1 hstep)

/-- A switch spares no section. -/
theorem Spares.eq_nil {a : α} {ps : List π} {s : σ} (h : M.Spares a ps s) (hlev : M.level a = .switch) :
    ps = [] := by
  cases ps with
  | nil => rfl
  | cons p ps => exact absurd hlev (M.spares_level h.1)

end Complete

/-! ## The refinement -/

section Refines

variable {M} {x x' : State σ π κ}

/-- Only the thread that has the CPU is in a section. -/
def Alone (M : Sectioned σ α π κ) (x : State σ π κ) : Prop :=
  ∀ c, c ≠ M.place x.base → x.sections c = []

/-- **An action that happens at once**, in sections that it spares. -/
theorem Alone.at_once (h : Alone M x) {a : α} {s : σ} (hlev : M.level a ≠ .switch)
    (hclean : M.Undisturbed x (.act a)) (hs : M.atomic x.base a = some s) :
    Alone M { x with base := s } ∧ M.atomic (M.whole x) a = some (M.whole { x with base := s }) := by
  have hplace := M.place_atomic hlev hs
  refine ⟨fun c hc => h c (hplace ▸ hc), ?_⟩
  have hcomm := complete_commutes hclean.2 (complete_commutes hclean.1 hs)
  rw [State.here, ← hplace] at hcomm
  rw [whole, State.here, ← hplace]
  exact hcomm

/-- **The handler is entered**, in a section that it spares. -/
theorem Alone.handler_opens (h : Alone M x) {a : α} {s : σ} {ps : List π}
    (hlev : M.level a ≠ .switch) (hfree : x.handler = []) (hclean : M.Undisturbed x (.act a))
    (hopen : M.opens x.base a = some (s, ps)) :
    Alone M { x with base := s, handler := ps } ∧
      M.atomic (M.whole x) a = some (M.whole { x with base := s, handler := ps }) := by
  have hplace := place_opens hlev hopen
  refine ⟨fun c hc => h c (hplace ▸ hc), ?_⟩
  have hsp := hclean.2
  rw [hfree] at hsp
  have hcomm := complete_commutes hsp (M.opens_atomic hopen)
  rw [State.here, ← hplace] at hcomm
  rw [whole, hfree, State.here, ← hplace]
  exact hcomm

/-- **A switch** is undisturbed only if there is no section. -/
theorem Alone.switch (h : Alone M x) {a : α} {s : σ} (hlev : M.level a = .switch)
    (hfree : x.handler = []) (hclean : M.Undisturbed x (.act a)) (hs : M.atomic x.base a = some s) :
    Alone M { x with base := s } ∧ M.atomic (M.whole x) a = some (M.whole { x with base := s }) := by
  have hhere : x.here M = [] := hclean.2.eq_nil hlev
  have hnil : ∀ c, x.sections c = [] := by
    intro c
    by_cases hc : c = M.place x.base
    · rw [hc]
      exact hhere
    · exact h c hc
  refine ⟨fun c _ => hnil c, ?_⟩
  have hend : M.whole { x with base := s } = s := by
    rw [whole, State.here, hnil, hfree]
    rfl
  rw [hend, whole, hhere, hfree]
  exact hs

/-- **A piece of the handler.** -/
theorem Alone.handlerPiece (h : Alone M x) {p : π} {ps : List π} (hhand : x.handler = p :: ps) :
    Alone M { x with base := (M.run p x.base).1, handler := (M.run p x.base).2 ++ ps } ∧
      M.whole { x with base := (M.run p x.base).1, handler := (M.run p x.base).2 ++ ps } =
        M.whole x := by
  have hplace : M.place (M.run p x.base).1 = M.place x.base := place_run p x.base
  refine ⟨fun c hc => h c (hplace ▸ hc), ?_⟩
  rw [whole, whole, State.here, State.here, hhand, hplace, complete_run]

variable [DecidableEq κ]

/-- **The section of the thread becomes `ps`**, and nothing else about the sections changes. -/
theorem Alone.update (h : Alone M x) (hfree : x.handler = []) {s : σ}
    (hplace : M.place s = M.place x.base) (ps : List π) :
    Alone M { x with base := s, sections := Function.update x.sections (M.place x.base) ps } ∧
      M.whole { x with base := s, sections := Function.update x.sections (M.place x.base) ps } =
        M.complete ps s := by
  refine ⟨fun c hc => ?_, ?_⟩
  · rw [show M.place s = M.place x.base from hplace] at hc
    exact (Function.update_of_ne hc _ _).trans (h c hc)
  · show M.complete (Function.update x.sections (M.place x.base) ps (M.place s))
      (M.complete x.handler s) = _
    rw [hplace, Function.update_self, hfree, complete_nil]

/-- **The ways a step comes about.** -/
inductive Moves (M : Sectioned σ α π κ) (x : State σ π κ) : Action α → State σ π κ → Prop
  /-- The thread begins an action in pieces. -/
  | begins {a s ps} (hlev : M.level a = .thread) (hfree : x.handler = []) (hhere : x.here M = [])
      (hopen : M.opens x.base a = some (s, ps)) :
      Moves M x (.act a) { x with base := s, sections := Function.update x.sections (M.place x.base) ps }
  /-- The thread takes an action at once. -/
  | acts {a s} (hlev : M.level a = .thread) (hfree : x.handler = []) (hhere : x.here M = [])
      (hopen : M.opens x.base a = none) (hs : M.atomic x.base a = some s) :
      Moves M x (.act a) { x with base := s }
  /-- The handler is entered and runs in pieces. -/
  | enters {a s ps} (hlev : M.level a = .handler) (hfree : x.handler = [])
      (hopen : M.opens x.base a = some (s, ps)) : Moves M x (.act a) { x with base := s, handler := ps }
  /-- The handler runs at once. -/
  | handles {a s} (hlev : M.level a = .handler) (hfree : x.handler = [])
      (hopen : M.opens x.base a = none) (hs : M.atomic x.base a = some s) :
      Moves M x (.act a) { x with base := s }
  /-- An interrupt. -/
  | interrupt {a s} (hlev : M.level a = .interrupt) (hs : M.atomic x.base a = some s) :
      Moves M x (.act a) { x with base := s }
  /-- Another thread gets the CPU. -/
  | switch {a s} (hlev : M.level a = .switch) (hfree : x.handler = [])
      (hs : M.atomic x.base a = some s) : Moves M x (.act a) { x with base := s }
  /-- A piece of the thread. -/
  | piece {p ps} (hfree : x.handler = []) (hhere : x.here M = p :: ps) :
      Moves M x .piece
        { x with
          base := (M.run p x.base).1
          sections := Function.update x.sections (M.place x.base) ((M.run p x.base).2 ++ ps) }
  /-- A piece of the handler. -/
  | handlerPiece {p ps} (hhand : x.handler = p :: ps) :
      Moves M x .handlerPiece
        { x with base := (M.run p x.base).1, handler := (M.run p x.base).2 ++ ps }

/-- Every step is one of them. -/
theorem Moves.of_step {b : Action α} (hstep : M.step x b = some x') : Moves M x b x' := by
  cases b with
  | act a =>
      simp only [step] at hstep
      split at hstep
      · rename_i hlev
        split_ifs at hstep with hfree
        split at hstep
        · rename_i hopen
          obtain rfl := Option.some.inj hstep
          exact .begins hlev hfree.1 hfree.2 hopen
        · rename_i hopen
          obtain ⟨s, hs, rfl⟩ := Option.map_eq_some_iff.mp hstep
          exact .acts hlev hfree.1 hfree.2 hopen hs
      · rename_i hlev
        split_ifs at hstep with hfree
        split at hstep
        · rename_i hopen
          obtain rfl := Option.some.inj hstep
          exact .enters hlev hfree hopen
        · rename_i hopen
          obtain ⟨s, hs, rfl⟩ := Option.map_eq_some_iff.mp hstep
          exact .handles hlev hfree hopen hs
      · rename_i hlev
        obtain ⟨s, hs, rfl⟩ := Option.map_eq_some_iff.mp hstep
        exact .interrupt hlev hs
      · rename_i hlev
        split_ifs at hstep with hfree
        obtain ⟨s, hs, rfl⟩ := Option.map_eq_some_iff.mp hstep
        exact .switch hlev hfree hs
  | piece =>
      simp only [step] at hstep
      split_ifs at hstep with hfree
      split at hstep
      · exact absurd hstep (by simp)
      · rename_i hhere
        obtain rfl := Option.some.inj hstep
        exact .piece hfree.1 hhere
  | handlerPiece =>
      simp only [step] at hstep
      split at hstep
      · exact absurd hstep (by simp)
      · rename_i hhand
        obtain rfl := Option.some.inj hstep
        exact .handlerPiece hhand

/-- **Every undisturbed step** finishes to the same state as before, or to the one that the atomic action
leads to. -/
theorem step_whole (h : Alone M x) {b : Action α} (hclean : M.Undisturbed x b)
    (hstep : M.step x b = some x') :
    Alone M x' ∧ (M.whole x' = M.whole x ∨
      ∃ a, b = .act a ∧ M.atomic (M.whole x) a = some (M.whole x')) := by
  cases Moves.of_step hstep with
  | begins hlev hfree hhere hopen =>
      -- read through `whole`, the section is at its end as soon as it is open
      obtain ⟨halone, hwhole⟩ := h.update hfree (place_opens (by rw [hlev]; decide) hopen) _
      refine ⟨halone, Or.inr ⟨_, rfl, ?_⟩⟩
      rw [hwhole, whole, hfree, hhere]
      exact M.opens_atomic hopen
  | acts hlev _ _ _ hs =>
      obtain ⟨halone, hact⟩ := h.at_once (by rw [hlev]; decide) hclean hs
      exact ⟨halone, Or.inr ⟨_, rfl, hact⟩⟩
  | enters hlev hfree hopen =>
      obtain ⟨halone, hact⟩ := h.handler_opens (by rw [hlev]; decide) hfree hclean hopen
      exact ⟨halone, Or.inr ⟨_, rfl, hact⟩⟩
  | handles hlev _ _ hs =>
      obtain ⟨halone, hact⟩ := h.at_once (by rw [hlev]; decide) hclean hs
      exact ⟨halone, Or.inr ⟨_, rfl, hact⟩⟩
  | interrupt hlev hs =>
      obtain ⟨halone, hact⟩ := h.at_once (by rw [hlev]; decide) hclean hs
      exact ⟨halone, Or.inr ⟨_, rfl, hact⟩⟩
  | switch hlev hfree hs =>
      obtain ⟨halone, hact⟩ := h.switch hlev hfree hclean hs
      exact ⟨halone, Or.inr ⟨_, rfl, hact⟩⟩
  | piece hfree hhere =>
      obtain ⟨halone, hwhole⟩ := h.update hfree (place_run _ x.base) _
      refine ⟨halone, Or.inl ?_⟩
      rw [hwhole, complete_run, whole, hhere, hfree]
      rfl
  | handlerPiece hhand =>
      obtain ⟨halone, hwhole⟩ := h.handlerPiece hhand
      exact ⟨halone, Or.inl hwhole⟩

/-- **Refinement.** An undisturbed run from a closed state, along a condition `P` read in the finished
states, is a run of the atomic machine along `P`. -/
theorem refines {P : σ → α → Prop} {s : σ} {bs : List (Action α)}
    (hrun : exec M.step (closed s) bs = some x')
    (hclean : Along M.step (fun x b => M.Undisturbed x b ∧ M.Whole P x b) (closed s) bs) :
    ∃ as, exec M.atomic s as = some (M.whole x') ∧ Along M.atomic P s as := by
  refine (exec_refines (f := M.whole) (I := Alone M) ?_ (fun _ _ => rfl) hclean hrun).2
  rintro x b x' h ⟨hcl, hP⟩ hstep
  obtain ⟨halone, heq | ⟨a, rfl, ha⟩⟩ := step_whole h hcl hstep
  · -- a piece was part of the action that opened its section
    exact ⟨halone, [], congrArg some heq.symm, trivial⟩
  · exact ⟨halone, [a], by simp [exec, ha], hP, fun _ _ => trivial⟩

end Refines

end Sectioned

end Lib
