import HardRT.Lib.Sections
import HardRT.Posix.System
import HardRT.System.Pieces

/-! # The POSIX machine in pieces

`Posix.step` takes the unprotected bodies of `hrt_yield`, `hrt_sleep` and `hrt_create_task` and the tick
handler as single steps. `SIGALRM` is unmasked in those bodies, so that the handler runs between any two of
their stores; only the loop switches tasks, and it does so with the signal masked. `Posix.machine` is the
machine in which the handler arrives there, and other interrupts inside the handler too.

* `Posix.machine` — the machine in pieces over `Posix.step`.
* `Posix.here_eq_nil` — the loop is in no section. -/

namespace HardRT

open Lib

namespace Posix

/-- The pieces of the tick handler of this port. -/
def tickHandlerPieces (sz : Sizing) (alarm : Bool) : List Piece :=
  tickPieces sz ++ if alarm then [.pend] else []

/-- The unprotected part of an action. -/
def pieces (sz : Sizing) (s : State) : Action → List Piece
  | .main (.createTask a) => createPieces sz a s.sys.k
  | .task c => s.sys.k.current.elim [] fun t => bodyPieces sz t c s.sys.k (s.sys.conts t)
  | .tick alarm => tickHandlerPieces sz alarm
  | _ => []

/-- Who takes an action: there is one thread, which is `main`, the loop or the task that the loop has
swapped to. -/
def level : Action → Level
  | .main _ | .start | .loop | .task _ | .finish => .thread
  | .tick _ => .handler
  | .isr _ => .interrupt

/-- The interrupts that leave a piece, still to run, as it is. -/
def Spares (sz : Sizing) (c : Piece) (s : State) : Action → Prop
  | .tick _ => c.SparedByTick sz s.sys.k
  | .isr op => c.SparedByIsr sz s.sys.k op
  | _ => False

instance (sz : Sizing) (c : Piece) (s : State) : DecidablePred (Spares sz c s)
  | .tick _ => inferInstanceAs (Decidable (c.SparedByTick sz s.sys.k))
  | .isr op => inferInstanceAs (Decidable (c.SparedByIsr sz s.sys.k op))
  | .main _ | .start | .loop | .task _ | .finish => instDecidableFalse

/-- The state with another kernel. -/
def State.withKernel (s : State) (k : Kernel) : State := { s with sys := { s.sys with k := k } }

section Laws

variable {sz : Sizing} {s s' : State} {a : Action}

/-- Pieces, run on a process, run on its kernel. -/
theorem foldl_effect (ps : List Piece) (s : State) :
    ps.foldl (fun s c => s.withKernel (c.effect sz .posix s.sys.k)) s =
      s.withKernel (completePieces sz .posix ps s.sys.k) := by
  induction ps generalizing s with
  | nil => rfl
  | cons c ps ih => exact ih _

/-- **The pieces of an action, run to their end**, are all that it does to the kernel. -/
theorem complete_pieces (hstep : step sz s a = some s') (hne : pieces sz s a ≠ []) :
    completePieces sz .posix (pieces sz s a) s.sys.k = s'.sys.k := by
  cases a with
  | main c =>
      obtain ⟨-, rfl⟩ := step_main hstep
      cases c with
      | createTask a => exact complete_createPieces hne
      | setPolicy p => exact absurd rfl hne
      | setDefaultTimeslice n => exact absurd rfl hne
  | task c =>
      obtain ⟨t, -, hcur, ⟨o, ho, rfl⟩ | ⟨x, hx, -⟩⟩ := step_task hstep
      · simp only [pieces, hcur, Option.elim] at hne ⊢
        exact complete_bodyPieces ho hne
      · simp only [pieces, hcur, Option.elim, hx] at hne
        exact absurd rfl hne
  | tick alarm =>
      obtain rfl := Option.some.inj hstep
      cases alarm <;> rfl
  | _ => exact absurd rfl hne

/-- The tick handler commutes with the pieces that a tick spares: its request is not seen by them. -/
theorem tickHandler_spared {c : Piece} {k : Kernel} (h : c.SparedByTick sz k) (alarm : Bool) :
    c.effect sz .posix (tickHandler sz alarm k) = tickHandler sz alarm (c.effect sz .posix k) := by
  obtain ⟨p, hp, hoff⟩ := h
  refine Piece.commutes_of_ringOf _ (fun r => ?_) (fun id => ?_) hp
  · unfold tickHandler
    rw [(Unseen.ofRing p r).hrtTickIsr hoff]
    split_ifs <;> rfl
  · rw [tickHandler_tcbs]
    exact (hrtTickIsr_config sz k id).2.1

/-- An interrupt commutes with the pieces that it spares. -/
theorem Spares.step {c : Piece} (h : Spares sz c s a) (hstep : step sz s a = some s') :
    Posix.step sz (s.withKernel (c.effect sz .posix s.sys.k)) a =
      some (s'.withKernel (c.effect sz .posix s'.sys.k)) := by
  cases a with
  | tick alarm =>
      obtain rfl := Option.some.inj hstep
      refine congrArg some ?_
      simp only [State.withKernel, tickHandler_spared h]
  | isr op =>
      obtain rfl := Option.some.inj hstep
      refine congrArg some ?_
      simp only [State.withKernel, Sys.isr, Piece.SparedByIsr.commutes h]
  | _ => exact absurd h not_false

end Laws

/-- **The POSIX machine in pieces.** An unprotected body opens a section: its call is logged and its
continuation set when it begins, and its changes of the kernel follow piece by piece. -/
def machine (sz : Sizing) : Sectioned State Action Piece Unit where
  atomic := step sz
  level := level
  opens s a :=
    if pieces sz s a = [] then none
    else
      -- log and continuation are those after the call, the kernel is still the one before it
      (step sz s a).map fun s' => (s'.withKernel s.sys.k, pieces sz s a)
  run c s := (s.withKernel (c.run sz .posix s.sys.k).1, (c.run sz .posix s.sys.k).2)
  effect c s := s.withKernel (c.effect sz .posix s.sys.k)
  place _ := ()
  goes _ := true
  spares c s a := Spares sz c s a
  run_effect c s := by
    rw [foldl_effect]
    exact congrArg s.withKernel (complete_run c s.sys.k)
  opens_atomic := by
    intro s a s₀ ps h
    split_ifs at h with hne
    obtain ⟨s', hs', heq⟩ := Option.map_eq_some_iff.mp h
    obtain ⟨rfl, rfl⟩ := Prod.mk.inj heq
    rw [foldl_effect, hs']
    exact congrArg (fun k => some (s'.withKernel k)) (complete_pieces hs' hne).symm
  place_effect _ _ := rfl
  place_atomic _ _ := rfl
  spares_effect := Spares.step
  spares_level := by
    intro c s a _
    cases a <;> simp [level]

instance (sz : Sizing) (c : Piece) (s : State) (a : Action) : Decidable ((machine sz).spares c s a) :=
  inferInstanceAs (Decidable (Spares sz c s a))

section Machine

variable {sz : Sizing} {x x' : Sectioned.State State Piece Unit}

/-- The finished state differs in the kernel only. -/
theorem whole_eq (sz : Sizing) (x : Sectioned.State State Piece Unit) :
    (machine sz).whole x = x.base.withKernel
      (completePieces sz .posix (x.handler ++ x.here (machine sz)) x.base.sys.k) := by
  rw [Sectioned.whole, ← Sectioned.complete_append]
  exact foldl_effect _ _

/-- The thread is in a section only before the start and while a task runs. -/
def SectionsOf (sz : Sizing) (x : Sectioned.State State Piece Unit) : Prop :=
  x.here (machine sz) ≠ [] → x.base.mode = .boot ∨ x.base.mode = .running

/-- Interrupts leave the loop where it is. -/
theorem step_mode {s s' : State} {a : Action} (hlev : level a ≠ .thread) (h : step sz s a = some s') :
    s'.mode = s.mode := by
  cases a with
  | isr op =>
      obtain rfl := Option.some.inj h
      rfl
  | tick alarm =>
      obtain rfl := Option.some.inj h
      rfl
  | _ => exact absurd rfl hlev

/-- An action in pieces begins before the start or while a task runs, and leaves it at that. -/
theorem mode_of_pieces {s s' : State} {a : Action} (hlev : level a = .thread)
    (h : step sz s a = some s') (hne : pieces sz s a ≠ []) : s'.mode = .boot ∨ s'.mode = .running := by
  cases a with
  | main c =>
      obtain ⟨hm, rfl⟩ := step_main h
      exact Or.inl hm
  | task c =>
      obtain ⟨t, hm, hcur, ⟨o, ho, rfl⟩ | ⟨x, hx, -⟩⟩ := step_task h
      · exact Or.inr rfl
      · -- the swap to the loop has no unprotected part
        simp only [pieces, hcur, Option.elim, hx] at hne
        exact absurd rfl hne
  | tick alarm => exact absurd hlev (by simp [level])
  | isr op => exact absurd hlev (by simp [level])
  | _ => exact absurd rfl hne

/-- How an action in pieces begins. -/
theorem opens_eq_some {s s₀ : State} {a : Action} {ps : List Piece}
    (h : (machine sz).opens s a = some (s₀, ps)) :
    pieces sz s a ≠ [] ∧ ∃ s', step sz s a = some s' ∧ s₀ = s'.withKernel s.sys.k := by
  simp only [machine] at h
  split_ifs at h with hne
  obtain ⟨s', hs', heq⟩ := Option.map_eq_some_iff.mp h
  exact ⟨hne, s', hs', (Prod.mk.inj heq).1.symm⟩

/-- An action of another level is none of the thread. -/
theorem ne_thread {a : Action} {l : Level} (ha : (machine sz).level a = l) (hl : l ≠ .thread) :
    level a ≠ .thread :=
  fun ht => hl (ha.symm.trans ht)

/-- **Every step** keeps the sections where they belong. -/
theorem SectionsOf.step (h : SectionsOf sz x) {b : Sectioned.Action Action}
    (hstep : (machine sz).step x b = some x') : SectionsOf sz x' := by
  -- an interrupt finds the loop where the section has begun
  have hkeep : ∀ {a : Action} (s' : State), level a ≠ .thread → Posix.step sz x.base a = some s' →
      x.here (machine sz) ≠ [] → s'.mode = .boot ∨ s'.mode = .running := by
    intro a s' hlev hs' hx
    rw [step_mode hlev hs']
    exact h hx
  cases Sectioned.Moves.of_step hstep with
  | begins hlev _ _ hopen =>
      obtain ⟨hps, s', hs', rfl⟩ := opens_eq_some hopen
      have hmode := mode_of_pieces hlev hs' hps
      exact fun _ => hmode
  | acts _ _ hhere => exact fun hx => absurd hhere hx
  | enters hlev _ hopen =>
      obtain ⟨-, s', hs', rfl⟩ := opens_eq_some hopen
      exact hkeep s' (ne_thread hlev (by simp)) hs'
  | handles hlev _ _ hs => exact hkeep _ (ne_thread hlev (by simp)) hs
  | interrupt hlev hs => exact hkeep _ (ne_thread hlev (by simp)) hs
  | @switch a _ hlev => cases a <;> exact absurd hlev (by simp [machine, level])
  | piece _ hhere => exact fun _ => h (by rw [hhere]; simp)
  | handlerPiece => exact h

/-- **The loop is in no section.** -/
theorem here_eq_nil {cfg : Option KernelConfig} {objs : ObjectSpecs} {mem : Kernel}
    {bs : List (Sectioned.Action Action)}
    (hrun : exec (machine sz).step (Sectioned.closed (boot sz cfg objs mem)) bs = some x)
    (hm : x.base.mode = .head) : x.here (machine sz) = [] := by
  have hinv : SectionsOf sz x :=
    exec_invariant' (fun _ _ _ h hstep => h.step hstep) (fun hne => absurd rfl hne) hrun
  by_contra hne
  rcases hinv hne with hb | hb <;> exact absurd (hm.symm.trans hb) (by simp)

end Machine

end Posix

end HardRT
