import Mathlib.Data.List.Basic

/-! # Data refinement

A data type is given by one function `step : σ → ι → ο × σ`: in state `s` the operation `i` answers and
leads to a next state. One data type refines another if both give the same answers to every sequence of
operations; it is enough to relate their states by a simulation.

* `runOps step is s` — the answers to a sequence of operations and the state it ends in.
* `Simulates ok step step' R` — the operations that satisfy `ok` answer the same in states related by
  `R`, and lead to related states.
* `Simulates.runOps` — the refinement rule: along whole sequences. -/

namespace Lib

variable {σ τ ι ο : Type*}

/-- The answers to a sequence of operations, and the state after it. -/
def runOps (step : σ → ι → ο × σ) : List ι → σ → List ο × σ
  | [], s => ([], s)
  | i :: is, s => ((step s i).1 :: (runOps step is (step s i).2).1, (runOps step is (step s i).2).2)

section Runs

variable {step : σ → ι → ο × σ}

@[simp] theorem runOps_nil (s : σ) : runOps step [] s = ([], s) := rfl

/-- Sequences of operations compose. -/
theorem runOps_append (is js : List ι) (s : σ) :
    runOps step (is ++ js) s =
      ((runOps step is s).1 ++ (runOps step js (runOps step is s).2).1,
        (runOps step js (runOps step is s).2).2) := by
  induction is generalizing s with
  | nil => rfl
  | cons i is ih => simp only [List.cons_append, runOps, ih]

end Runs

/-- **A simulation** between two data types, for the operations that satisfy `ok`. -/
structure Simulates (ok : ι → Prop) (step : σ → ι → ο × σ) (step' : τ → ι → ο × τ)
    (R : σ → τ → Prop) : Prop where
  answer : ∀ {s t i}, ok i → R s t → (step s i).1 = (step' t i).1
  next : ∀ {s t i}, ok i → R s t → R (step s i).2 (step' t i).2

/-- **Refinement rule.** Related states answer every sequence of operations alike and stay related. -/
theorem Simulates.runOps {ok : ι → Prop} {step : σ → ι → ο × σ} {step' : τ → ι → ο × τ}
    {R : σ → τ → Prop} (h : Simulates ok step step' R) (is : List ι) (his : ∀ i ∈ is, ok i) {s : σ}
    {t : τ} (hR : R s t) :
    (Lib.runOps step is s).1 = (Lib.runOps step' is t).1 ∧
    R (Lib.runOps step is s).2 (Lib.runOps step' is t).2 := by
  induction is generalizing s t with
  | nil => exact ⟨rfl, hR⟩
  | cons i is ih =>
      have hi := his i List.mem_cons_self
      obtain ⟨hans, hnext⟩ := ih (fun j hj => his j (List.mem_cons_of_mem _ hj)) (h.next hi hR)
      refine ⟨?_, hnext⟩
      simp only [Lib.runOps]
      rw [h.answer hi hR, hans]

end Lib
