import HardRT.Lib.DataRefinement
import HardRT.Lib.LevelQueue
import HardRT.Lib.RingBuffer

/-! # Bounded FIFOs as data types

Two abstract data types on lists, and the ring buffer as an implementation of the first.

* `fifoStep n` — one FIFO of at most `n` entries: a push appends or does nothing, a pop answers and
  removes the head.
* `levelStep m n d` — `m` such FIFOs, of which the first non-empty one is served; `d` is the answer if
  all are empty.
* `RingBuffer.simulates` — a ring of `n` cells, with registers that can count to `n`, implements
  `fifoStep n`.
* `RingBuffer.Sound` — what the register invariant gives for the array: indices in range, also those an
  operation is about to access (`RingBuffer.cells`). -/

namespace Lib

variable {α : Type*}

/-! ## One FIFO -/

/-- The operations of a FIFO. -/
inductive FifoOp (α : Type*)
  /-- Append an entry. -/
  | push (a : α)
  /-- Remove the oldest entry. -/
  | pop
  deriving DecidableEq, Repr

/-- **A FIFO of at most `n` entries.** -/
def fifoStep (n : ℕ) (l : List α) : FifoOp α → Option α × List α
  | .push a => (none, if l.length < n then l ++ [a] else l)
  | .pop => (l.head?, l.tail)

namespace RingBuffer

/-- The operations on a ring of `n` cells with registers of modulus `w`. -/
def step (w n : ℕ) (r : RingBuffer α) : FifoOp α → Option α × RingBuffer α
  | .push a => (none, r.push w n a)
  | .pop => r.pop w n

/-- **A ring implements a FIFO.** -/
theorem simulates {w n : ℕ} (hw : n < w) :
    Simulates (fun _ => True) (step (α := α) w n) (fifoStep n) fun r l => r.WF n ∧ r.toList n = l where
  answer := by
    rintro r l op - ⟨hwf, rfl⟩
    cases op with
    | push a => rfl
    | pop => exact (pop_spec hwf hw.le).1
  next := by
    rintro r l op - ⟨hwf, rfl⟩
    cases op with
    | push a =>
        refine ⟨hwf.push hw a, ?_⟩
        simp only [step, fifoStep, length_toList]
        split_ifs with hc
        · exact toList_push_of_lt hwf hw hc a
        · rw [RingBuffer.push, if_pos (Nat.le_of_not_lt hc)]
    | pop => exact ⟨hwf.pop hw.le, (pop_spec hwf hw.le).2⟩

/-- The cells an operation accesses. -/
def cells (n : ℕ) (r : RingBuffer α) : FifoOp α → List ℕ
  | .push _ => if n ≤ r.count then [] else [r.tail]
  | .pop => if r.count = 0 then [] else [r.head]

/-- **A ring of `n` cells is sound**: its registers are indices of cells and consistent with each other,
and the next operation accesses cells that exist. -/
structure Sound (n : ℕ) (r : RingBuffer α) : Prop where
  head_lt : r.head < n
  tail_lt : r.tail < n
  tail_eq : r.tail = (r.head + r.count) % n
  cells_lt : ∀ op, ∀ c ∈ r.cells n op, c < n

/-- The register invariant makes a ring sound. -/
theorem WF.sound {n : ℕ} {r : RingBuffer α} (h : r.WF n) : r.Sound n := by
  have htail : r.tail < n := by
    rw [h.tail_eq]
    exact Nat.mod_lt _ (Nat.lt_of_le_of_lt (Nat.zero_le _) h.head_lt)
  refine ⟨h.head_lt, htail, h.tail_eq, fun op c hc => ?_⟩
  cases op with
  | push a =>
      simp only [cells] at hc
      split_ifs at hc
      · exact absurd hc List.not_mem_nil
      · exact List.mem_singleton.mp hc ▸ htail
  | pop =>
      simp only [cells] at hc
      split_ifs at hc
      · exact absurd hc List.not_mem_nil
      · exact List.mem_singleton.mp hc ▸ h.head_lt

end RingBuffer

/-! ## FIFOs served level by level -/

/-- The operations of a family of FIFOs. -/
inductive LevelOp (α : Type*)
  /-- Append an entry at a level. -/
  | push (p : ℕ) (a : α)
  /-- Remove the oldest entry of the first level that has one. -/
  | serve
  deriving DecidableEq, Repr

/-- **FIFOs at levels `0, …, m - 1`, of at most `n` entries each.** Serving answers `d` if there is no
entry. -/
def levelStep (m n : ℕ) (d : α) (f : ℕ → List α) : LevelOp α → Option α × (ℕ → List α)
  | .push p a => (none, if p < m ∧ (f p).length < n then Function.update f p (f p ++ [a]) else f)
  | .serve =>
      match (List.range m).find? fun p => !(f p).isEmpty with
      | some p => ((f p).head?, Function.update f p (f p).tail)
      | none => (some d, f)

section Levels

variable {m n : ℕ} {d : α} {f : ℕ → List α}

/-- Serving takes the head of a level before which all levels are empty. -/
theorem levelStep_serve_of_cons {p : ℕ} {a : α} {rest : List α} (hp : p < m)
    (hpre : ∀ q < p, f q = []) (hl : f p = a :: rest) :
    levelStep m n d f .serve = (some a, Function.update f p rest) := by
  have hfind : (List.range m).find? (fun p => !(f p).isEmpty) = some p := by
    rw [List.find?_range_eq_some]
    refine ⟨by simp [hl], List.mem_range.mpr hp, fun q hq => by simp [hpre q hq]⟩
  simp [levelStep, hfind, hl]

/-- Serving empty levels answers `d`. -/
theorem levelStep_serve_of_nil (hnil : ∀ q < m, f q = []) :
    levelStep m n d f .serve = (some d, f) := by
  have hfind : (List.range m).find? (fun p => !(f p).isEmpty) = none := by
    rw [List.find?_eq_none]
    intro q hq
    simp [hnil q (List.mem_range.mp hq)]
  simp [levelStep, hfind]

end Levels

end Lib
