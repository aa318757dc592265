import Mathlib.Data.List.Basic
import Mathlib.Data.List.Flatten

/-! # Queues served level by level

A family of FIFO queues, one per level, of which the first non-empty one is served. Read level after
level, the family is one list: the order in which the entries would be served if nothing were added.

* `levels n f` — that list.
* `levels_pop` — serving removes its head.
* `levels_push` — an entry comes last in it, as it should in a single queue, if every later level is
  empty.
* `entriesAt p l` — what of a batch of entries goes to level `p`. -/

namespace Lib

variable {α : Type*}

/-- The entries of levels `0, …, n - 1` in the order they are served. -/
def levels (n : ℕ) (f : ℕ → List α) : List α := (List.range n).flatMap f

/-- The last level comes last. -/
theorem levels_succ (n : ℕ) (f : ℕ → List α) : levels (n + 1) f = levels n f ++ f n := by
  simp [levels, List.range_succ]

/-- Only the levels that exist matter. -/
theorem levels_congr {n : ℕ} {f g : ℕ → List α} (h : ∀ q < n, f q = g q) : levels n f = levels n g := by
  induction n with
  | zero => rfl
  | succ n ih =>
      rw [levels_succ, levels_succ, ih fun q hq => h q (Nat.lt_succ_of_lt hq), h n (Nat.lt_succ_self n)]

/-- Nothing at any level. -/
theorem levels_eq_nil {n : ℕ} {f : ℕ → List α} (h : ∀ q < n, f q = []) : levels n f = [] :=
  List.flatMap_eq_nil_iff.mpr fun q hq => h q (List.mem_range.mp hq)

/-- **Serving** takes the head of the first level that is not empty. -/
theorem levels_pop {n p : ℕ} {f : ℕ → List α} {a : α} {rest : List α} (hp : p < n)
    (hpre : ∀ q < p, f q = []) (hl : f p = a :: rest) :
    levels n f = a :: levels n fun q => if q = p then rest else f q := by
  induction n with
  | zero => exact absurd hp (Nat.not_lt_zero p)
  | succ n ih =>
      rw [levels_succ, levels_succ]
      rcases Nat.lt_succ_iff_lt_or_eq.mp hp with hlt | rfl
      · rw [ih hlt, if_neg (Nat.ne_of_gt hlt), List.cons_append]
      · -- the levels before `p` are empty and stay so
        have hrest : levels p (fun q => if q = p then rest else f q) = [] :=
          levels_eq_nil fun q hq => (if_neg (Nat.ne_of_lt hq)).trans (hpre q hq)
        rw [levels_eq_nil hpre, hrest, if_pos rfl, hl]
        rfl

/-- **Pushing** at a level after which all levels are empty adds the entry at the end. -/
theorem levels_push {n p : ℕ} {f : ℕ → List α} {a : α} (hp : p < n)
    (hlast : ∀ q < n, p < q → f q = []) :
    levels n (fun q => f q ++ if q = p then [a] else []) = levels n f ++ [a] := by
  induction n with
  | zero => exact absurd hp (Nat.not_lt_zero p)
  | succ n ih =>
      rw [levels_succ, levels_succ]
      rcases Nat.lt_succ_iff_lt_or_eq.mp hp with hlt | rfl
      · rw [ih hlt fun q hq => hlast q (Nat.lt_succ_of_lt hq), hlast n (Nat.lt_succ_self n) hlt,
          if_neg (Nat.ne_of_gt hlt)]
        simp
      · have hpre : levels p (fun q => f q ++ if q = p then [a] else []) = levels p f :=
          levels_congr fun q hq => by rw [if_neg (Nat.ne_of_lt hq), List.append_nil]
        rw [hpre, if_pos rfl, List.append_assoc]

/-- The entries of a batch that go to level `p`. -/
def entriesAt (p : ℕ) (l : List (ℕ × α)) : List α := (l.filter fun e => e.1 = p).map Prod.snd

@[simp] theorem entriesAt_nil (p : ℕ) : entriesAt p ([] : List (ℕ × α)) = [] := rfl

/-- Batches one after the other. -/
theorem entriesAt_append (p : ℕ) (l l' : List (ℕ × α)) :
    entriesAt p (l ++ l') = entriesAt p l ++ entriesAt p l' := by
  simp [entriesAt]

/-- The first entry of a batch goes to its level or not. -/
theorem entriesAt_cons (p : ℕ) (e : ℕ × α) (l : List (ℕ × α)) :
    entriesAt p (e :: l) = (if p = e.1 then [e.2] else []) ++ entriesAt p l := by
  by_cases h : p = e.1
  · simp [entriesAt, h]
  · simp [entriesAt, h, Ne.symm h]

end Lib
