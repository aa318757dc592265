import Mathlib.Data.Set.Finite.Lattice
import Mathlib.Logic.Relation
import Mathlib.Order.Bounds.Basic
import Mathlib.Order.Interval.Finset.Nat

/-! # Waiting for locks that are taken in order

Tasks own locks and wait for locks. If every lock has a rank and a task only waits for a lock that ranks
above all it owns, then the tasks a waiting task depends on form a chain that ends: no deadlock.

* `WaitGraph` — who owns and who waits for which lock; `WaitGraph.Next t u` if `t` waits for a lock of `u`.
* `WaitGraph.Ordered rank` — contended locks have owners, and waiting goes upwards.
* `WaitGraph.Ordered.acyclic` — no task waits, through others, for itself.
* `WaitGraph.Ordered.chain_ends` — from every waiting task a chain leads to an owner that does not wait. -/

namespace Lib

/-- Who waits for which lock, and who owns which. -/
structure WaitGraph (τ μ : Type*) where
  waits : τ → μ → Prop
  owns : τ → μ → Prop

namespace WaitGraph

variable {τ μ : Type*} {g : WaitGraph τ μ} {rank : μ → ℕ} {t u : τ}

/-- `t` waits for a lock that `u` owns. -/
def Next (g : WaitGraph τ μ) (t u : τ) : Prop := ∃ m, g.waits t m ∧ g.owns u m

/-- **Locks are taken in order**: finitely many are waited for, each of those has an owner, and a waiting
task owns only locks of lower rank. -/
structure Ordered (g : WaitGraph τ μ) (rank : μ → ℕ) : Prop where
  finite : {m | ∃ t, g.waits t m}.Finite
  held : ∀ t m, g.waits t m → ∃ u, g.owns u m
  upward : ∀ t m m', g.waits t m → g.owns t m' → rank m' < rank m

namespace Ordered

/-- Along a chain the ranks grow. -/
theorem rank_le (h : g.Ordered rank) (hc : Relation.TransGen g.Next t u) :
    ∃ m m', g.waits t m ∧ g.owns u m' ∧ rank m ≤ rank m' := by
  induction hc with
  | single hn =>
      obtain ⟨m, hw, ho⟩ := hn
      exact ⟨m, m, hw, ho, le_rfl⟩
  | tail _ hn ih =>
      obtain ⟨m, m₁, hw, ho, hle⟩ := ih
      obtain ⟨m', hw', ho'⟩ := hn
      have hlt := h.upward _ m' m₁ hw' ho
      exact ⟨m, m', hw, ho', by omega⟩

/-- **No cycle**: a task never waits for itself, however many others are in between. -/
theorem acyclic (h : g.Ordered rank) (t : τ) : ¬ Relation.TransGen g.Next t t := by
  intro hc
  obtain ⟨m, m', hw, ho, hle⟩ := h.rank_le hc
  have hlt := h.upward t m m' hw ho
  omega

/-- **Every chain of waiting tasks ends**, in an owner that does not wait. -/
theorem chain_ends (h : g.Ordered rank) {m : μ} (hw : g.waits t m) :
    ∃ u, Relation.TransGen g.Next t u ∧ (∃ m', g.owns u m') ∧ ∀ m', ¬ g.waits u m' := by
  obtain ⟨b, hb⟩ := (h.finite.image rank).bddAbove
  have hbound : ∀ t m, g.waits t m → rank m ≤ b := fun t m hw =>
    hb (Set.mem_image_of_mem rank ⟨t, hw⟩)
  -- induction on how far the lock that is waited for is below the highest rank
  obtain ⟨n, hn⟩ : ∃ n, b ≤ rank m + n := ⟨b, by omega⟩
  induction n generalizing t m with
  | zero =>
      obtain ⟨u, ho⟩ := h.held t m hw
      refine ⟨u, .single ⟨m, hw, ho⟩, ⟨m, ho⟩, fun m' hw' => ?_⟩
      have hlt := h.upward u m' m hw' ho
      have hle := hbound u m' hw'
      omega
  | succ n ih =>
      obtain ⟨u, ho⟩ := h.held t m hw
      by_cases hu : ∃ m', g.waits u m'
      · -- the owner waits itself, for a lock of higher rank
        obtain ⟨m', hw'⟩ := hu
        have hlt := h.upward u m' m hw' ho
        obtain ⟨v, hc, hv⟩ := ih hw' (by omega)
        exact ⟨v, .head ⟨m, hw, ho⟩ hc, hv⟩
      · exact ⟨u, .single ⟨m, hw, ho⟩, ⟨m, ho⟩, fun m' hw' => hu ⟨m', hw'⟩⟩

end Ordered

end WaitGraph

end Lib
