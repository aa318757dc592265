import Mathlib.Data.Finset.Card
import Mathlib.Data.Finset.Range
import Mathlib.Data.List.Nodup
import Mathlib.Logic.Function.Basic

/-! # A set spread over disjoint lists

A family of lists `F : ι → List α` partitions a set `B` when every element of `B` occurs in exactly one
of the lists and exactly once there, and nothing else occurs in any of them. This is the shape of the
wait queues of a kernel: each blocked task waits in one place.

* `Partitioned F B` — the family partitions the set.
* `Partitioned.push`, `Partitioned.pop` — appending a new element and removing a head. -/

namespace Lib

variable {ι α : Type*} [DecidableEq ι]

/-- **The lists `F` partition the set `B`.** -/
structure Partitioned (F : ι → List α) (B : α → Prop) : Prop where
  nodup : ∀ w, (F w).Nodup
  unique : ∀ {x : α} {w w' : ι}, x ∈ F w → x ∈ F w' → w = w'
  mem_iff : ∀ x, B x ↔ ∃ w, x ∈ F w

namespace Partitioned

variable {F : ι → List α} {B : α → Prop}

omit [DecidableEq ι] in
/-- Empty lists partition the empty set. -/
theorem empty (hF : ∀ w, F w = []) (hB : ∀ x, ¬ B x) : Partitioned F B where
  nodup w := by rw [hF w]; exact List.nodup_nil
  unique hx _ := by rw [hF] at hx; exact absurd hx List.not_mem_nil
  mem_iff x := by simp [hF, hB]

omit [DecidableEq ι] in
/-- The set may be described differently. -/
theorem congr {B' : α → Prop} (h : Partitioned F B) (hB : ∀ x, B x ↔ B' x) : Partitioned F B' :=
  ⟨h.nodup, h.unique, fun x => (hB x).symm.trans (h.mem_iff x)⟩

/-- **Push.** Appending an element outside the set to one of the lists adds it to the set. -/
theorem push (h : Partitioned F B) {x : α} (hx : ¬ B x) (w : ι) :
    Partitioned (Function.update F w (F w ++ [x])) fun y => y = x ∨ B y := by
  have hout : ∀ v, x ∉ F v := fun v hv => hx ((h.mem_iff x).mpr ⟨v, hv⟩)
  have hmem : ∀ y v, y ∈ Function.update F w (F w ++ [x]) v ↔ y ∈ F v ∨ (v = w ∧ y = x) := by
    intro y v
    by_cases hv : v = w
    · subst hv; simp
    · simp [hv]
  refine ⟨fun v => ?_, fun {y v v'} hv hv' => ?_, fun y => ?_⟩
  · by_cases hv : v = w
    · subst hv
      rw [Function.update_self]
      refine List.nodup_append.mpr ⟨h.nodup v, List.nodup_singleton x, ?_⟩
      intro a ha b hb
      rw [List.mem_singleton.mp hb]
      rintro rfl
      exact hout v ha
    · rw [Function.update_of_ne hv]
      exact h.nodup v
  · rw [hmem] at hv hv'
    rcases hv with hv | ⟨rfl, rfl⟩
    · rcases hv' with hv' | ⟨-, rfl⟩
      · exact h.unique hv hv'
      · exact absurd hv (hout v)
    · rcases hv' with hv' | ⟨hv', -⟩
      · exact absurd hv' (hout v')
      · exact hv'.symm
  · simp only [hmem, h.mem_iff y]
    constructor
    · rintro (rfl | ⟨v, hv⟩)
      · exact ⟨w, Or.inr ⟨rfl, rfl⟩⟩
      · exact ⟨v, Or.inl hv⟩
    · rintro ⟨v, hv | ⟨-, rfl⟩⟩
      · exact Or.inr ⟨v, hv⟩
      · exact Or.inl rfl

/-- **Pop.** Removing the head of one of the lists removes it from the set. -/
theorem pop (h : Partitioned F B) {x : α} {l : List α} {w : ι} (hw : F w = x :: l) :
    Partitioned (Function.update F w l) fun y => B y ∧ y ≠ x := by
  have hnd := h.nodup w
  rw [hw] at hnd
  obtain ⟨hnot, hnd'⟩ := List.nodup_cons.mp hnd
  have hxw : x ∈ F w := hw ▸ List.mem_cons_self
  have hmem : ∀ y v, y ∈ Function.update F w l v ↔ y ∈ F v ∧ y ≠ x := by
    intro y v
    by_cases hv : v = w
    · subst hv
      rw [Function.update_self, hw, List.mem_cons]
      constructor
      · intro hy
        exact ⟨Or.inr hy, fun hyx => hnot (hyx ▸ hy)⟩
      · rintro ⟨hy, hne⟩
        exact hy.resolve_left hne
    · rw [Function.update_of_ne hv]
      -- in another list the popped element does not occur anyway
      refine ⟨fun hy => ⟨hy, ?_⟩, fun hy => hy.1⟩
      rintro rfl
      exact hv (h.unique hy hxw)
  refine ⟨fun v => ?_, fun {y v v'} hv hv' => ?_, fun y => ?_⟩
  · by_cases hv : v = w
    · subst hv
      rwa [Function.update_self]
    · rw [Function.update_of_ne hv]
      exact h.nodup v
  · exact h.unique ((hmem y v).mp hv).1 ((hmem y v').mp hv').1
  · simp only [hmem, h.mem_iff y]
    constructor
    · rintro ⟨⟨v, hv⟩, hne⟩
      exact ⟨v, hv, hne⟩
    · rintro ⟨v, hv, hne⟩
      exact ⟨⟨v, hv⟩, hne⟩

end Partitioned

/-- A list without repetition of numbers below `n` that misses one of them is shorter than `n`. -/
theorem length_lt_of_notMem {l : List ℕ} {n x : ℕ} (hnd : l.Nodup) (hl : ∀ y ∈ l, y < n)
    (hx : x < n) (hxl : x ∉ l) : l.length < n := by
  have hsub : l.toFinset ⊆ (Finset.range n).erase x := by
    intro y hy
    have hy' := List.mem_toFinset.mp hy
    refine Finset.mem_erase.mpr ⟨fun hyx => hxl (hyx ▸ hy'), Finset.mem_range.mpr (hl y hy')⟩
  have hcard := Finset.card_le_card hsub
  rw [List.toFinset_card_of_nodup hnd, Finset.card_erase_of_mem (Finset.mem_range.mpr hx),
    Finset.card_range] at hcard
  omega

end Lib
