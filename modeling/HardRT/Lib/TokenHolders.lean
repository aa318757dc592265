import HardRT.Lib.TokenPool
import Mathlib.Data.List.Perm.Subperm

/-! # Who holds the tokens of a pool

If tokens are given back only by takers that have been let in, a pool guards a resource: of its `n`
tokens each one is stored or held, so at most `n` takers are inside at a time, and no give is dropped.
A taker that had to wait holds its token from the handoff on, and is inside only when its call has
returned.

* `TokenPool.Guards n c h e aw` — the books: `h` hold a token, `e` are inside, `aw` are in a call that
  has parked.
* `TokenPool.Guards.take`, `.park`, `.back`, `.give` — what the steps of a taker do to the books.
* `TokenPool.Guards.inside_le` — at most `n` are inside. -/

namespace Lib

namespace TokenPool

variable {τ : Type*} [DecidableEq τ] {n : ℕ} {c c' : TokenPool τ} {es : List (TokenEvent τ)}
  {h e : List τ} {aw aw' : τ → Prop} {t : τ}

/-- The taker to which an event hands a token. -/
def handedTo : TokenEvent τ → Option τ
  | .handoff t => some t
  | .taken _ | .parked _ | .given | .saturated => none

/-- **The pool guards `n` tokens.** The takers in `h` hold one each and those in `e` are inside, as often
as they occur there; `aw` are those whose call has parked. A parked taker that does not wait any more
has been handed a token and is about to be let in; for all others the two lists agree. -/
structure Guards (n : ℕ) (c : TokenPool τ) (h e : List τ) (aw : τ → Prop) : Prop where
  total : c.count + h.length = n
  le_max : n ≤ c.max
  waits : ∀ t ∈ c.waiters, aw t
  handed : ∀ t, aw t → t ∉ c.waiters → h.count t = e.count t + 1
  settled : ∀ t, (aw t → t ∈ c.waiters) → h.count t = e.count t

/-- Whoever is inside holds a token. -/
theorem Guards.count_le (hg : Guards n c h e aw) (t : τ) : e.count t ≤ h.count t := by
  by_cases ht : aw t → t ∈ c.waiters
  · exact Nat.le_of_eq (hg.settled t ht).symm
  · obtain ⟨haw, hout⟩ := Classical.not_imp.mp ht
    rw [hg.handed t haw hout]
    exact Nat.le_succ _

/-- **At most `n` takers are inside.** -/
theorem Guards.inside_le (hg : Guards n c h e aw) : e.length ≤ n := by
  have hsub : e.Subperm h := List.subperm_ext_iff.mpr fun t _ => hg.count_le t
  have hle := hsub.length_le
  have htotal := hg.total
  omega

/-- The books are about the set of parked takers only. -/
theorem Guards.congr (hg : Guards n c h e aw) (haw : ∀ t, aw' t ↔ aw t) : Guards n c h e aw' := by
  have heq : aw' = aw := by
    funext t
    exact propext (haw t)
  rwa [heq]

omit [DecidableEq τ] in
/-- Without an event nothing moves. -/
theorem Step.eq_of_nil (hs : Step c [] c') : c' = c := by
  cases hs with
  | idle => rfl

/-- A taker that finds a token is let in at once. -/
theorem Guards.take (hg : Guards n c h e aw) (hs : Step c [.taken t] c') :
    Guards n c' (t :: h) (t :: e) aw := by
  cases hs with
  | take t hpos =>
      obtain ⟨htotal, hmax, hwaits, hhanded, hsettled⟩ := hg
      refine ⟨?_, hmax, hwaits, fun u hu hout => ?_, fun u hu => ?_⟩
      · simp only [List.length_cons]
        omega
      · rw [List.count_cons, List.count_cons, hhanded u hu hout]
        omega
      · rw [List.count_cons, List.count_cons, hsettled u hu]

/-- A taker that finds none starts to wait. -/
theorem Guards.park (hg : Guards n c h e aw) (hs : Step c [.parked t] c') (ht : ¬ aw t)
    (haw : ∀ u, aw' u ↔ aw u ∨ u = t) : Guards n c' h e aw' := by
  cases hs with
  | park h0 hnot =>
      obtain ⟨htotal, hmax, hwaits, hhanded, hsettled⟩ := hg
      refine ⟨htotal, hmax, fun u hu => ?_, fun u hu hout => ?_, fun u hu => ?_⟩
      · rw [haw]
        rcases List.mem_append.mp hu with hu | hu
        · exact Or.inl (hwaits u hu)
        · exact Or.inr (List.mem_singleton.mp hu)
      · obtain ⟨hold, hnew⟩ := not_or.mp (mt List.mem_append.mpr hout)
        have hne : u ≠ t := mt List.mem_singleton.mpr hnew
        exact hhanded u (((haw u).mp hu).resolve_right hne) hold
      · refine hsettled u fun hau => ?_
        have hne : u ≠ t := fun heq => ht (heq ▸ hau)
        refine (List.mem_append.mp (hu ((haw u).mpr (Or.inl hau)))).resolve_right ?_
        exact mt List.mem_singleton.mp hne

/-- A taker that has been handed a token is let in when its call returns. -/
theorem Guards.back (hg : Guards n c h e aw) (ht : aw t) (hout : t ∉ c.waiters)
    (haw : ∀ u, aw' u ↔ aw u ∧ u ≠ t) : Guards n c h (t :: e) aw' := by
  obtain ⟨htotal, hmax, hwaits, hhanded, hsettled⟩ := hg
  refine ⟨htotal, hmax, fun u hu => ?_, fun u hu hu' => ?_, fun u hu => ?_⟩
  · have hne : u ≠ t := fun heq => hout (heq ▸ hu)
    exact (haw u).mpr ⟨hwaits u hu, hne⟩
  · obtain ⟨hau, hne⟩ := (haw u).mp hu
    rw [List.count_cons_of_ne hne.symm]
    exact hhanded u hau hu'
  · by_cases hut : u = t
    · subst hut
      rw [List.count_cons_self]
      exact hhanded u ht hout
    · rw [List.count_cons_of_ne (Ne.symm hut)]
      exact hsettled u fun hau => hu ((haw u).mpr ⟨hau, hut⟩)

/-- **A taker that is inside gives its token back**: it goes to the longest waiting taker or into the
store, where there is room because the giver held it. -/
theorem Guards.give (hg : Guards n c h e aw) (hs : Step c (.given :: es) c') (hnd : c.waiters.Nodup)
    (ht : t ∈ e) : .saturated ∉ es ∧
      Guards n c' (es.filterMap handedTo ++ h.erase t) (e.erase t) aw := by
  have hcount := hg.count_le
  have htmem := List.count_pos_iff.mpr ht
  have hmem : t ∈ h := List.count_pos_iff.mp (Nat.lt_of_lt_of_le htmem (hcount t))
  have hlen := List.length_erase_of_mem hmem
  have hpos := List.length_pos_of_mem hmem
  obtain ⟨htotal, hmax, hwaits, hhanded, hsettled⟩ := hg
  -- the giver leaves both lists
  have herase : ∀ u m, h.count u = e.count u + m → (h.erase t).count u = (e.erase t).count u + m := by
    intro u m hu
    by_cases hut : u = t
    · subst hut
      rw [List.count_erase_self, List.count_erase_self]
      omega
    · rwa [List.count_erase_of_ne hut, List.count_erase_of_ne hut]
  cases hs with
  | @handoff w rest hw =>
      rw [hw] at hwaits hhanded hsettled hnd
      obtain ⟨hnot, -⟩ := List.nodup_cons.mp hnd
      refine ⟨by simp, ⟨?_, hmax, fun u hu => hwaits u (List.mem_cons_of_mem _ hu), ?_, ?_⟩⟩
      · show c.count + ([w] ++ h.erase t).length = n
        rw [List.length_append, hlen, List.length_singleton]
        omega
      · intro u hu hout
        show (w :: h.erase t).count u = _
        by_cases huw : u = w
        · subst huw
          rw [List.count_cons_self, herase u 0 (hsettled u fun _ => List.mem_cons_self)]
        · rw [List.count_cons_of_ne (Ne.symm huw)]
          exact herase u 1 (hhanded u hu (by simp [huw, hout]))
      · intro u hu
        show (w :: h.erase t).count u = _
        have huw : u ≠ w := fun heq => hnot (heq ▸ hu (heq ▸ hwaits w List.mem_cons_self))
        rw [List.count_cons_of_ne huw.symm]
        exact herase u 0 (hsettled u fun hau => List.mem_cons_of_mem _ (hu hau))
  | store hw hlt =>
      refine ⟨by simp, ⟨?_, hmax, hwaits, fun u hu hout => ?_, fun u hu => ?_⟩⟩
      · show c.count + 1 + (h.erase t).length = n
        omega
      · exact herase u 1 (hhanded u hu hout)
      · exact herase u 0 (hsettled u hu)
  | saturate hw hge => omega

end TokenPool

end Lib
