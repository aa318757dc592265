import Mathlib.Data.Nat.ModEq
import Mathlib.Tactic.Ring

/-! # Scaling a wrapped counter

A counter of modulus `w` holds `n % w` after `n` events. Scaling it by a ratio `c / d` and truncating to
the same modulus gives the scaled number of events exactly if the `n / w` wraps it has lost scale to a
whole number.

* `scaled_mod` — the error is that of the remainder of the lost wraps.
* `scaled_mod_of_dvd`, `dvd_of_scaled_mod` — when there is none. -/

namespace Lib

/-- Splitting off the `q` wraps of a counter `q * w + r`, scaled by `c` and divided by `d`. -/
theorem scaled_split {w c d q r : ℕ} (hd : 0 < d) :
    (q * w + r) * c / d = w * (q * c / d) + (r * c + w * (q * c % d)) / d := by
  -- divide the wraps by `d` first: the quotient part leaves, the remainder part stays
  have hsplit : (q * w + r) * c = r * c + w * (q * c % d) + d * (w * (q * c / d)) := by
    have hdiv := Nat.mod_add_div (q * c) d
    calc (q * w + r) * c = r * c + w * (q * c) := by ring
      _ = r * c + w * (q * c % d + d * (q * c / d)) := by rw [hdiv]
      _ = _ := by ring
  rw [hsplit, Nat.add_mul_div_left _ _ hd, Nat.add_comm]

/-- The scaled counter differs from the scaled number of ticks by the wraps it has lost. -/
theorem scaled_mod {w c d : ℕ} (hd : 0 < d) (n : ℕ) :
    n * c / d % w = (n % w * c + w * (n / w * c % d)) / d % w := by
  have hn : n * c / d = w * (n / w * c / d) + (n % w * c + w * (n / w * c % d)) / d := by
    rw [← scaled_split hd, Nat.div_add_mod']
  rw [hn, Nat.mul_add_mod]

/-- **Scaling commutes with the wrap if the wraps scale to a whole number.** `n` is the number of ticks,
of which a counter of modulus `w` still holds `n % w`; the ratio is `c / d`. -/
theorem scaled_mod_of_dvd {w c d n : ℕ} (hd : 0 < d) (h : d ∣ n / w * c) :
    n % w * c / d % w = n * c / d % w := by
  rw [scaled_mod hd n, Nat.mod_eq_zero_of_dvd h, Nat.mul_zero, Nat.add_zero]

/-- **Only then**, for a ratio that is not too small. -/
theorem dvd_of_scaled_mod {w c d n : ℕ} (hd : 0 < d) (hdw : d ≤ w)
    (h : n % w * c / d % w = n * c / d % w) : d ∣ n / w * c := by
  rw [scaled_mod hd n] at h
  rw [Nat.dvd_iff_mod_eq_zero]
  have hlt := Nat.mod_lt (n / w * c) hd
  generalize n / w * c % d = b at h hlt ⊢
  generalize n % w * c = a at h
  by_contra hb
  -- the remainder `b` of the wraps shifts the quotient by more than 0 and less than `w`
  have hlow : a / d + 1 ≤ (a + w * b) / d := by
    rw [← Nat.add_div_right a hd]
    exact Nat.div_le_div_right (Nat.add_le_add_left
      (hdw.trans (Nat.le_mul_of_pos_right w (Nat.pos_of_ne_zero hb))) a)
  have hhigh : (a + w * b) / d + 1 ≤ a / d + w := by
    rw [← Nat.add_mul_div_left a w hd, ← Nat.add_div_right _ hd]
    refine Nat.div_le_div_right ?_
    calc a + w * b + d ≤ a + w * b + w := Nat.add_le_add_left hdw _
      _ = a + w * (b + 1) := by ring
      _ ≤ a + w * d := Nat.add_le_add_left (Nat.mul_le_mul_left w hlt) a
      _ = a + d * w := by rw [Nat.mul_comm]
  -- a shift that is zero modulo `w` and in that range does not exist
  obtain ⟨e, he⟩ := Nat.exists_eq_add_of_le hlow
  rw [he, Nat.add_assoc] at h
  have hzero : 0 ≡ 1 + e [MOD w] := Nat.ModEq.add_left_cancel' (a / d) h
  rw [Nat.ModEq, Nat.zero_mod, Nat.mod_eq_of_lt (by omega)] at hzero
  omega

end Lib
