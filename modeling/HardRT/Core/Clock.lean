import HardRT.Core.Tick
import HardRT.Lib.WrappedCounter
import Mathlib.Logic.Function.Iterate

/-! # Kernel time

`hrt_tick_now` reads the 32-bit tick counter, `hrt_now_ms` scales it to milliseconds and truncates the
result to 32 bits. The counter wraps every `2 ^ 32` ticks and the reading every `2 ^ 32` milliseconds,
and the two wraps fit together for some tick rates only.

* `now_ms_is_elapsed_time` — the reading is the elapsed time as long as the wraps of the tick counter
  amount to whole wraps of the reading: before the first of them, and always if `tick_hz` divides 1000.
* `hrtNowMs_ne_of_not_dvd` — after any other number of wraps the reading is wrong. -/

namespace HardRT

open Lib

/-! ## The two clocks -/

/-- `hrt_tick_now`. -/
def hrtTickNow (k : Kernel) : ℕ := k.tick

/-- `hrt_now_ms`; the product is taken in 64 bits, where it does not overflow. -/
def hrtNowMs (k : Kernel) : ℕ :=
  if k.tickHz = 0 then 0 else k.tick * 1000 / k.tickHz % 2 ^ 32

/-- `hrt_init` starts the counter at zero. -/
@[simp] theorem hrtInit_tick (sz : Sizing) (port : Port) (cfg : Option KernelConfig) (mem : Kernel) :
    (hrtInit sz port cfg mem).tick = 0 := by
  unfold hrtInit
  cases cfg <;> cases hidle : port.initIdleTask <;> simp

/-- The tick rate in effect: the configured one, or 1000 if that is zero. -/
def KernelConfig.rate (c : KernelConfig) : ℕ := if c.tickHz = 0 then 1000 else c.tickHz

/-- `hrt_init` stores the tick rate. -/
theorem hrtInit_tickHz (sz : Sizing) (port : Port) (c : KernelConfig) (mem : Kernel) :
    (hrtInit sz port (some c) mem).tickHz = c.rate := by
  unfold hrtInit
  cases hidle : port.initIdleTask <;> simp [KernelConfig.rate]

/-- The kernel always has a tick rate. -/
theorem KernelConfig.rate_pos (c : KernelConfig) : 0 < c.rate := by
  unfold KernelConfig.rate
  split_ifs <;> omega

/-- The counter after `n` ticks. -/
theorem hrtTickNow_iterate {k : Kernel} (hk : k.tick < 2 ^ 32) (n : ℕ) :
    hrtTickNow (hrtIncTick^[n] k) = (k.tick + n) % 2 ^ 32 := by
  induction n with
  | zero => exact (Nat.mod_eq_of_lt hk).symm
  | succ n ih =>
      rw [Function.iterate_succ_apply']
      show (hrtTickNow (hrtIncTick^[n] k) + 1) % 2 ^ 32 = _
      rw [ih, Nat.mod_add_mod, Nat.add_assoc]

/-- Ticks leave the rate alone. -/
theorem hrtIncTick_iterate_tickHz (k : Kernel) (n : ℕ) : (hrtIncTick^[n] k).tickHz = k.tickHz := by
  induction n with
  | zero => rfl
  | succ n ih => rwa [Function.iterate_succ_apply']

/-! ## Elapsed time -/

section Elapsed

variable (sz : Sizing) (port : Port) (c : KernelConfig) (mem : Kernel) (n : ℕ)

/-- The reading after `n` ticks. -/
theorem hrtNowMs_iterate (hhz : 1 ≤ c.tickHz) :
    hrtNowMs (hrtIncTick^[n] (hrtInit sz port (some c) mem)) =
      n % 2 ^ 32 * 1000 / c.tickHz % 2 ^ 32 := by
  have hrate : (hrtIncTick^[n] (hrtInit sz port (some c) mem)).tickHz = c.tickHz := by
    rw [hrtIncTick_iterate_tickHz, hrtInit_tickHz, KernelConfig.rate, if_neg (by omega)]
  have htick := hrtTickNow_iterate (k := hrtInit sz port (some c) mem) (by simp) n
  rw [hrtTickNow, hrtInit_tick, Nat.zero_add] at htick
  rw [hrtNowMs, hrate, htick, if_neg (by omega)]

/-- **`hrt_now_ms` is the elapsed time** in milliseconds, modulo `2 ^ 32`, after any number `n` of ticks
whose `n / 2 ^ 32` wraps of the tick counter scale to a whole number of wraps of the reading. -/
theorem now_ms_is_elapsed_time (hhz : 1 ≤ c.tickHz) (hwrap : c.tickHz ∣ n / 2 ^ 32 * 1000) :
    hrtNowMs (hrtIncTick^[n] (hrtInit sz port (some c) mem)) = n * 1000 / c.tickHz % 2 ^ 32 := by
  rw [hrtNowMs_iterate sz port c mem n hhz]
  exact scaled_mod_of_dvd hhz hwrap

/-- **Everywhere else the reading is wrong.** -/
theorem hrtNowMs_ne_of_not_dvd (hhz : 1 ≤ c.tickHz) (h32 : c.tickHz < 2 ^ 32)
    (hwrap : ¬ c.tickHz ∣ n / 2 ^ 32 * 1000) :
    hrtNowMs (hrtIncTick^[n] (hrtInit sz port (some c) mem)) ≠ n * 1000 / c.tickHz % 2 ^ 32 := by
  rw [hrtNowMs_iterate sz port c mem n hhz]
  exact fun h => hwrap (dvd_of_scaled_mod hhz h32.le h)

end Elapsed

/-- 10 Hz, whose ticks are 100 ms long: after five wraps of the counter and one more tick the reading
is 100 ms past the same number of wraps. -/
theorem now_ms_is_elapsed_time_ten_hz :
    hrtNowMs (hrtIncTick^[5 * 2 ^ 32 + 1] (hrtInit .default .posix (some ⟨10, .priority, 5⟩) .bss)) =
      100 := by
  rw [now_ms_is_elapsed_time .default .posix ⟨10, .priority, 5⟩ .bss (5 * 2 ^ 32 + 1) (by decide)
    (by decide)]
  decide

/-- **A clock that falls back.** At 2000 Hz the tick counter wraps after `2 ^ 31` milliseconds, and the
reading falls back to zero with it. -/
theorem now_ms_falls_back :
    hrtNowMs (hrtIncTick^[2 ^ 32] (hrtInit .default .posix (some ⟨2000, .priority, 5⟩) .bss)) = 0 ∧
    2 ^ 32 * 1000 / 2000 % 2 ^ 32 = 2 ^ 31 ∧
    hrtNowMs (hrtIncTick^[2 ^ 32] (hrtInit .default .posix (some ⟨2000, .priority, 5⟩) .bss)) ≠
      2 ^ 32 * 1000 / 2000 % 2 ^ 32 := by
  refine ⟨?_, by decide, ?_⟩
  · -- the counter is back at zero; no tick is evaluated for this
    rw [hrtNowMs_iterate .default .posix ⟨2000, .priority, 5⟩ .bss (2 ^ 32) (by decide)]
    decide
  · exact hrtNowMs_ne_of_not_dvd .default .posix ⟨2000, .priority, 5⟩ .bss (2 ^ 32) (by decide)
      (by decide) (by decide)

end HardRT
