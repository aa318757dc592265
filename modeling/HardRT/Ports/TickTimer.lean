import HardRT.Core.Clock

/-! # The tick timer

`hrt_init` hands the tick rate to `hrt_port_start_systick`, which programs the periodic timer of the
port: `setitimer` on POSIX, `SysTick` on Cortex-M. Neither call is checked, and a period the timer does
not accept leaves a kernel whose time stands still.

* `Posix.timer_runs_iff`, `CortexM.timer_runs_iff` — for which rates the timer runs.
* `port_tick_runs` — for these rates, whatever is passed to `hrt_init`, the tick runs on both ports.
* `port_tick_stops` — the rates at either end for which it does not. -/

namespace HardRT

/-- `hrt_tick_source_t`. -/
inductive TickSource
  /-- The port owns the timer. -/
  | systick
  /-- The application calls the tick handler. -/
  | external
  deriving DecidableEq, Repr

/-! ## POSIX -/

namespace Posix

/-- `struct timeval`. -/
structure Timeval where
  tvSec : ℕ
  tvUsec : ℕ
  deriving DecidableEq, Repr

/-- `struct itimerval`. -/
structure Itimerval where
  itInterval : Timeval
  itValue : Timeval
  deriving DecidableEq, Repr

/-- `hrt_port_start_systick`: the timer given to `setitimer`, or `none` if no timer is started. -/
def hrtPortStartSystick (src : TickSource) (tickHz : ℕ) : Option Itimerval :=
  match src with
  | .external => none
  | .systick =>
      let usec := if tickHz = 0 then 1000 else 1000000 / tickHz
      -- the whole period goes into `tv_usec`, the seconds stay zero
      some ⟨⟨0, usec⟩, ⟨0, usec⟩⟩

/-- A time that `setitimer` accepts and that does not disarm the timer. -/
def Timeval.Fires (v : Timeval) : Prop := 1 ≤ v.tvUsec ∧ v.tvUsec ≤ 999999

/-- The timer fires, and goes on doing so. -/
def Itimerval.Fires (it : Itimerval) : Prop := it.itValue.Fires ∧ it.itInterval.Fires

/-- A port-owned timer has been started and runs. -/
def TimerRuns (tickHz : ℕ) : Prop := ∃ it, hrtPortStartSystick .systick tickHz = some it ∧ it.Fires

/-- **Which rates `setitimer` can run**: a period of a whole second or more is not a `tv_usec`, and one
below a microsecond rounds to zero. -/
theorem timer_runs_iff {tickHz : ℕ} (hpos : 0 < tickHz) :
    TimerRuns tickHz ↔ 2 ≤ tickHz ∧ tickHz ≤ 1000000 := by
  have hlow : 1 ≤ 1000000 / tickHz ↔ tickHz ≤ 1000000 := by
    rw [Nat.le_div_iff_mul_le hpos, Nat.one_mul]
  have hhigh : 1000000 / tickHz ≤ 999999 ↔ 2 ≤ tickHz := by
    rw [← Nat.lt_succ_iff, Nat.div_lt_iff_lt_mul hpos]
    omega
  have hfires : TimerRuns tickHz ↔ (⟨0, 1000000 / tickHz⟩ : Timeval).Fires := by
    simp [TimerRuns, hrtPortStartSystick, hpos.ne', Itimerval.Fires]
  rw [hfires, Timeval.Fires, hlow, hhigh, and_comm]

end Posix

/-! ## Cortex-M -/

namespace CortexM

/-- The weak `hrt_port_get_core_hz`: `SystemCoreClock`, or 100 MHz if that is zero. -/
def hrtPortGetCoreHz (systemCoreClock : ℕ) : ℕ :=
  if systemCoreClock ≠ 0 then systemCoreClock else 100000000

/-- The `SysTick` registers that are programmed with a period. -/
structure SysTick where
  load : ℕ
  val : ℕ
  deriving DecidableEq, Repr

/-- `hrt_port_start_systick`, where `coreHz` is what `hrt_port_get_core_hz` returns: the registers, or
`none` if the timer is not started. -/
def hrtPortStartSystick (src : TickSource) (coreHz tickHz : ℕ) : Option SysTick :=
  if tickHz = 0 then none
  else match src with
    | .external => none
    | .systick =>
        if coreHz = 0 then none
        else
          let reload := coreHz / tickHz
          let reload := if reload = 0 then 1 else reload
          -- the clamp is on the period, which may be one more than the register's largest value
          let reload := if 0xFFFFFF < reload then 0xFFFFFF else reload
          some ⟨reload - 1, 0⟩

/-- A reload value that `SysTick` counts down from. -/
def Reloads (load : ℕ) : Prop := 1 ≤ load ∧ load ≤ 0xFFFFFF

/-- A port-owned timer has been started and runs, with the exact period if the register can hold it. -/
def TimerRuns (coreHz tickHz : ℕ) : Prop :=
  ∃ r, hrtPortStartSystick .systick coreHz tickHz = some r ∧ Reloads r.load ∧
    (Reloads (coreHz / tickHz - 1) → r.load = coreHz / tickHz - 1)

/-- The reload value, in one formula. -/
theorem load_eq {coreHz tickHz : ℕ} (hcore : coreHz ≠ 0) (hpos : 0 < tickHz) :
    hrtPortStartSystick .systick coreHz tickHz =
      some ⟨min (coreHz / tickHz) 0xFFFFFF - 1, 0⟩ := by
  simp only [hrtPortStartSystick, hpos.ne', hcore, if_false]
  -- periods of zero and one cycle load the same value, so the first clamp does not show
  congr 2
  split_ifs <;> omega

/-- **Which rates `SysTick` can run**: the clock has to give at least two cycles a tick, and the clamp
is off by one at the largest period the register can hold. -/
theorem timer_runs_iff {coreHz tickHz : ℕ} (hcore : coreHz ≠ 0) (hpos : 0 < tickHz) :
    TimerRuns coreHz tickHz ↔
      2 * tickHz ≤ coreHz ∧ ¬ (2 ^ 24 * tickHz ≤ coreHz ∧ coreHz < (2 ^ 24 + 1) * tickHz) := by
  -- stated about the period in cycles, both sides are linear in it
  rw [← Nat.le_div_iff_mul_le hpos, ← Nat.le_div_iff_mul_le hpos, ← Nat.div_lt_iff_lt_mul hpos]
  simp only [TimerRuns, load_eq hcore hpos, Option.some.injEq, exists_eq_left', Reloads]
  omega

end CortexM

/-! ## Both ports -/

/-- **A port-owned tick runs.** `hrt_init` starts a POSIX timer that `setitimer` accepts and that fires
for every rate between 2 Hz and 1 MHz; on Cortex-M, `SysTick` is loaded with a value it counts down from,
and with the exact one if that fits, for every rate of at most half the core clock other than those with
a period of exactly `2 ^ 24` cycles. -/
theorem port_tick_runs (sz : Sizing) (c : KernelConfig) (mem : Kernel) :
    (2 ≤ c.rate → c.rate ≤ 1000000 →
      Posix.TimerRuns (hrtInit sz .posix (some c) mem).tickHz) ∧
    ∀ idleStack coreHz, coreHz ≠ 0 → 2 * c.rate ≤ coreHz →
      (coreHz < 2 ^ 24 * c.rate ∨ (2 ^ 24 + 1) * c.rate ≤ coreHz) →
      CortexM.TimerRuns coreHz (hrtInit sz (.cortexM idleStack) (some c) mem).tickHz := by
  refine ⟨fun hlow hhigh => ?_, fun idleStack coreHz hcore htwo hclamp => ?_⟩
  · rw [hrtInit_tickHz, Posix.timer_runs_iff c.rate_pos]
    exact ⟨hlow, hhigh⟩
  · rw [hrtInit_tickHz, CortexM.timer_runs_iff hcore c.rate_pos]
    exact ⟨htwo, by omega⟩

/-- The zeroed configuration, on POSIX and on a core that does not know its clock. -/
theorem port_tick_runs_defaults :
    Posix.TimerRuns (hrtInit .default .posix (some ⟨0, .priority, 0⟩) .bss).tickHz ∧
    CortexM.TimerRuns (CortexM.hrtPortGetCoreHz 0)
      (hrtInit .default (.cortexM 4096) (some ⟨0, .priority, 0⟩) .bss).tickHz := by
  have h := port_tick_runs .default ⟨0, .priority, 0⟩ .bss
  exact ⟨h.1 (by decide) (by decide),
    h.2 4096 (CortexM.hrtPortGetCoreHz 0) (by decide) (by decide) (by decide)⟩

/-- **Ticks that never come.** On POSIX, 1 Hz asks for a period of 1000000 microseconds, which
`setitimer` rejects, and a rate above 1 MHz for none, which disarms the timer. On Cortex-M, a tick rate
equal to the core clock loads zero, which stops the counter; and a period of `2 ^ 24` cycles, whose
reload value just fits, is programmed one cycle short. -/
theorem port_tick_stops :
    Posix.hrtPortStartSystick .systick (hrtInit .default .posix (some ⟨1, .priority, 0⟩) .bss).tickHz =
      some ⟨⟨0, 1000000⟩, ⟨0, 1000000⟩⟩ ∧
    Posix.hrtPortStartSystick .systick
      (hrtInit .default .posix (some ⟨1000001, .priority, 0⟩) .bss).tickHz = some ⟨⟨0, 0⟩, ⟨0, 0⟩⟩ ∧
    ¬ Posix.TimerRuns (hrtInit .default .posix (some ⟨1, .priority, 0⟩) .bss).tickHz ∧
    ¬ Posix.TimerRuns (hrtInit .default .posix (some ⟨1000001, .priority, 0⟩) .bss).tickHz ∧
    CortexM.hrtPortStartSystick .systick 1000
      (hrtInit .default (.cortexM 4096) (some ⟨1000, .priority, 0⟩) .bss).tickHz = some ⟨0, 0⟩ ∧
    ¬ CortexM.TimerRuns 1000
      (hrtInit .default (.cortexM 4096) (some ⟨1000, .priority, 0⟩) .bss).tickHz ∧
    CortexM.hrtPortStartSystick .systick (2 ^ 24)
      (hrtInit .default (.cortexM 4096) (some ⟨1, .priority, 0⟩) .bss).tickHz =
        some ⟨0xFFFFFE, 0⟩ ∧
    2 ^ 24 / 1 - 1 = 0xFFFFFF ∧
    ¬ CortexM.TimerRuns (2 ^ 24)
      (hrtInit .default (.cortexM 4096) (some ⟨1, .priority, 0⟩) .bss).tickHz := by
  simp only [hrtInit_tickHz]
  refine ⟨by decide, by decide, ?_, ?_, by decide, ?_, by decide, by decide, ?_⟩
  · rw [Posix.timer_runs_iff (by decide)]
    decide
  · rw [Posix.timer_runs_iff (by decide)]
    decide
  · rw [CortexM.timer_runs_iff (by decide) (by decide)]
    decide
  · rw [CortexM.timer_runs_iff (by decide) (by decide)]
    decide

end HardRT
