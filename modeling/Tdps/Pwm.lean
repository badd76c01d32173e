import Mathlib.Tactic.SplitIfs
import Mathlib.Data.UInt

/-!
# The PWM driver (`drv_pwm.c`)

`rt_pwm_set` reaches `drv_pwm_set`, which converts the period and the pulse from nanoseconds to timer
ticks and limits both before it writes the timer's registers.
-/

namespace Tdps

/-- `MAX_PERIOD`. -/
def MAX_PERIOD : UInt32 := 65535

/-- `MIN_PERIOD`. -/
def MIN_PERIOD : UInt32 := 3

/-- `MIN_PULSE`. -/
def MIN_PULSE : UInt32 := 2

/-- The registers of the timer that `drv_pwm_set` writes; the output is high while the counter, which
runs from 0 to `autoreload`, is below `compare`. -/
structure Timer where
  prescaler : UInt32
  autoreload : UInt32
  compare : UInt32
deriving DecidableEq, Repr

/-- `drv_pwm_set` with the timer clock in MHz. -/
def drvPwmSet (tim_clock : UInt64) (period pulse : UInt32) : Timer :=
  let ticks := (period.toUInt64 * tim_clock / 1000).toUInt32
  let psc := (ticks / MAX_PERIOD + 1).toUInt64
  let ticks := (ticks.toUInt64 / psc).toUInt32
  let ticks := if ticks < MIN_PERIOD then MIN_PERIOD else ticks
  let high := (pulse.toUInt64 * tim_clock / psc / 1000).toUInt32
  let high := if high < MIN_PULSE then MIN_PULSE else if ticks < high then ticks else high
  { prescaler := (psc - 1).toUInt32
    autoreload := ticks - 1
    compare := high - 1 }

/-- Whatever is asked for, the driver programs a pulse that is shorter than the period. -/
theorem drvPwmSet_compare_le (tim_clock : UInt64) (period pulse : UInt32) :
    (drvPwmSet tim_clock period pulse).compare ≤ (drvPwmSet tim_clock period pulse).autoreload := by
  unfold drvPwmSet MIN_PERIOD MIN_PULSE
  dsimp only
  generalize (pulse.toUInt64 * tim_clock / _ / 1000).toUInt32 = high
  generalize (UInt64.toUInt32 (UInt32.toUInt64 _ / _)) = ticks
  have key : ∀ p q : UInt32, 1 ≤ p → p ≤ q → p - 1 ≤ q - 1 := by
    intro p q hp hpq
    grind
  refine key _ _ ?_ ?_
  · split_ifs <;> grind
  · split_ifs <;> grind

end Tdps
