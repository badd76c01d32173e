import Tdps.Commu
import Tdps.Lib.Rounding

/-!
# Wheel speeds to pulses (`motor.c`)

`motor_ctrl_th` joins the integer and the fraction byte of each wheel to a percentage and scales it to
a pulse width in nanoseconds. The C code computes in `float` and `double`; `Arith` is what rounds the
intermediate results, `Arith.exact` and `Arith.ieee` are its two instances.
-/

namespace Tdps

open Rounding

/-- The PWM period of `motor_ctrl_th` in nanoseconds. -/
def period : UInt32 := 1000000

/-- The rounding of the intermediate results of type `float` and `double`. -/
structure Arith where
  single : ℚ → ℚ
  double : ℚ → ℚ
  single_isRounding : IsRounding (2 ^ 24) single
  double_isRounding : IsRounding (2 ^ 53) double

/-- No rounding. -/
def Arith.exact : Arith := ⟨id, id, isRounding_id _, isRounding_id _⟩

/-- IEEE binary32 and binary64, nearest even; no value here is near the ends of their ranges. -/
def Arith.ieee : Arith :=
  ⟨roundTo 24, roundTo 53, isRounding_roundTo (by norm_num), isRounding_roundTo (by norm_num)⟩

/-- `(float)sp_data[i] + (float)sp_data[j] / 100.0`: the quotient and the sum are of type `double`,
the variable they are stored in is a `float`. -/
def speed (A : Arith) (i j : UInt8) : ℚ :=
  A.single (A.double ((i.toNat : ℚ) + A.double ((j.toNat : ℚ) / 100)))

/-- `(int)(sp * 10000)`, stored in an `rt_uint32_t`. -/
def pulse (A : Arith) (sp : ℚ) : UInt32 := UInt32.ofInt (truncate (A.single (sp * 10000)))

/-- The pulses of the two wheels that `motor_ctrl_th` drives; `pulse1` and `pulse4` stay 0. -/
structure Pulses where
  pulse2 : UInt32
  pulse3 : UInt32
deriving DecidableEq, Repr

/-- The conversion of `sp_data` in one round of `motor_ctrl_th`. -/
def motorCtrl (A : Arith) (sp_data : Bytes4) : Pulses :=
  { pulse2 := pulse A (speed A sp_data.b2 sp_data.b3)
    pulse3 := pulse A (speed A sp_data.b0 sp_data.b1) }

/-! ## The conversion in exact arithmetic and its bounds in any -/

theorem toNat_ofInt_uint32 {n : ℤ} (h0 : 0 ≤ n) (h1 : n < 2 ^ 32) :
    (UInt32.ofInt n).toNat = n.toNat := by
  unfold UInt32.ofInt
  rw [Int.emod_eq_of_lt h0 h1, UInt32.toNat_ofNat', Nat.mod_eq_of_lt (by omega)]

theorem pulse_exact (i j : UInt8) :
    (pulse Arith.exact (speed Arith.exact i j)).toNat = 10000 * i.toNat + 100 * j.toNat := by
  have hi := i.toNat_lt
  have hj := j.toNat_lt
  have hval : ((i.toNat : ℚ) + (j.toNat : ℚ) / 100) * 10000 =
      ((10000 * i.toNat + 100 * j.toNat : ℤ) : ℚ) := by
    push_cast
    ring
  show (UInt32.ofInt (truncate (((i.toNat : ℚ) + (j.toNat : ℚ) / 100) * 10000))).toNat = _
  rw [hval, truncate_intCast, toNat_ofInt_uint32 (by omega) (by omega)]
  omega

theorem speed_nonneg (A : Arith) (i j : UInt8) : 0 ≤ speed A i j := by
  refine A.single_isRounding.nonneg (A.double_isRounding.nonneg ?_)
  have hj : 0 ≤ A.double ((j.toNat : ℚ) / 100) := A.double_isRounding.nonneg (by positivity)
  positivity

/-- A speed bounded by a natural stays so after both roundings, and its pulse is bounded by
`10000` times the bound. -/
theorem pulse_le (A : Arith) {sp : ℚ} {n : ℕ} (hn : n ≤ 1000) (h0 : 0 ≤ sp) (h : sp ≤ n) :
    (pulse A sp).toNat ≤ 10000 * n := by
  have hprod : sp * 10000 ≤ ((10000 * n : ℕ) : ℚ) := by push_cast; linarith
  have hs := A.single_isRounding.le_natCast (by omega) hprod
  have hs0 : 0 ≤ A.single (sp * 10000) := A.single_isRounding.nonneg (by linarith)
  have hlo : 0 ≤ truncate (A.single (sp * 10000)) := by
    rw [truncate_of_nonneg hs0]
    exact Int.floor_nonneg.2 hs0
  have hhi : truncate (A.single (sp * 10000)) ≤ 10000 * n := by
    rw [truncate_of_nonneg hs0]
    have : ((⌊A.single (sp * 10000)⌋ : ℤ) : ℚ) ≤ ((10000 * n : ℕ) : ℚ) := (Int.floor_le _).trans hs
    exact_mod_cast this
  unfold pulse
  rw [toNat_ofInt_uint32 hlo (by omega)]
  omega

theorem speed_le (A : Arith) {i j : UInt8} {n : ℕ} (hn : n ≤ 1000)
    (h : 100 * i.toNat + j.toNat ≤ 100 * n) : speed A i j ≤ n := by
  have hi : i.toNat ≤ n := by omega
  -- the fraction fits between the integer part and `n`, and rounding does not push it out
  have hfrac : A.double ((j.toNat : ℚ) / 100) ≤ ((n - i.toNat : ℕ) : ℚ) := by
    refine A.double_isRounding.le_natCast (by omega) ?_
    have hj : (j.toNat : ℚ) ≤ ((100 * (n - i.toNat) : ℕ) : ℚ) := by exact_mod_cast (by omega)
    rw [div_le_iff₀ (by norm_num)]
    push_cast at hj ⊢
    linarith
  refine A.single_isRounding.le_natCast (by omega) (A.double_isRounding.le_natCast (by omega) ?_)
  rw [Nat.cast_sub hi] at hfrac
  linarith

theorem le_pulse (A : Arith) {sp : ℚ} {n : ℕ} (hn : n ≤ 1000) (h : n ≤ sp) (h1 : sp ≤ 1000) :
    10000 * n ≤ (pulse A sp).toNat := by
  have hn0 : (0 : ℚ) ≤ n := Nat.cast_nonneg n
  have hprod : ((10000 * n : ℕ) : ℚ) ≤ A.single (sp * 10000) := by
    rw [← A.single_isRounding.exact (10000 * n) (by omega)]
    refine A.single_isRounding.mono ?_
    push_cast
    linarith
  have hup := A.single_isRounding.le_natCast (n := 10000000) (by norm_num) (q := sp * 10000)
    (by push_cast; linarith)
  have hs0 : 0 ≤ A.single (sp * 10000) := A.single_isRounding.nonneg (by linarith)
  have hlo : (10000 * n : ℤ) ≤ truncate (A.single (sp * 10000)) := by
    rw [truncate_of_nonneg hs0, Int.le_floor]
    exact_mod_cast hprod
  have hhi : truncate (A.single (sp * 10000)) ≤ 10000000 := by
    rw [truncate_of_nonneg hs0]
    have : ((⌊A.single (sp * 10000)⌋ : ℤ) : ℚ) ≤ ((10000000 : ℕ) : ℚ) := (Int.floor_le _).trans hup
    exact_mod_cast this
  unfold pulse
  rw [toNat_ofInt_uint32 (by omega) (by omega)]
  omega

theorem le_speed (A : Arith) {i j : UInt8} {n : ℕ} (h : n ≤ i.toNat) : n ≤ speed A i j := by
  have hi := i.toNat_lt
  have hj : 0 ≤ A.double ((j.toNat : ℚ) / 100) := A.double_isRounding.nonneg (by positivity)
  have hni : (n : ℚ) ≤ i.toNat := by exact_mod_cast h
  have hd : (n : ℚ) ≤ A.double ((i.toNat : ℚ) + A.double ((j.toNat : ℚ) / 100)) := by
    rw [← A.double_isRounding.exact n (by omega)]
    exact A.double_isRounding.mono (by linarith)
  unfold speed
  rw [← A.single_isRounding.exact n (by omega)]
  exact A.single_isRounding.mono hd

/-- Whatever the bytes, a pulse is at most that of 258 percent. -/
theorem pulse_speed_le (A : Arith) (i j : UInt8) : (pulse A (speed A i j)).toNat ≤ 2580000 := by
  have hi := i.toNat_lt
  have hj := j.toNat_lt
  exact pulse_le A (n := 258) (by omega) (speed_nonneg A i j) (speed_le A (by omega) (by omega))

/-- A speed without fraction is converted exactly. -/
theorem pulse_integer (A : Arith) (i : UInt8) : (pulse A (speed A i 0)).toNat = 10000 * i.toNat := by
  have hi := i.toNat_lt
  have hle := speed_le A (i := i) (j := 0) (n := i.toNat) (by omega) (by simp)
  have hge := le_speed A (i := i) (j := 0) (n := i.toNat) le_rfl
  have h1000 : ((i.toNat : ℕ) : ℚ) ≤ 1000 := by exact_mod_cast (by omega : i.toNat ≤ 1000)
  exact le_antisymm (pulse_le A (by omega) (speed_nonneg A i 0) hle)
    (le_pulse A (by omega) hge (hle.trans h1000))

end Tdps
