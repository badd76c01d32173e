import Tdps.Lib.Rounding

/-!
# The camera's frame encoder (`main.py`)

`send_gate` and `send_sp` write a frame with `uart.writechar`. `sendGate` and `sendSp` are the
arguments of those calls in order, in exact arithmetic; `frameBytes` is what arrives on the wire.
-/

namespace Tdps

open Rounding

/-- `uart.writechar(n)`: the low eight bits go out. -/
def writechar (n : ℤ) : UInt8 := UInt8.ofInt n

/-- The arguments of the `writechar` calls of `send_gate()`. -/
def sendGate : List ℤ := [170, 1]

/-- The arguments of the `writechar` calls of `send_sp(sp_l, sp_r)`. -/
def sendSp (sp_l sp_r : ℚ) : List ℤ :=
  let sp_l_int := truncate sp_l
  let sp_l_dec := sp_l - sp_l_int
  let sp_r_int := truncate sp_r
  let sp_r_dec := sp_r - sp_r_int
  [170, 85, min 100 sp_l_int, roundHalfEven (sp_l_dec * 100), min 100 sp_r_int,
    roundHalfEven (sp_r_dec * 100)]

/-- The bytes of a frame. -/
def frameBytes (args : List ℤ) : List UInt8 := args.map writechar

/-! ## The two numbers that encode a speed -/

/-- The integer part that `send_sp` writes for `sp`. -/
def speedInt (sp : ℚ) : ℤ := min 100 (truncate sp)

/-- The fraction that `send_sp` writes for `sp`, in hundredths. -/
def speedDec (sp : ℚ) : ℤ := roundHalfEven ((sp - truncate sp) * 100)

theorem sendSp_eq (sp_l sp_r : ℚ) :
    sendSp sp_l sp_r = [170, 85, speedInt sp_l, speedDec sp_l, speedInt sp_r, speedDec sp_r] := rfl

theorem speedInt_mem {sp : ℚ} (h0 : 0 ≤ sp) : 0 ≤ speedInt sp ∧ speedInt sp ≤ 100 := by
  have hfl : 0 ≤ ⌊sp⌋ := Int.floor_nonneg.2 h0
  unfold speedInt
  rw [truncate_of_nonneg h0]
  omega

/-- The fraction may be rounded up to 100. -/
theorem speedDec_mem {sp : ℚ} (h0 : 0 ≤ sp) : 0 ≤ speedDec sp ∧ speedDec sp ≤ 100 := by
  have hlo := Int.floor_le sp
  have hhi := Int.lt_floor_add_one sp
  unfold speedDec
  rw [truncate_of_nonneg h0]
  refine ⟨le_roundHalfEven ?_, roundHalfEven_le ?_⟩ <;> push_cast <;> linarith

/-- Up to 100 percent the two numbers together are the speed rounded to hundredths: a fraction that
is rounded up to 100 carries into the integer part. -/
theorem speedInt_speedDec {sp : ℚ} (h0 : 0 ≤ sp) (h1 : sp ≤ 100) :
    100 * speedInt sp + speedDec sp = roundHalfEven (100 * sp) := by
  have hfl : ⌊sp⌋ ≤ 100 := by
    have : ⌊sp⌋ ≤ ⌊(100 : ℚ)⌋ := Int.floor_mono h1
    simpa using this
  have heven : Even (100 * ⌊sp⌋) := ⟨50 * ⌊sp⌋, by ring⟩
  have hsplit : 100 * sp = (sp - ⌊sp⌋) * 100 + ((100 * ⌊sp⌋ : ℤ) : ℚ) := by push_cast; ring
  unfold speedInt speedDec
  rw [truncate_of_nonneg h0, min_eq_right hfl, hsplit, roundHalfEven_add_even _ heven, add_comm]

theorem writechar_toNat {n : ℤ} (h0 : 0 ≤ n) (h1 : n ≤ 255) : ((writechar n).toNat : ℤ) = n := by
  unfold writechar UInt8.ofInt
  rw [Int.emod_eq_of_lt h0 (by omega), UInt8.toNat_ofNat']
  omega

end Tdps
