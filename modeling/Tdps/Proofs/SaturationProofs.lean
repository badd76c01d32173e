import Tdps.Motor
import Tdps.SendSp

/-!
# Proofs: speeds above 100 percent

`send_sp` limits the integer part of a speed to 100 and sends the fraction as it is. So a speed above
100 percent is cut to full duty only if its fraction is rounded to 0 (`saturates_iff`).
-/

namespace Tdps

open Rounding

/-- The pulses that `motor_ctrl_th` makes of the payload that `send_sp` writes. -/
def sentPulses (sp_l sp_r : ℚ) : Pulses :=
  match frameBytes (sendSp sp_l sp_r) with
  | [_, _, b0, b1, b2, b3] => motorCtrl Arith.exact ⟨b0, b1, b2, b3⟩
  | _ => ⟨0, 0⟩

/-- The pulse of one wheel at this speed. -/
def sentPulse (sp : ℚ) : ℕ := (sentPulses sp sp).pulse3.toNat

theorem sentPulse_eq {sp : ℚ} (h0 : 0 ≤ sp) :
    (sentPulse sp : ℤ) = 10000 * speedInt sp + 100 * speedDec sp := by
  obtain ⟨hi0, hi1⟩ := speedInt_mem h0
  obtain ⟨hd0, hd1⟩ := speedDec_mem h0
  have hi := writechar_toNat hi0 (by omega)
  have hd := writechar_toNat hd0 (by omega)
  show ((pulse Arith.exact (speed Arith.exact (writechar (speedInt sp))
    (writechar (speedDec sp)))).toNat : ℤ) = _
  rw [pulse_exact]
  push_cast
  rw [hi, hd]

/-- Up to 100 percent the pulse is the speed rounded to hundredths of a percent. -/
theorem sentPulse_of_le {sp : ℚ} (h0 : 0 ≤ sp) (h1 : sp ≤ 100) :
    (sentPulse sp : ℤ) = 100 * roundHalfEven (100 * sp) := by
  rw [sentPulse_eq h0, ← speedInt_speedDec h0 h1]
  ring

/-- From 100 percent on it is full duty and the fraction. -/
theorem sentPulse_of_ge {sp : ℚ} (h : 100 ≤ sp) :
    (sentPulse sp : ℤ) = 1000000 + 100 * speedDec sp := by
  have h0 : 0 ≤ sp := by linarith
  have hfl : 100 ≤ ⌊sp⌋ := Int.le_floor.2 (by exact_mod_cast h)
  have hint : speedInt sp = 100 := by
    unfold speedInt
    rw [truncate_of_nonneg h0]
    exact min_eq_left hfl
  rw [sentPulse_eq h0, hint]
  norm_num

/-- The speed is below 100 percent, or its fraction is rounded to 0. -/
def Clamped (sp : ℚ) : Prop := sp < 100 ∨ sp - ⌊sp⌋ ≤ 1 / 200

/-- The pulse stays within the period, and is full duty from 100 percent on. -/
structure FullDuty (sp : ℚ) : Prop where
  le_period : sentPulse sp ≤ period.toNat
  full : 100 ≤ sp → sentPulse sp = period.toNat

theorem speedDec_le_zero_iff {sp : ℚ} (h0 : 0 ≤ sp) : speedDec sp ≤ 0 ↔ sp - ⌊sp⌋ ≤ 1 / 200 := by
  unfold speedDec
  rw [truncate_of_nonneg h0, roundHalfEven_le_zero_iff]
  constructor <;> intro h <;> linarith

theorem fullDuty_iff {sp : ℚ} (h0 : 0 ≤ sp) : FullDuty sp ↔ Clamped sp := by
  have hper : period.toNat = 1000000 := rfl
  constructor
  · intro h
    rcases lt_or_ge sp 100 with hlt | hge
    · exact Or.inl hlt
    · right
      rw [← speedDec_le_zero_iff h0]
      have hval := sentPulse_of_ge hge
      have hle := h.le_period
      omega
  · intro h
    rcases lt_or_ge sp 100 with hlt | hge
    · refine ⟨?_, fun hge => absurd hge (not_le.2 hlt)⟩
      have hval := sentPulse_of_le h0 hlt.le
      have hround : roundHalfEven (100 * sp) ≤ 10000 := roundHalfEven_le (by push_cast; linarith)
      omega
    · have hval := sentPulse_of_ge hge
      have hdec : speedDec sp ≤ 0 := (speedDec_le_zero_iff h0).2 (h.resolve_left (not_lt.2 hge))
      have hdec0 := (speedDec_mem h0).1
      have hfull : sentPulse sp = period.toNat := by omega
      exact ⟨hfull.le, fun _ => hfull⟩

theorem sentPulse_mono {sp sp' : ℚ} (h0 : 0 ≤ sp) (hc : Clamped sp) (hc' : Clamped sp')
    (hle : sp ≤ sp') : sentPulse sp ≤ sentPulse sp' := by
  have h0' : 0 ≤ sp' := h0.trans hle
  rcases lt_or_ge sp' 100 with hlt' | hge'
  · have hval := sentPulse_of_le h0 (hle.trans hlt'.le)
    have hval' := sentPulse_of_le h0' hlt'.le
    have hround : roundHalfEven (100 * sp) ≤ roundHalfEven (100 * sp') :=
      roundHalfEven_mono (by linarith)
    omega
  · have hfull := ((fullDuty_iff h0').2 hc').full hge'
    have hper := ((fullDuty_iff h0).2 hc).le_period
    omega

/-- The law of `send_sp` for two speeds: both pulses stay within the period, are full duty from 100
percent on, and are in the order of the speeds. -/
structure Saturates (sp sp' : ℚ) : Prop where
  fst : FullDuty sp
  snd : FullDuty sp'
  mono : sp ≤ sp' → sentPulse sp ≤ sentPulse sp'

/-- **Saturation.** Two speeds satisfy the law if and only if each of them is below 100 percent or has
a fraction that is rounded to 0. -/
theorem saturates_iff (sp sp' : { q : ℚ // 0 ≤ q }) :
    Saturates sp sp' ↔ Clamped sp ∧ Clamped sp' := by
  constructor
  · intro h
    exact ⟨(fullDuty_iff sp.2).1 h.fst, (fullDuty_iff sp'.2).1 h.snd⟩
  · rintro ⟨hc, hc'⟩
    exact ⟨(fullDuty_iff sp.2).2 hc, (fullDuty_iff sp'.2).2 hc', sentPulse_mono sp.2 hc hc'⟩

/-- 100.5 percent is sent as 100 and 50, and gives a longer pulse than 101 percent. -/
theorem unclamped_fraction :
    sentPulse (201 / 2) = 1005000 ∧ sentPulse 101 = 1000000 ∧ ¬ Saturates (201 / 2) 101 := by
  have hval : sentPulse (201 / 2) = 1005000 := by decide +kernel
  have hval' : sentPulse 101 = 1000000 := by decide +kernel
  refine ⟨hval, hval', ?_⟩
  intro h
  have hmono := h.mono (by norm_num)
  omega

end Tdps
