import Mathlib.Algebra.Order.Ring.Int
import Mathlib.Data.List.Induction
import Mathlib.Tactic.SplitIfs
import Tdps.Encoder

/-!
# Proofs: the count of an encoder

The count that `pulse_encoder_get_count` puts together has 0x7FFF for every wrap of the counter, which
has 0x8000 values. So it is off by one for each wrap (`getCount_toInt`), and right in the range of the
counter only (`getCount_iff`).
-/

namespace Tdps.PulseEncoder

/-- The up edges minus the down edges since the last clear. -/
def net (ops : List Op) : ℤ :=
  ops.foldl (fun n op => match op with
    | .edge e => n + e.delta
    | .clear => 0) 0

/-- The device when the net count is `n`. -/
structure Counts (d : PulseEncoder) (n : ℤ) : Prop where
  CNT : (d.CNT.val : ℤ) = n % 0x8000
  over_under_flowcount : d.over_under_flowcount = Int32.ofInt (n / 0x8000)

theorem counts_init : Counts init 0 := ⟨rfl, rfl⟩

theorem counts_up {d : PulseEncoder} {n : ℤ} (h : Counts d n) : Counts (d.edge .up) (n + 1) := by
  have hmax : AUTO_RELOAD_VALUE = 0x7FFF := rfl
  have hcnt := h.CNT
  unfold edge
  dsimp only
  split_ifs with hlt
  · have hdiv : (n + 1) / 0x8000 = n / 0x8000 := by omega
    refine ⟨?_, ?_⟩
    · push_cast
      omega
    · rw [hdiv]
      exact h.over_under_flowcount
  · have hdiv : (n + 1) / 0x8000 = n / 0x8000 + 1 := by omega
    refine ⟨?_, ?_⟩
    · show (0 : ℤ) = _
      omega
    · rw [hdiv, Int32.ofInt_add, ← h.over_under_flowcount]
      rfl

theorem counts_down {d : PulseEncoder} {n : ℤ} (h : Counts d n) :
    Counts (d.edge .down) (n - 1) := by
  have hcnt := h.CNT
  unfold edge
  dsimp only
  split_ifs with hlt
  · have hdiv : (n - 1) / 0x8000 = n / 0x8000 := by omega
    refine ⟨?_, ?_⟩
    · push_cast
      omega
    · rw [hdiv]
      exact h.over_under_flowcount
  · have hdiv : (n - 1) / 0x8000 = n / 0x8000 - 1 := by omega
    refine ⟨?_, ?_⟩
    · show (0x7FFF : ℤ) = _
      omega
    · rw [hdiv, Int32.ofInt_sub, ← h.over_under_flowcount]
      rfl

/-- After any operations the counter and the wraps are those of the net count. -/
theorem counts_run (ops : List Op) : Counts (run ops) (net ops) := by
  induction ops using List.reverseRecOn with
  | nil => exact counts_init
  | append_singleton ops op ih =>
    unfold run net at ih ⊢
    rw [List.foldl_append, List.foldl_append]
    cases op with
    | edge e =>
      cases e with
      | up => exact counts_up ih
      | down => exact counts_down ih
    | clear => exact counts_init

/-- The count that is returned: one less than it should be for every wrap, in 32 bits. -/
theorem getCount_toInt {d : PulseEncoder} {n : ℤ} (h : Counts d n) :
    d.getCount.toInt = (n - n / 0x8000).bmod (2 ^ 32) := by
  have hcnt : (Int16.ofNat d.CNT).toInt32 = Int32.ofInt (n % 0x8000) := by
    have hmax : Int16.maxValue.toInt = AUTO_RELOAD_VALUE := rfl
    have hle : (d.CNT.val : ℤ) ≤ Int16.maxValue.toInt := by
      rw [hmax]
      exact_mod_cast Nat.lt_succ_iff.1 d.CNT.isLt
    rw [Int16.toInt32_ofNat' hle, ← Int32.ofInt_eq_ofNat, h.CNT]
  unfold getCount
  rw [hcnt, h.over_under_flowcount]
  have : Int32.ofNat AUTO_RELOAD_VALUE = Int32.ofInt 0x7FFF := rfl
  rw [this, ← Int32.ofInt_mul, ← Int32.ofInt_add, Int32.toInt_ofInt]
  congr 1
  omega

/-- **The count of an encoder.** After any edges and clears the count that is returned is the net count
if and only if that is in the range of the counter. -/
theorem getCount_iff (ops : List Op) :
    (run ops).getCount.toInt = net ops ↔ 0 ≤ net ops ∧ net ops ≤ AUTO_RELOAD_VALUE := by
  have hmax : (AUTO_RELOAD_VALUE : ℤ) = 0x7FFF := rfl
  rw [getCount_toInt (counts_run ops), Int.bmod_eq_iff (by decide), hmax]
  constructor
  · rintro ⟨hlow, hhigh, hdvd⟩
    omega
  · intro h
    omega

/-- The first edge below zero is not counted. -/
theorem getCount_below_zero :
    (run [.edge .down]).getCount.toInt = 0 ∧ net [.edge .down] = -1 := by decide

end Tdps.PulseEncoder
