import Mathlib.Algebra.Order.Floor.Ring
import Mathlib.Data.Int.ConditionallyCompleteOrder
import Mathlib.Data.Int.Log
import Mathlib.Data.Rat.Floor
import Mathlib.Tactic.Linarith
import Mathlib.Tactic.Ring

/-!
# Rounding rationals to integers and to binary floating-point formats

`truncate` rounds towards zero (a C cast to an integer type, Python's `int`), `roundHalfEven` to the
nearest integer with ties to the even one (Python's `round`, the IEEE default), and `roundTo p` to
the nearest number with `p` significant bits (no bound on the exponent). `IsRounding N r` is what the
users of a format need of its rounding: it is monotone and leaves the naturals up to `N` alone.
-/

namespace Rounding

section Integers

variable {K : Type*} [Field K] [LinearOrder K] [FloorRing K]

/-- Round towards zero. -/
def truncate (q : K) : ℤ := if 0 ≤ q then ⌊q⌋ else ⌈q⌉

theorem truncate_of_nonneg {q : K} (hq : 0 ≤ q) : truncate q = ⌊q⌋ := if_pos hq

/-- Round to the nearest integer, ties to the even one. -/
def roundHalfEven (q : K) : ℤ :=
  if q - ⌊q⌋ < 1 / 2 then ⌊q⌋
  else if 1 / 2 < q - ⌊q⌋ then ⌊q⌋ + 1
  else if Even ⌊q⌋ then ⌊q⌋ else ⌊q⌋ + 1

/-- The result is the floor or one above it, whichever is not farther than one half. -/
theorem roundHalfEven_cases (q : K) :
    (roundHalfEven q = ⌊q⌋ ∧ q - ⌊q⌋ ≤ 1 / 2) ∨ (roundHalfEven q = ⌊q⌋ + 1 ∧ 1 / 2 ≤ q - ⌊q⌋) := by
  unfold roundHalfEven
  split_ifs with h1 h2 h3
  · exact Or.inl ⟨rfl, h1.le⟩
  · exact Or.inr ⟨rfl, h2.le⟩
  · exact Or.inl ⟨rfl, not_lt.1 h2⟩
  · exact Or.inr ⟨rfl, not_lt.1 h1⟩

theorem floor_le_roundHalfEven (q : K) : ⌊q⌋ ≤ roundHalfEven q := by
  rcases roundHalfEven_cases q with ⟨e, -⟩ | ⟨e, -⟩ <;> omega

theorem roundHalfEven_le_floor_add_one (q : K) : roundHalfEven q ≤ ⌊q⌋ + 1 := by
  rcases roundHalfEven_cases q with ⟨e, -⟩ | ⟨e, -⟩ <;> omega

variable [IsStrictOrderedRing K]

theorem truncate_intCast (n : ℤ) : truncate (n : K) = n := by
  unfold truncate
  split_ifs
  · exact Int.floor_intCast n
  · exact Int.ceil_intCast n

theorem abs_roundHalfEven_sub_le (q : K) : |(roundHalfEven q : K) - q| ≤ 1 / 2 := by
  have hlo := Int.floor_le q
  have hhi := Int.lt_floor_add_one q
  rcases roundHalfEven_cases q with ⟨e, h⟩ | ⟨e, h⟩
  · rw [e, abs_le]
    exact ⟨by linarith, by linarith⟩
  · rw [e, Int.cast_add, Int.cast_one, abs_le]
    exact ⟨by linarith, by linarith⟩

theorem roundHalfEven_intCast (n : ℤ) : roundHalfEven (n : K) = n := by
  simp [roundHalfEven]

/-- Adding an even integer commutes with rounding: the parity that breaks a tie does not change. -/
theorem roundHalfEven_add_even (q : K) {n : ℤ} (hn : Even n) :
    roundHalfEven (q + n) = roundHalfEven q + n := by
  have hfl : ⌊q + (n : K)⌋ = ⌊q⌋ + n := Int.floor_add_intCast q n
  have hsub : q + (n : K) - ((⌊q⌋ + n : ℤ) : K) = q - ⌊q⌋ := by push_cast; ring
  have hev : Even (⌊q⌋ + n) ↔ Even ⌊q⌋ := by simp [Int.even_add, hn]
  unfold roundHalfEven
  rw [hfl, hsub]
  simp only [hev]
  split_ifs <;> ring

theorem roundHalfEven_mono : Monotone (roundHalfEven : K → ℤ) := by
  intro q r hqr
  rcases (Int.floor_mono hqr).lt_or_eq with hlt | heq
  · calc roundHalfEven q ≤ ⌊q⌋ + 1 := roundHalfEven_le_floor_add_one q
      _ ≤ ⌊r⌋ := hlt
      _ ≤ roundHalfEven r := floor_le_roundHalfEven r
  · unfold roundHalfEven
    rw [← heq]
    have hsub : q - (⌊q⌋ : K) ≤ r - ⌊q⌋ := by linarith
    -- equal floors: only the order of the two fractions against one half matters
    split_ifs with h1 h2 h3 h4 h5 h6 h7 h8 <;> first
      | omega
      | (exfalso; linarith)

/-- Integer bounds survive rounding. -/
theorem le_roundHalfEven {n : ℤ} {q : K} (h : (n : K) ≤ q) : n ≤ roundHalfEven q := by
  simpa only [roundHalfEven_intCast] using roundHalfEven_mono h

theorem roundHalfEven_le {n : ℤ} {q : K} (h : q ≤ n) : roundHalfEven q ≤ n := by
  simpa only [roundHalfEven_intCast] using roundHalfEven_mono h

/-- One half is rounded down to 0. -/
theorem roundHalfEven_le_zero_iff {q : K} : roundHalfEven q ≤ 0 ↔ q ≤ 1 / 2 := by
  have hlo := Int.floor_le q
  constructor
  · intro h
    have hround := abs_le.1 (abs_roundHalfEven_sub_le q)
    have hcast : (roundHalfEven q : K) ≤ 0 := by exact_mod_cast h
    linarith
  · intro h
    have hhalf : roundHalfEven (1 / 2 : K) = 0 := by norm_num [roundHalfEven]
    rw [← hhalf]
    exact roundHalfEven_mono h

end Integers

/-! ## Binary formats -/

/-- The exponent of the last place of a positive `q` in a format with `p` significant bits. -/
def ulpExponent (p : ℕ) (q : ℚ) : ℤ := Int.log 2 q - (p - 1)

/-- Round a positive number to `p` significant bits. -/
def roundPos (p : ℕ) (q : ℚ) : ℚ :=
  roundHalfEven (q / 2 ^ ulpExponent p q) * 2 ^ ulpExponent p q

/-- Round to `p` significant bits, nearest with ties to even. -/
def roundTo (p : ℕ) (q : ℚ) : ℚ :=
  if 0 < q then roundPos p q else if q < 0 then -roundPos p (-q) else 0

/-- A monotone rounding that is exact on the naturals up to `N`. -/
structure IsRounding (N : ℕ) (r : ℚ → ℚ) : Prop where
  mono : Monotone r
  exact : ∀ n : ℕ, n ≤ N → r n = n

theorem IsRounding.le_natCast {N : ℕ} {r : ℚ → ℚ} (hr : IsRounding N r) {q : ℚ} {n : ℕ} (hn : n ≤ N)
    (h : q ≤ n) : r q ≤ n := by
  rw [← hr.exact n hn]
  exact hr.mono h

theorem IsRounding.nonneg {N : ℕ} {r : ℚ → ℚ} (hr : IsRounding N r) {q : ℚ} (h : 0 ≤ q) :
    0 ≤ r q := by
  have h0 : r ((0 : ℕ) : ℚ) = ((0 : ℕ) : ℚ) := hr.exact 0 (Nat.zero_le N)
  rw [Nat.cast_zero] at h0
  rw [← h0]
  exact hr.mono h

/-- Computing exactly is a rounding. -/
theorem isRounding_id (N : ℕ) : IsRounding N id := ⟨monotone_id, fun _ _ => rfl⟩

theorem two_zpow_pos (e : ℤ) : (0 : ℚ) < 2 ^ e := zpow_pos (by norm_num) e

theorem two_zpow_natCast_add (k : ℕ) (e : ℤ) :
    (2 : ℚ) ^ ((k : ℤ) + e) = ((2 ^ k : ℤ) : ℚ) * 2 ^ e := by
  rw [zpow_add₀ (by norm_num), zpow_natCast]
  norm_cast

/-- A number that is an integer in units of its last place is its own rounding. -/
theorem roundPos_eq_self {p : ℕ} {q : ℚ} {m : ℤ} (h : q / 2 ^ ulpExponent p q = m) :
    roundPos p q = q := by
  have h2 : (2 : ℚ) ^ ulpExponent p q ≠ 0 := (two_zpow_pos _).ne'
  unfold roundPos
  rw [h, roundHalfEven_intCast, ← h, div_mul_cancel₀ q h2]

/-- Rounding stays in the closed binade of its argument. -/
theorem roundPos_le_binade (p : ℕ) (q : ℚ) : roundPos p q ≤ 2 ^ (Int.log 2 q + 1) := by
  have hpos := two_zpow_pos (ulpExponent p q)
  have hbin : (2 : ℚ) ^ (Int.log 2 q + 1) = ((2 ^ p : ℤ) : ℚ) * 2 ^ ulpExponent p q := by
    rw [← two_zpow_natCast_add]
    congr 1
    unfold ulpExponent
    ring
  have hlt : q < 2 ^ (Int.log 2 q + 1) := by
    simpa using Int.lt_zpow_succ_log_self (by norm_num : 1 < 2) q
  have hle : roundHalfEven (q / 2 ^ ulpExponent p q) ≤ 2 ^ p := by
    refine roundHalfEven_le ?_
    rw [div_le_iff₀ hpos, ← hbin]
    exact hlt.le
  rw [hbin]
  exact mul_le_mul_of_nonneg_right (by exact_mod_cast hle) hpos.le

theorem binade_le_roundPos {p : ℕ} (hp : 1 ≤ p) {q : ℚ} (hq : 0 < q) :
    2 ^ Int.log 2 q ≤ roundPos p q := by
  have hpos := two_zpow_pos (ulpExponent p q)
  have hbin : (2 : ℚ) ^ Int.log 2 q = ((2 ^ (p - 1) : ℤ) : ℚ) * 2 ^ ulpExponent p q := by
    rw [← two_zpow_natCast_add]
    congr 1
    unfold ulpExponent
    omega
  have hle : (2 : ℚ) ^ Int.log 2 q ≤ q := by
    simpa using Int.zpow_log_le_self (by norm_num : 1 < 2) hq
  have hge : 2 ^ (p - 1) ≤ roundHalfEven (q / 2 ^ ulpExponent p q) := by
    refine le_roundHalfEven ?_
    rw [le_div_iff₀ hpos, ← hbin]
    exact hle
  rw [hbin]
  exact mul_le_mul_of_nonneg_right (by exact_mod_cast hge) hpos.le

theorem roundPos_mono {p : ℕ} (hp : 1 ≤ p) {q r : ℚ} (hq : 0 < q) (hqr : q ≤ r) :
    roundPos p q ≤ roundPos p r := by
  have hr : 0 < r := hq.trans_le hqr
  rcases (Int.log_mono_right (b := 2) hq hqr).lt_or_eq with hlt | heq
  · -- different binades: the power of two between them separates the results
    calc roundPos p q ≤ 2 ^ (Int.log 2 q + 1) := roundPos_le_binade p q
      _ ≤ 2 ^ Int.log 2 r := zpow_le_zpow_right₀ (by norm_num) hlt
      _ ≤ roundPos p r := binade_le_roundPos hp hr
  · have hulp : ulpExponent p q = ulpExponent p r := by simp [ulpExponent, heq]
    have hpos := two_zpow_pos (ulpExponent p r)
    unfold roundPos
    rw [hulp]
    refine mul_le_mul_of_nonneg_right ?_ hpos.le
    have := roundHalfEven_mono (div_le_div_of_nonneg_right hqr hpos.le)
    exact_mod_cast this

theorem roundPos_nonneg {p : ℕ} (hp : 1 ≤ p) {q : ℚ} (hq : 0 < q) : 0 ≤ roundPos p q :=
  (two_zpow_pos _).le.trans (binade_le_roundPos hp hq)

theorem roundTo_mono {p : ℕ} (hp : 1 ≤ p) : Monotone (roundTo p) := by
  intro q r hqr
  unfold roundTo
  split_ifs with h1 h2 h3 h4 h5 h6 h7
  · exact roundPos_mono hp h1 hqr
  · linarith
  · linarith
  · linarith [roundPos_nonneg hp (neg_pos.2 h4), roundPos_nonneg hp h5]
  · exact neg_le_neg (roundPos_mono hp (neg_pos.2 h6) (neg_le_neg hqr))
  · linarith [roundPos_nonneg hp (neg_pos.2 h4)]
  · linarith [roundPos_nonneg hp h7]
  · linarith
  · exact le_rfl

/-- A format with `p` significant bits holds every natural up to `2 ^ p`. -/
theorem roundTo_natCast {p : ℕ} (hp : 1 ≤ p) {n : ℕ} (hn : n ≤ 2 ^ p) :
    roundTo p (n : ℚ) = n := by
  rcases Nat.eq_zero_or_pos n with rfl | hpos
  · simp [roundTo]
  have hq : (0 : ℚ) < n := by exact_mod_cast hpos
  have hlog : Int.log 2 (n : ℚ) = Nat.log 2 n := Int.log_natCast 2 n
  unfold roundTo
  rw [if_pos hq]
  rcases hn.lt_or_eq with hlt | rfl
  · -- the last place is at most one, so `n` is a whole number of them
    have hle : Nat.log 2 n ≤ p - 1 := by
      have := Nat.log_lt_of_lt_pow (by omega) hlt
      omega
    obtain ⟨k, hk⟩ : ∃ k : ℕ, ulpExponent p n = -(k : ℤ) :=
      ⟨p - 1 - Nat.log 2 n, by unfold ulpExponent; rw [hlog]; omega⟩
    refine roundPos_eq_self (m := n * 2 ^ k) ?_
    rw [hk, zpow_neg, zpow_natCast, div_inv_eq_mul]
    push_cast
    ring
  · have hulp : ulpExponent p ((2 ^ p : ℕ) : ℚ) = 1 := by
      unfold ulpExponent
      rw [hlog, Nat.log_pow (by norm_num)]
      ring
    refine roundPos_eq_self (m := 2 ^ (p - 1)) ?_
    rw [hulp, zpow_one, div_eq_iff (by norm_num)]
    push_cast
    rw [← pow_succ, Nat.sub_add_cancel hp]

theorem isRounding_roundTo {p : ℕ} (hp : 1 ≤ p) : IsRounding (2 ^ p) (roundTo p) :=
  ⟨roundTo_mono hp, fun _ hn => roundTo_natCast hp hn⟩

end Rounding
