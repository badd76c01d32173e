import Mathlib.Data.BitVec

/-!
# Comparing the readings of a clock that wraps around

A counter of `w` bits shows a time modulo `2 ^ w`. Two times that are less than half of the range apart
can be compared by the difference of what the counter shows: it is below the half exactly if the first
time is not the earlier one.
-/

namespace Serial

variable {w : ℕ}

/-- What the counter shows at a time. -/
abbrev shown (w t : ℕ) : BitVec w := BitVec.ofNat w t

theorem shown_add (a d : ℕ) : shown w (a + d) = shown w a + shown w d := BitVec.ofNat_add ..

theorem shown_add_sub (b d : ℕ) : shown w (b + d) - shown w b = shown w d := by
  rw [shown_add, BitVec.add_comm, BitVec.add_sub_cancel]

theorem shown_sub_add (a d : ℕ) : shown w a - shown w (a + d) = -shown w d := by
  rw [← shown_add_sub a d, BitVec.neg_sub, BitVec.sub_eq_add_neg, BitVec.add_comm]

theorem toNat_shown {t : ℕ} (ht : t < 2 ^ w) : (shown w t).toNat = t :=
  BitVec.toNat_ofNat t w ▸ Nat.mod_eq_of_lt ht

theorem shown_toNat (x : BitVec w) : shown w x.toNat = x := by
  rw [shown, BitVec.ofNat_toNat, BitVec.setWidth_eq]

section
variable {a b half : ℕ} (hhalf : 2 * half ≤ 2 ^ w)
include hhalf

/-- Times less than half of the range apart, the first one not the earlier: the difference. -/
theorem toNat_sub_of_le (hab : b ≤ a) (h : a < b + half) :
    (shown w a - shown w b).toNat = a - b := by
  obtain ⟨d, rfl⟩ := Nat.exists_eq_add_of_le hab
  rw [shown_add_sub, toNat_shown (by omega), Nat.add_sub_cancel_left]

/-- Otherwise it is above the half. -/
theorem half_le_toNat_sub (hab : a < b) (h : b ≤ a + half) :
    half ≤ (shown w a - shown w b).toNat := by
  obtain ⟨d, rfl⟩ := Nat.exists_eq_add_of_lt hab
  have hd : d + 1 < 2 ^ w := by omega
  rw [Nat.add_assoc, shown_sub_add, BitVec.toNat_neg, toNat_shown hd]
  rw [Nat.mod_eq_of_lt (by omega)]
  omega

theorem sub_lt_half_iff (hab : a < b + half) (hba : b ≤ a + half) :
    shown w a - shown w b < shown w half ↔ b ≤ a := by
  have hpos : 0 < 2 ^ w := Nat.two_pow_pos w
  rw [BitVec.lt_def, toNat_shown (by omega)]
  constructor
  · intro hlt
    by_contra hlt'
    exact absurd (half_le_toNat_sub hhalf (Nat.lt_of_not_le hlt') hba) (Nat.not_le.2 hlt)
  · intro hle
    rw [toNat_sub_of_le hhalf hle hab]
    omega

theorem sub_eq_zero_iff (hab : a < b + half) (hba : b ≤ a + half) (hpos : 0 < half) :
    shown w a - shown w b = 0 ↔ a = b := by
  constructor
  · intro h0
    have h0' : (shown w a - shown w b).toNat = 0 := by rw [h0]; rfl
    rcases Nat.lt_or_ge a b with hlt | hge
    · have := half_le_toNat_sub hhalf hlt hba
      omega
    · rw [toNat_sub_of_le hhalf hge hab] at h0'
      omega
  · rintro rfl
    exact BitVec.sub_self _

end

end Serial
