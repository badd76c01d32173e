import Mathlib.Data.Fin.Basic
import Mathlib.Data.Nat.ModEq
import Mathlib.Logic.Function.Basic

/-!
# Ring buffers

A queue in an array of `n` cells is a window of consecutive cells, counted modulo `n`: it starts at a
read position and has a number of cells. `window` is the queue as a list. Writing the cell behind the
window and taking it in appends an element, advancing the read position drops the first one.
-/

namespace Ring

variable {α : Type*} {n : ℕ} [NeZero n]

/-- The position `i` cells after `p`. -/
def ahead (p : Fin n) (i : ℕ) : Fin n := Fin.ofNat n (p + i)

/-- The next position. -/
def next (p : Fin n) : Fin n := if h : p.val + 1 < n then ⟨p + 1, h⟩ else ⟨0, Nat.pos_of_neZero n⟩

/-- How many cells `q` is after `p`. -/
def distance (p q : Fin n) : ℕ := if p ≤ q then q - p else n - (p - q)

/-- The `count` cells from `p` on. -/
def window (cells : Fin n → α) (p : Fin n) (count : ℕ) : List α :=
  (List.range count).map fun i => cells (ahead p i)

theorem val_ahead (p : Fin n) (i : ℕ) : (ahead p i).val = (p + i) % n := rfl

@[simp] theorem ahead_zero (p : Fin n) : ahead p 0 = p :=
  Fin.ext (Nat.mod_eq_of_lt p.isLt)

theorem ahead_ahead (p : Fin n) (i j : ℕ) : ahead (ahead p i) j = ahead p (i + j) := by
  apply Fin.ext
  rw [val_ahead, val_ahead, val_ahead, Nat.mod_add_mod, Nat.add_assoc]

theorem next_eq_ahead (p : Fin n) : next p = ahead p 1 := by
  apply Fin.ext
  rw [val_ahead]
  unfold next
  split_ifs with h
  · exact (Nat.mod_eq_of_lt h).symm
  · have hp : p.val + 1 = n := by have := p.isLt; omega
    rw [hp, Nat.mod_self]

/-- Positions fewer than `n` cells ahead are different. -/
theorem ahead_ne {p : Fin n} {i j : ℕ} (hij : i < j) (hj : j < n) : ahead p i ≠ ahead p j := by
  intro e
  have hmod : p.val + i ≡ p.val + j [MOD n] := congrArg Fin.val e
  have hij' := (hmod.add_left_cancel' p.val).eq_of_lt_of_lt (hij.trans hj) hj
  omega

omit [NeZero n] in
theorem distance_lt (p q : Fin n) : distance p q < n := by
  have hp := p.isLt
  have hq := q.isLt
  unfold distance
  split_ifs with h
  · omega
  · have : q.val < p.val := Nat.lt_of_not_le h
    omega

theorem ahead_distance (p q : Fin n) : ahead p (distance p q) = q := by
  have hp := p.isLt
  have hq := q.isLt
  apply Fin.ext
  rw [val_ahead]
  unfold distance
  split_ifs with h
  · have : p.val ≤ q.val := h
    rw [Nat.add_sub_cancel' this, Nat.mod_eq_of_lt hq]
  · have : q.val < p.val := Nat.lt_of_not_le h
    have hsum : p.val + (n - (p.val - q.val)) = q.val + n := by omega
    rw [hsum, Nat.add_mod_right, Nat.mod_eq_of_lt hq]

/-- The distance is the only number below `n` that leads from `p` to `q`. -/
theorem distance_eq {p q : Fin n} {i : ℕ} (hi : i < n) (h : ahead p i = q) : distance p q = i := by
  have hd := ahead_distance p q
  rw [← h] at hd ⊢
  rcases Nat.lt_trichotomy (distance p (ahead p i)) i with hlt | heq | hgt
  · exact absurd hd (ahead_ne hlt hi)
  · exact heq
  · exact absurd hd.symm (ahead_ne hgt (distance_lt p _))

theorem distance_eq_zero {p q : Fin n} : distance p q = 0 ↔ p = q := by
  constructor
  · intro h
    rw [← ahead_distance p q, h, ahead_zero]
  · rintro rfl
    exact distance_eq (Nat.pos_of_neZero n) (ahead_zero p)

@[simp] theorem window_zero (cells : Fin n → α) (p : Fin n) : window cells p 0 = [] := rfl

@[simp] theorem length_window (cells : Fin n → α) (p : Fin n) (count : ℕ) :
    (window cells p count).length = count := by
  simp [window]

theorem window_succ (cells : Fin n → α) (p : Fin n) (count : ℕ) :
    window cells p (count + 1) = window cells p count ++ [cells (ahead p count)] := by
  simp [window, List.range_succ]

/-- Without its first cell a window starts at the next position. -/
theorem window_succ' (cells : Fin n → α) (p : Fin n) (count : ℕ) :
    window cells p (count + 1) = cells p :: window cells (next p) count := by
  unfold window
  rw [List.range_succ_eq_map, List.map_cons, List.map_map, ahead_zero]
  congr 1
  apply List.map_congr_left
  intro i _
  show cells (ahead p (i + 1)) = cells (ahead (next p) i)
  rw [next_eq_ahead, ahead_ahead, Nat.add_comm]

/-- Writing the cell behind a window leaves the window as it is. -/
theorem window_update (cells : Fin n → α) (p : Fin n) {count : ℕ} (hcount : count < n) (x : α) :
    window (Function.update cells (ahead p count) x) p count = window cells p count := by
  apply List.map_congr_left
  intro i hi
  exact Function.update_of_ne (ahead_ne (List.mem_range.1 hi) hcount) _ _

/-- Writing the cell behind a window and taking it in appends an element. -/
theorem window_push (cells : Fin n → α) (p : Fin n) {count : ℕ} (hcount : count < n) (x : α) :
    window (Function.update cells (ahead p count) x) p (count + 1) = window cells p count ++ [x] := by
  rw [window_succ, window_update cells p hcount, Function.update_self]

end Ring
