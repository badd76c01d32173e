import Mathlib.Tactic.Positivity
import Tdps.Lib.Rounding

/-!
# Line tracing by column histograms (`tracing_plus_color.py`)

The brightness of the columns of an edge image is summed up, for all columns or for every eighth one,
and the column in the middle of the brightness is where the line is taken to be. `bubble_sort` works on
its argument, so what it leaves there is a result as well. An index out of range is an exception.
-/

namespace Tdps.TracingPlusColor

open Rounding

inductive PyError where
  | IndexError
deriving DecidableEq, Repr

/-- An item that is read, or the exception if there is none. -/
def item {α : Type} : Option α → Except PyError α
  | some x => .ok x
  | none => .error .IndexError

/-- `l[i] = x`. -/
def setItem {α : Type} (l : List α) (i : ℕ) (x : α) : Except PyError (List α) :=
  if i < l.length then .ok (l.set i x) else .error .IndexError

/-! ## `bubble_sort` -/

/-- `l[j], l[j + 1] = l[j + 1], l[j]`. -/
def swapItems {α : Type} (l : List α) (j : ℕ) : Except PyError (List α) := do
  let x ← item l[j + 1]?
  let y ← item l[j]?
  let l ← setItem l j x
  setItem l (j + 1) y

section BubbleSort

variable {α : Type} [LT α] [DecidableLT α]

/-- The body of the inner loop on `alist` and `line_list`. -/
def compareSwap (st : List α × List ℕ) (j : ℕ) : Except PyError (List α × List ℕ) := do
  let x ← item st.1[j]?
  let y ← item st.1[j + 1]?
  if y < x then
    let alist ← swapItems st.1 j
    let line_list ← swapItems st.2 j
    return (alist, line_list)
  else return st

/-- `bubble_sort(alist)`: the pair that it returns, and what is in its argument afterwards. -/
def bubbleSort (alist : List α) : Except PyError ((List α × List ℕ) × List α) := do
  let length := alist.length
  let line_list := List.range length
  let st ← (List.range (length - 1)).foldlM
    (fun st i => (List.range (length - i - 1)).foldlM compareSwap st) (alist, line_list)
  return (st, st.1)

end BubbleSort

/-! ## The histograms -/

/-- `get_his(b_array)`. -/
def getHis (b_array : Array UInt8) : Except PyError (List ℕ) :=
  (List.range 320).mapM fun i =>
    (List.range 240).foldlM (fun his_i j => do
      let index := i * 240 + j
      let b ← item b_array[index]?
      return his_i + b.toNat) 0

/-- `get_sparse_his(b_array)`. -/
def getSparseHis (b_array : Array UInt8) : Except PyError (List ℕ) :=
  (List.range 39).mapM fun i => do
    let real_column := (i + 1) * 8 - 1
    let index := real_column
    let b ← item b_array[index]?
    let r ← (List.range 239).foldlM (fun (r : ℕ × ℕ) _ => do
      let index := r.1 + 320
      let b ← item b_array[index]?
      return (index, r.2 + b.toNat)) (index, b.toNat)
    return r.2

/-! ## `get_sparse_middle_line` -/

/-- How the quotient of two integers is rounded. A nonnegative quotient stays nonnegative and is at
most doubled. -/
structure Division where
  round : ℚ → ℚ
  nonneg : ∀ q, 0 ≤ q → 0 ≤ round q
  le_double : ∀ q, 0 ≤ q → round q ≤ 2 * q

/-- No rounding. -/
def Division.exact : Division where
  round := id
  nonneg := fun _ hq => hq
  le_double := by
    intro q hq
    show q ≤ 2 * q
    linarith

/-- Nearest even with this number of significant bits: 53, or 24 on a board with single precision. -/
def Division.ieee (bits : ℕ) (hbits : 1 ≤ bits) : Division where
  round := roundTo bits
  nonneg := fun _ hq => (isRounding_roundTo hbits).nonneg hq
  le_double := by
    intro q hq
    rcases hq.eq_or_lt with rfl | hpos
    · simp [roundTo]
    · unfold roundTo
      rw [if_pos hpos]
      calc roundPos bits q ≤ 2 ^ (Int.log 2 q + 1) := roundPos_le_binade bits q
        _ = 2 * 2 ^ Int.log 2 q := by rw [zpow_add_one₀ (by norm_num), mul_comm]
        _ ≤ 2 * q := by
          have hlog : (2 : ℚ) ^ Int.log 2 q ≤ q := by
            simpa using Int.zpow_log_le_self (by norm_num : 1 < 2) hpos
          linarith

/-- `int(sum(his) / 2)`. -/
def halfSum (D : Division) (his : List ℕ) : ℤ := truncate (D.round ((his.sum : ℚ) / 2))

/-- The loop over the columns: `none` when it ends without a `return`. -/
def findMiddle (his : List ℕ) (half_sum : ℤ) : List ℕ → ℕ → Except PyError (Option ℕ)
  | [], _ => .ok none
  | i :: is, temp => do
    let x ← item his[i]?
    let temp := temp + x
    if half_sum ≤ temp then return some i
    findMiddle his half_sum is temp

/-- `get_sparse_middle_line(his)`. The list `his` that is used after the call of `bubble_sort` is the
one that `bubble_sort` has worked on. -/
def getSparseMiddleLine (D : Division) (his : List ℕ) : Except PyError (Option ℕ) := do
  let ((_, sorted_index), his) ← bubbleSort his
  let his ← (List.range 25).foldlM (fun his i => do
    let p ← item sorted_index[i]?
    setItem his p 0) his
  let half_sum := halfSum D his
  findMiddle his half_sum (List.range 39) 0

end Tdps.TracingPlusColor
