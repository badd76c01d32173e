import Mathlib.Algebra.Order.BigOperators.Group.List
import Mathlib.Tactic.Ring
import Tdps.Lib.Loop
import Tdps.TracingPlusColor

/-!
# Proofs: the histograms of the columns

`get_sparse_his` goes down a column by adding the length of a row, 320. `get_his` takes the bytes of
column `i` to be the 240 bytes from `i * 240` on, which is where they would be if the image were stored
column by column (`getHis_eq`). `agree_iff` says for which images the two give the same sums.
-/

namespace Tdps.TracingPlusColor

open Loop

/-- The bytes of an image of 240 rows of 320 pixels, row by row. -/
structure Image where
  b_array : Array UInt8
  size_eq : b_array.size = 320 * 240

namespace Image

/-- The byte at an index. -/
def byte (b : Image) (index : ℕ) : ℕ := (b.b_array.getD index 0).toNat

/-- The sum of a column over all rows. -/
def columnSum (b : Image) (column : ℕ) : ℕ :=
  ((List.range 240).map fun j => b.byte (320 * j + column)).sum

/-- The sum of 240 consecutive bytes. -/
def blockSum (b : Image) (start : ℕ) : ℕ := ((List.range 240).map fun j => b.byte (start + j)).sum

/-- The two histograms agree on every eighth column, and they hold the sums of these columns. -/
def Agree (b : Image) : Prop :=
  ∃ his sparse, getHis b.b_array = .ok his ∧ getSparseHis b.b_array = .ok sparse ∧
    ∀ k < 39, sparse[k]? = his[8 * (k + 1) - 1]? ∧
      sparse[k]? = some (b.columnSum (8 * (k + 1) - 1))

theorem item_byte (b : Image) (index : ℕ) (h : index < 320 * 240) :
    ∃ x, item b.b_array[index]? = .ok x ∧ x.toNat = b.byte index := by
  have hlt : index < b.b_array.size := by
    rw [b.size_eq]
    exact h
  refine ⟨b.b_array[index], ?_, ?_⟩
  · rw [Array.getElem?_eq_getElem hlt]
    rfl
  · unfold byte
    rw [Array.getD_eq_getD_getElem?, Array.getElem?_eq_getElem hlt]
    rfl

/-! ## What the two functions return -/

/-- `get_his` adds up 240 consecutive bytes for a column. -/
theorem getHis_eq (b : Image) :
    getHis b.b_array = .ok ((List.range 320).map fun i => b.blockSum (i * 240)) := by
  refine mapM_ok ?_
  intro i hi
  have hi' := List.mem_range.1 hi
  have hloop := foldlM_ok (l := List.range 240) (g := fun n j => n + b.byte (i * 240 + j))
    (f := fun n j => do
      let x ← item b.b_array[i * 240 + j]?
      return n + x.toNat) (by
      intro j hj n
      have hj' := List.mem_range.1 hj
      obtain ⟨x, e, hx⟩ := b.item_byte (i * 240 + j) (by omega)
      rw [e, ← hx]
      rfl) 0
  rw [foldl_add, Nat.zero_add] at hloop
  exact hloop

/-- The loop of `get_sparse_his` over the rows: after `n` of them `index` is in row `n`, and the rows up
to this one are added up. -/
theorem sparse_loop (b : Image) {column : ℕ} (hcolumn : column < 320) {n : ℕ} (hn : n ≤ 239) :
    ((List.range n).foldlM (fun (r : ℕ × ℕ) _ => do
        let index := r.1 + 320
        let x ← item b.b_array[index]?
        return (index, r.2 + x.toNat)) (column, b.byte column) : Except PyError (ℕ × ℕ)) =
      .ok (320 * n + column, ((List.range (n + 1)).map fun j => b.byte (320 * j + column)).sum) := by
  induction n with
  | zero =>
    show Except.ok (column, b.byte column) = _
    simp
  | succ n ih =>
    have hindex : 320 * n + column + 320 = 320 * (n + 1) + column := by ring
    obtain ⟨x, e, hx⟩ := b.item_byte (320 * (n + 1) + column) (by omega)
    rw [List.range_succ, foldlM_concat (ih (by omega))]
    dsimp only
    rw [hindex, e, List.range_succ (n := n + 1), List.map_append, List.sum_append, List.map_singleton,
      List.sum_singleton, ← hx]
    rfl

/-- `get_sparse_his` adds up the columns. -/
theorem getSparseHis_eq (b : Image) :
    getSparseHis b.b_array =
      .ok ((List.range 39).map fun k => b.columnSum (8 * (k + 1) - 1)) := by
  refine mapM_ok ?_
  intro k hk
  have hk' := List.mem_range.1 hk
  have hcolumn : (k + 1) * 8 - 1 = 8 * (k + 1) - 1 := by rw [Nat.mul_comm]
  obtain ⟨x, e, hx⟩ := b.item_byte (8 * (k + 1) - 1) (by omega)
  dsimp only
  rw [hcolumn, e]
  show (List.foldlM _ (_, x.toNat) _ >>= _ : Except PyError ℕ) = _
  rw [hx, b.sparse_loop (by omega) le_rfl]
  rfl

/-- **The histograms of the columns.** They agree if and only if, for every eighth column, the block of
240 bytes that `get_his` takes for it has the same sum as the column. -/
theorem agree_iff (b : Image) :
    b.Agree ↔ ∀ k < 39, b.blockSum (240 * (8 * (k + 1) - 1)) = b.columnSum (8 * (k + 1) - 1) := by
  have hhis : ∀ k < 39, ((List.range 320).map fun i => b.blockSum (i * 240))[8 * (k + 1) - 1]? =
      some (b.blockSum (240 * (8 * (k + 1) - 1))) := by
    intro k hk
    rw [List.getElem?_map, List.getElem?_range (by omega), Option.map_some, Nat.mul_comm]
  have hsparse : ∀ k < 39, ((List.range 39).map fun k => b.columnSum (8 * (k + 1) - 1))[k]? =
      some (b.columnSum (8 * (k + 1) - 1)) := by
    intro k hk
    rw [List.getElem?_map, List.getElem?_range hk, Option.map_some]
  constructor
  · rintro ⟨his, sparse, ehis, esparse, h⟩ k hk
    rw [b.getHis_eq] at ehis
    rw [b.getSparseHis_eq] at esparse
    obtain rfl := Except.ok.inj ehis
    obtain rfl := Except.ok.inj esparse
    have hk' := (h k hk).1
    rw [hhis k hk, hsparse k hk] at hk'
    exact (Option.some.inj hk').symm
  · intro h
    refine ⟨_, _, b.getHis_eq, b.getSparseHis_eq, ?_⟩
    intro k hk
    rw [hhis k hk, hsparse k hk, h k hk]
    exact ⟨rfl, rfl⟩

/-- One bright pixel, in column 7 of the first row. -/
def onePixel : Image where
  b_array := (Array.replicate (320 * 240) 0).setIfInBounds 7 1
  size_eq := by rw [Array.size_setIfInBounds, Array.size_replicate]

theorem onePixel_byte {index : ℕ} (h : index < 320 * 240) :
    onePixel.byte index = if 7 = index then 1 else 0 := by
  unfold byte onePixel
  rw [Array.getD_eq_getD_getElem?, Array.getElem?_setIfInBounds, Array.size_replicate]
  split_ifs with h7 hsize
  · rfl
  · omega
  · rw [Array.getElem?_replicate, if_pos h]
    rfl

/-- `get_his` does not see the pixel in column 7. -/
theorem onePixel_not_agree : ¬ onePixel.Agree := by
  rintro ⟨his, sparse, ehis, -, h⟩
  rw [onePixel.getHis_eq] at ehis
  obtain rfl := Except.ok.inj ehis
  have hcolumn : 1 ≤ onePixel.columnSum 7 := by
    refine List.single_le_sum (fun _ _ => Nat.zero_le _) 1 ?_
    exact List.mem_map.2 ⟨0, List.mem_range.2 (by decide), onePixel_byte (by decide)⟩
  have hblock : onePixel.blockSum (7 * 240) = 0 := by
    refine List.sum_eq_zero ?_
    intro x hx
    obtain ⟨j, hj, rfl⟩ := List.mem_map.1 hx
    have := List.mem_range.1 hj
    rw [onePixel_byte (by omega), if_neg (by omega)]
  obtain ⟨hsame, hsum⟩ := h 0 (by decide)
  have hhis : ((List.range 320).map fun i => onePixel.blockSum (i * 240))[8 * (0 + 1) - 1]? =
      some (onePixel.blockSum (7 * 240)) := by
    rw [List.getElem?_map, List.getElem?_range (by decide)]
    rfl
  rw [hsum, hhis, hblock] at hsame
  have hzero : onePixel.columnSum 7 = 0 := Option.some.inj hsame
  omega

end Image

end Tdps.TracingPlusColor
