import Mathlib.Data.List.GetD
import Mathlib.Data.List.Sort
import Tdps.Proofs.BubbleSortProofs

/-!
# Proofs: the sparse middle line

`get_sparse_middle_line` is to return the weighted median of the strong columns of a histogram. It sets
the weak columns to 0 after `bubble_sort` has brought its argument into order, but at the positions that
they had before. So column `k` counts with the `k`-th smallest value (`getSparseMiddleLine_spec`), and
`middle_line_iff` says when this makes no difference.
-/

namespace Tdps.TracingPlusColor

open Loop Rounding

/-! ## What is to be returned -/

/-- The number of columns before column `k` in the order by value, ties by lower index. -/
def rank (his : List ℕ) (k : ℕ) : ℕ := his.zipIdx.countP fun x => Before x (his.getD k 0, k)

/-- The weights `w`, set to 0 in the 25 columns where `his` is smallest. -/
def strong (his w : List ℕ) : List ℕ := w.mapIdx fun k x => if rank his k < 25 then 0 else x

/-- The filtered histogram. -/
def filtered (his : List ℕ) : List ℕ := strong his his

/-- Column `i` is the first one at which the running sum of the weights is at least `half`. -/
structure IsMiddle (w : List ℕ) (half : ℤ) (i : ℕ) : Prop where
  lt_length : i < w.length
  reached : half ≤ ((w.take (i + 1)).sum : ℕ)
  first : ∀ j < i, (((w.take (j + 1)).sum : ℕ) : ℤ) < half

/-- The weighted median of the strong columns is returned. -/
def ReturnsMiddle (D : Division) (his : List ℕ) : Prop :=
  ∃ i, getSparseMiddleLine D his = .ok (some i) ∧
    IsMiddle (filtered his) ((filtered his).sum / 2 : ℕ) i

/-- The median of the strong columns stays the same when column `k` has the `k`-th smallest value of
the histogram for its weight, instead of its own value. -/
def SameMiddle (D : Division) (his : List ℕ) : Prop :=
  ∃ i, IsMiddle (filtered his) ((filtered his).sum / 2 : ℕ) i ∧
    IsMiddle (strong his (his.insertionSort (· ≤ ·)))
      (halfSum D (strong his (his.insertionSort (· ≤ ·)))) i

instance (w : List ℕ) (half : ℤ) (i : ℕ) : Decidable (IsMiddle w half i) :=
  decidable_of_iff (i < w.length ∧ half ≤ ((w.take (i + 1)).sum : ℕ) ∧
      ∀ j < i, (((w.take (j + 1)).sum : ℕ) : ℤ) < half)
    ⟨fun h => ⟨h.1, h.2.1, h.2.2⟩, fun h => ⟨h.lt_length, h.reached, h.first⟩⟩

theorem IsMiddle.unique {w : List ℕ} {half : ℤ} {i j : ℕ} (hi : IsMiddle w half i)
    (hj : IsMiddle w half j) : i = j := by
  rcases Nat.lt_trichotomy i j with h | h | h
  · exact absurd hi.reached (not_le.2 (hj.first i h))
  · exact h
  · exact absurd hj.reached (not_le.2 (hi.first j h))

/-! ## The loop over the columns -/

theorem take_succ_sum {w : List ℕ} {m : ℕ} (hm : m < w.length) :
    (w.take (m + 1)).sum = (w.take m).sum + w[m] := by
  rw [List.take_succ_eq_append_getElem hm, List.sum_append, List.sum_singleton]

/-- The loop returns at the latest in the last column. -/
theorem findMiddle_spec {w : List ℕ} (hw : w ≠ []) {half : ℤ} (hhalf : half ≤ (w.sum : ℕ)) (n : ℕ) :
    ∀ m, m + n = w.length → (∀ j < m, (((w.take (j + 1)).sum : ℕ) : ℤ) < half) →
      ∃ i, findMiddle w half (List.range' m n) (w.take m).sum = .ok (some i) ∧
        IsMiddle w half i := by
  induction n with
  | zero =>
    intro m hm hfirst
    have hpos := List.length_pos_iff.2 hw
    have hlast := hfirst (m - 1) (by omega)
    rw [List.take_of_length_le (by omega)] at hlast
    omega
  | succ n ih =>
    intro m hm hfirst
    have hlt : m < w.length := by omega
    unfold List.range' findMiddle
    rw [item_getElem hlt]
    show ∃ i, (if half ≤ ((w.take m).sum + w[m] : ℕ) then .ok (some m)
      else findMiddle w half (List.range' (m + 1) n) ((w.take m).sum + w[m])) = _ ∧ _
    rw [← take_succ_sum hlt]
    split_ifs with hreached
    · exact ⟨m, rfl, hlt, hreached, hfirst⟩
    · refine ih (m + 1) (by omega) ?_
      intro j hj
      rcases Nat.lt_succ_iff_lt_or_eq.1 hj with hj | rfl
      · exact hfirst j hj
      · exact not_le.1 hreached

theorem halfSum_le (D : Division) (w : List ℕ) : halfSum D w ≤ (w.sum : ℕ) := by
  have hpos : (0 : ℚ) ≤ (w.sum : ℚ) / 2 := by positivity
  unfold halfSum
  rw [truncate_of_nonneg (D.nonneg _ hpos)]
  have h : ((⌊D.round ((w.sum : ℚ) / 2)⌋ : ℤ) : ℚ) ≤ ((w.sum : ℤ) : ℚ) := by
    calc ((⌊D.round ((w.sum : ℚ) / 2)⌋ : ℤ) : ℚ) ≤ D.round ((w.sum : ℚ) / 2) := Int.floor_le _
      _ ≤ 2 * ((w.sum : ℚ) / 2) := D.le_double _ hpos
      _ = w.sum := by ring
      _ = ((w.sum : ℤ) : ℚ) := (Int.cast_natCast w.sum).symm
  exact Int.cast_le.1 h

/-! ## The columns that are set to 0 -/

theorem set_mapIdx {s l : List ℕ} (q : ℕ) :
    (s.mapIdx fun k x => if k ∈ l then 0 else x).set q 0 =
      s.mapIdx fun k x => if k ∈ l ++ [q] then 0 else x := by
  refine List.ext_getElem (by simp) ?_
  intro k hk hk'
  rw [List.getElem_set, List.getElem_mapIdx, List.getElem_mapIdx]
  by_cases hq : q = k
  · simp [hq]
  · simp [hq, Ne.symm hq]

/-- The loop that sets the elements at the first `n` positions of `p` to 0. -/
theorem foldlM_setItem {p s : List ℕ} (hp : ∀ q ∈ p, q < s.length) {n : ℕ} (hn : n ≤ p.length) :
    ((List.range n).foldlM (fun his i => do
        let q ← item p[i]?
        setItem his q 0) s : Except PyError (List ℕ)) =
      .ok (s.mapIdx fun k x => if k ∈ p.take n then 0 else x) := by
  induction n with
  | zero =>
    have : (s.mapIdx fun k x => if k ∈ p.take 0 then 0 else x) = s :=
      List.ext_getElem (by simp) (by simp)
    rw [this]
    rfl
  | succ n ih =>
    have hlt : n < p.length := by omega
    have hq : p[n] < (s.mapIdx fun k x => if k ∈ p.take n then 0 else x).length := by
      rw [List.length_mapIdx]
      exact hp _ (List.getElem_mem hlt)
    rw [List.range_succ, foldlM_concat (ih (by omega)), item_getElem hlt]
    show setItem _ p[n] 0 = _
    rw [setItem_ok hq, set_mapIdx, ← List.take_succ_eq_append_getElem hlt]

/-- In a list in strict order the position of an element is the number of elements before it. -/
theorem countP_getElem {α : Type} {R : α → α → Prop} [DecidableRel R] (hasymm : ∀ x y, R x y → ¬ R y x)
    {l : List α} (h : l.Pairwise R) {r : ℕ} (hr : r < l.length) :
    l.countP (fun x => R x l[r]) = r := by
  have hsplit : l = l.take r ++ l[r] :: l.drop (r + 1) := by
    rw [List.getElem_cons_drop, List.take_append_drop]
  have hpw := h
  rw [hsplit] at hpw
  obtain ⟨-, hrest, hcross⟩ := List.pairwise_append.1 hpw
  have hbehind := (List.pairwise_cons.1 hrest).1
  have hfront : (l.take r).countP (fun x => R x l[r]) = r := by
    rw [List.countP_eq_length.2, List.length_take_of_le hr.le]
    intro x hx
    exact decide_eq_true (hcross x hx _ List.mem_cons_self)
  have hback : (l[r] :: l.drop (r + 1)).countP (fun x => R x l[r]) = 0 := by
    rw [List.countP_eq_zero]
    intro x hx
    rcases List.mem_cons.1 hx with rfl | hx
    · simpa using fun hself => hasymm _ _ hself hself
    · simpa using hasymm _ _ (hbehind x hx)
  calc l.countP (fun x => R x l[r])
      = (l.take r ++ l[r] :: l.drop (r + 1)).countP (fun x => R x l[r]) := by rw [← hsplit]
    _ = r := by rw [List.countP_append, hfront, hback, Nat.add_zero]

theorem before_asymm {x y : ℕ × ℕ} (h : Before x y) : ¬ Before y x := by
  unfold Before at h ⊢
  omega

/-- The first `n` positions that `bubble_sort` returns are those of the `n` smallest elements. -/
theorem mem_take_iff_rank {his : List ℕ} {k : ℕ} (hk : k < his.length) (n : ℕ) :
    k ∈ ((Bubble.sort Larger his.zipIdx).map Prod.snd).take n ↔ rank his k < n := by
  have hperm := Bubble.sort_perm (Larger (α := ℕ)) his.zipIdx
  have hrank : ∀ r (hr : r < (Bubble.sort Larger his.zipIdx).length),
      (Bubble.sort Larger his.zipIdx)[r] = (his[k], k) → rank his k = r := by
    intro r hr e
    have hcount := countP_getElem (fun _ _ => before_asymm) (sort_pairs_before his) hr
    rw [e, hperm.countP_eq] at hcount
    unfold rank
    rwa [List.getD_eq_getElem _ _ hk]
  rw [← List.map_take, List.mem_map]
  constructor
  · rintro ⟨⟨x, k'⟩, hmem, rfl⟩
    obtain ⟨r, hr, e⟩ := List.mem_take_iff_getElem.1 hmem
    have hx := List.mk_mem_zipIdx_iff_getElem?.1 (hperm.mem_iff.1 (List.mem_of_mem_take hmem))
    rw [List.getElem?_eq_getElem hk] at hx
    have := hrank r (by omega) (by rw [e, Option.some.inj hx])
    omega
  · intro hlt
    have hmem : (his[k], k) ∈ Bubble.sort Larger his.zipIdx := by
      rw [hperm.mem_iff, List.mk_mem_zipIdx_iff_getElem?]
      exact List.getElem?_eq_getElem hk
    obtain ⟨r, hr, e⟩ := List.getElem_of_mem hmem
    rw [hrank r hr e] at hlt
    exact ⟨(his[k], k), List.mem_take_iff_getElem.2 ⟨r, by omega, e⟩, rfl⟩

/-! ## The function -/

theorem length_strong (his w : List ℕ) : (strong his w).length = w.length := List.length_mapIdx

/-- For every histogram a column is returned: the median of the strong columns, each weighted with the
value that the sort has put there. -/
theorem getSparseMiddleLine_spec (D : Division) {his : List ℕ} (h39 : his.length = 39) :
    ∃ i, getSparseMiddleLine D his = .ok (some i) ∧
      IsMiddle (strong his (his.insertionSort (· ≤ ·)))
        (halfSum D (strong his (his.insertionSort (· ≤ ·)))) i := by
  obtain ⟨s, p, e, h, hs, hp⟩ := bubbleSort_lists his
  have hslen : s.length = 39 := h.alist.trans h39
  have hplen : p.length = 39 := h.line_list.trans h39
  have hsorted : s = his.insertionSort (· ≤ ·) := by
    have hperm : s.Perm (his.insertionSort (· ≤ ·)) := by
      rw [hs]
      exact (map_fst_sort_perm his).trans (List.perm_insertionSort _ his).symm
    refine hperm.eq_of_pairwise' ?_ (List.pairwise_insertionSort _ his)
    rw [hs]
    exact map_fst_sort_sorted his
  have hbound : ∀ q ∈ p, q < s.length := by
    intro q hq
    rw [hp] at hq
    obtain ⟨⟨x, q⟩, hmem, rfl⟩ := List.mem_map.1 hq
    have := List.snd_lt_of_mem_zipIdx ((Bubble.sort_perm Larger his.zipIdx).mem_iff.1 hmem)
    omega
  have hzeroed : (s.mapIdx fun k x => if k ∈ p.take 25 then 0 else x) =
      strong his (his.insertionSort (· ≤ ·)) := by
    rw [← hsorted]
    refine List.ext_getElem (by simp [strong]) ?_
    intro k hk hk'
    have hk39 : k < his.length := by
      rw [length_strong] at hk'
      omega
    simp only [strong, List.getElem_mapIdx, hp, mem_take_iff_rank hk39]
  have hlen : (strong his (his.insertionSort (· ≤ ·))).length = 39 := by
    rw [length_strong, ← hsorted, hslen]
  have hne : strong his (his.insertionSort (· ≤ ·)) ≠ [] := List.ne_nil_of_length_pos (by omega)
  obtain ⟨i, hi, hmiddle⟩ := findMiddle_spec hne (halfSum_le D _) 39 0 (by omega)
    (fun j hj => absurd hj (Nat.not_lt_zero j))
  refine ⟨i, ?_, hmiddle⟩
  unfold getSparseMiddleLine
  rw [e]
  show ((List.range 25).foldlM (fun his i => do
      let q ← item p[i]?
      setItem his q 0) s >>= fun his => findMiddle his (halfSum D his) (List.range 39) 0) = _
  rw [foldlM_setItem hbound (by omega), hzeroed, List.range_eq_range']
  exact hi

/-- **The sparse middle line.** The weighted median of the strong columns is returned if and only if it
is the same when the columns have the sorted values for their weights. -/
theorem middle_line_iff (D : Division) (his : List ℕ) (h39 : his.length = 39) :
    ReturnsMiddle D his ↔ SameMiddle D his := by
  obtain ⟨i, e, hi⟩ := getSparseMiddleLine_spec D h39
  constructor
  · rintro ⟨j, e', hj⟩
    obtain rfl : i = j := Option.some.inj (Except.ok.inj (e.symm.trans e'))
    exact ⟨i, hj, hi⟩
  · rintro ⟨j, hj, hj'⟩
    obtain rfl := hi.unique hj'
    exact ⟨i, e, hj⟩

theorem middle_line_range : ReturnsMiddle Division.exact (List.range 39) :=
  (middle_line_iff Division.exact (List.range 39) (by decide)).2
    ⟨32, by decide +kernel, by decide +kernel⟩

/-- A single bright column at the left is found at the right. -/
theorem middle_line_moved : ¬ ReturnsMiddle Division.exact (100 :: List.replicate 38 0) := by
  have hcode : getSparseMiddleLine Division.exact (100 :: List.replicate 38 0) = .ok (some 38) := by
    decide +kernel
  rintro ⟨i, e, hi⟩
  have hzero : IsMiddle (filtered (100 :: List.replicate 38 0))
      ((filtered (100 :: List.replicate 38 0)).sum / 2 : ℕ) 0 := by decide +kernel
  rw [hcode, hi.unique hzero] at e
  cases e

theorem halfSum_exact (w : List ℕ) : halfSum Division.exact w = (w.sum / 2 : ℕ) := by
  unfold halfSum
  rw [truncate_of_nonneg (Division.exact.nonneg _ (by positivity))]
  exact Rat.floor_natCast_div_natCast w.sum 2

/-- A histogram that is in order already meets the condition. -/
theorem sameMiddle_of_sorted {his : List ℕ} (h39 : his.length = 39) (h : his.Pairwise (· ≤ ·)) :
    SameMiddle Division.exact his := by
  obtain ⟨i, -, hi⟩ := getSparseMiddleLine_spec Division.exact h39
  have hsort : his.insertionSort (· ≤ ·) = his := h.insertionSort_eq
  refine ⟨i, ?_, hi⟩
  rw [hsort, halfSum_exact] at hi
  exact hi

end Tdps.TracingPlusColor
