import Mathlib.Order.Basic
import Tdps.Lib.Bubble
import Tdps.Lib.Loop
import Tdps.TracingPlusColor

/-!
# Proofs: `bubble_sort`

The two lists of `bubble_sort` are exchanged at the same places, so they are a bubble sort of the list
of pairs of an element and its position (`bubbleSort_pairs`). Everything else is read off these pairs.
-/

namespace Tdps.TracingPlusColor

open Loop

/-! ## The lists in lock step -/

/-- A pair is moved behind another one if its element is larger. -/
def Larger {α : Type} [LT α] (x y : α × ℕ) : Prop := y.1 < x.1

instance {α : Type} [LT α] [DecidableLT α] : DecidableRel (Larger (α := α)) := fun x y =>
  inferInstanceAs (Decidable (y.1 < x.1))

/-- Two lists of this length, with these pairs. -/
structure Lockstep {α : Type} (n : ℕ) (st : List α × List ℕ) (pairs : List (α × ℕ)) : Prop where
  alist : st.1.length = n
  line_list : st.2.length = n
  zip : st.1.zip st.2 = pairs

theorem item_getElem {α : Type} {l : List α} {i : ℕ} (h : i < l.length) : item l[i]? = .ok l[i] := by
  rw [List.getElem?_eq_getElem h]
  rfl

theorem setItem_ok {α : Type} {l : List α} {i : ℕ} (h : i < l.length) (x : α) :
    setItem l i x = .ok (l.set i x) := if_pos h

theorem swapItems_ok {α : Type} {l : List α} {j : ℕ} (h : j + 1 < l.length) :
    swapItems l j = .ok ((l.set j l[j + 1]).set (j + 1) l[j]) := by
  unfold swapItems
  rw [item_getElem h, item_getElem (Nat.lt_of_succ_lt h)]
  show (setItem l j l[j + 1] >>= fun l' => setItem l' (j + 1) l[j]) = _
  rw [setItem_ok (Nat.lt_of_succ_lt h)]
  exact setItem_ok (by rwa [List.length_set]) _

theorem zip_set {α : Type} (s : List α) (p : List ℕ) (i : ℕ) (x : α) (k : ℕ) :
    (s.set i x).zip (p.set i k) = (s.zip p).set i (x, k) := by
  induction s generalizing p i with
  | nil => simp
  | cons a s ih =>
    cases p with
    | nil => simp
    | cons b p =>
      cases i with
      | zero => rfl
      | succ i => simp [ih]

theorem lockstep_getElem {α : Type} {n : ℕ} {st : List α × List ℕ} {pairs : List (α × ℕ)}
    (h : Lockstep n st pairs) {k : ℕ} (hk : k < n) :
    ∃ x i, st.1[k]? = some x ∧ st.2[k]? = some i ∧ pairs[k]? = some (x, i) := by
  obtain ⟨hs, hp, rfl⟩ := h
  refine ⟨st.1[k], st.2[k], List.getElem?_eq_getElem _, List.getElem?_eq_getElem _, ?_⟩
  rw [List.getElem?_eq_getElem (by rw [List.length_zip]; omega), List.getElem_zip]

section Order

variable {α : Type} [LinearOrder α]

theorem compareSwap_lockstep {n j : ℕ} (hj : j + 1 < n) {st : List α × List ℕ}
    {pairs : List (α × ℕ)} (h : Lockstep n st pairs) :
    ∃ st', compareSwap st j = .ok st' ∧ Lockstep n st' (Bubble.compareSwap Larger pairs j) := by
  obtain ⟨s, p⟩ := st
  obtain ⟨hs, hp, rfl⟩ := h
  dsimp only at hs hp ⊢
  have h1 : j + 1 < s.length := by omega
  have h1' : j + 1 < p.length := by omega
  have hx : (s.zip p)[j]? = some (s[j], p[j]) := by
    rw [List.getElem?_eq_getElem (by rw [List.length_zip]; omega), List.getElem_zip]
  have hy : (s.zip p)[j + 1]? = some (s[j + 1], p[j + 1]) := by
    rw [List.getElem?_eq_getElem (by rw [List.length_zip]; omega), List.getElem_zip]
  have hcode : compareSwap (s, p) j = if s[j + 1] < s[j] then (do
      let alist ← swapItems s j
      let line_list ← swapItems p j
      return (alist, line_list)) else return (s, p) := by
    unfold compareSwap
    dsimp only
    rw [item_getElem h1, item_getElem (Nat.lt_of_succ_lt h1)]
    rfl
  have hghost : Bubble.compareSwap Larger (s.zip p) j =
      if Larger (s[j], p[j]) (s[j + 1], p[j + 1]) then
        ((s.zip p).set j (s[j + 1], p[j + 1])).set (j + 1) (s[j], p[j])
      else s.zip p := by
    unfold Bubble.compareSwap
    rw [hx, hy]
  rw [hcode, hghost]
  by_cases hgt : s[j + 1] < s[j]
  · rw [if_pos hgt, if_pos (show Larger (s[j], p[j]) (s[j + 1], p[j + 1]) from hgt), swapItems_ok h1, swapItems_ok h1']
    refine ⟨_, rfl, ?_, ?_, ?_⟩
    · simpa using hs
    · simpa using hp
    · rw [zip_set, zip_set]
  · rw [if_neg hgt, if_neg (show ¬ Larger (s[j], p[j]) (s[j + 1], p[j + 1]) from hgt)]
    exact ⟨_, rfl, hs, hp, rfl⟩

/-- **Refinement.** `bubble_sort` is a bubble sort of the pairs of an element and its position. -/
theorem bubbleSort_pairs (alist : List α) :
    ∃ st, bubbleSort alist = .ok (st, st.1) ∧
      Lockstep alist.length st (Bubble.sort Larger alist.zipIdx) := by
  have hzip : alist.zip (List.range alist.length) = alist.zipIdx := by
    rw [List.zipIdx_eq_zip_range', List.range_eq_range']
  have h0 : Lockstep alist.length (alist, List.range alist.length) alist.zipIdx :=
    ⟨rfl, List.length_range, hzip⟩
  obtain ⟨st, e, h⟩ := foldlM_simulates (l := List.range (alist.length - 1))
    (R := Lockstep alist.length)
    (f := fun st i => (List.range (alist.length - i - 1)).foldlM compareSwap st)
    (g := fun pairs i => Bubble.pass Larger pairs (alist.length - i - 1)) (by
      intro i hi st pairs hst
      refine foldlM_simulates ?_ hst
      intro j hj st pairs hst
      have hj' := List.mem_range.1 hj
      exact compareSwap_lockstep (by omega) hst) h0
  refine ⟨st, ?_, ?_⟩
  · unfold bubbleSort
    dsimp only
    rw [e]
    rfl
  · unfold Bubble.sort
    rw [List.length_zipIdx]
    exact h

/-! ## The pairs -/

/-- The pairs stand in the order of their elements, and equal elements in the order of their
positions. -/
def Before (x y : α × ℕ) : Prop := x.1 < y.1 ∨ (x.1 = y.1 ∧ x.2 < y.2)

instance : DecidableRel (Before (α := α)) := fun x y =>
  inferInstanceAs (Decidable (x.1 < y.1 ∨ (x.1 = y.1 ∧ x.2 < y.2)))

theorem sort_pairs_before (alist : List α) :
    (Bubble.sort Larger alist.zipIdx).Pairwise Before := by
  have hsorted := Bubble.sort_sorted (Larger (α := α)) (fun x y h => lt_asymm h)
    (fun x y z h h' => not_lt.2 ((not_lt.1 h).trans (not_lt.1 h'))) alist.zipIdx
  -- an exchange is never of two equal elements
  have hstable : (Bubble.sort Larger alist.zipIdx).Pairwise fun x y => x.1 = y.1 → x.2 < y.2 := by
    refine Bubble.sort_pairwise _ (fun x y h e => absurd h (by rw [Larger, e]; exact lt_irrefl _)) ?_
    have hidx : (alist.zipIdx.map Prod.snd).Pairwise (· < ·) := by
      rw [List.zipIdx_map_snd]
      exact List.pairwise_lt_range'
    refine (List.pairwise_map.1 hidx).imp ?_
    intro x y h _
    exact h
  refine (hsorted.and hstable).imp ?_
  rintro x y ⟨hle, hpos⟩
  rcases (not_lt.1 hle).lt_or_eq with h | h
  · exact Or.inl h
  · exact Or.inr ⟨h, hpos h⟩

theorem map_fst_sort_sorted (alist : List α) :
    ((Bubble.sort Larger alist.zipIdx).map Prod.fst).Pairwise (· ≤ ·) := by
  rw [List.pairwise_map]
  refine (sort_pairs_before alist).imp ?_
  rintro x y (hlt | ⟨heq, -⟩)
  · exact hlt.le
  · exact heq.le

theorem map_fst_sort_perm (alist : List α) :
    ((Bubble.sort Larger alist.zipIdx).map Prod.fst).Perm alist := by
  have := (Bubble.sort_perm Larger alist.zipIdx).map Prod.fst
  rwa [List.zipIdx_map_fst] at this

/-- The two lists that `bubble_sort` returns, as the components of the sorted pairs. -/
theorem bubbleSort_lists (alist : List α) :
    ∃ s p, bubbleSort alist = .ok ((s, p), s) ∧
      Lockstep alist.length (s, p) (Bubble.sort Larger alist.zipIdx) ∧
      s = (Bubble.sort Larger alist.zipIdx).map Prod.fst ∧
      p = (Bubble.sort Larger alist.zipIdx).map Prod.snd := by
  obtain ⟨⟨s, p⟩, e, h⟩ := bubbleSort_pairs alist
  refine ⟨s, p, e, h, ?_, ?_⟩
  · rw [← h.zip, List.map_fst_zip (h.alist.trans h.line_list.symm).le]
  · rw [← h.zip, List.map_snd_zip (h.line_list.trans h.alist.symm).le]

end Order

/-- **`bubble_sort`.** For every list: the first component of the result is the list in order, the second
a permutation of its positions that says where each element comes from, equal elements keep their order,
and the argument is left equal to the first component. -/
theorem bubble_sort_spec (a : List ℤ) :
    ∃ s p alist, bubbleSort a = .ok ((s, p), alist) ∧ s.Pairwise (· ≤ ·) ∧ s.Perm a ∧
      p.Perm (List.range a.length) ∧ (∀ k < a.length, ∃ i, p[k]? = some i ∧ s[k]? = a[i]?) ∧
      (∀ k l i j : ℕ, k < l → p[k]? = some i → p[l]? = some j → s[k]? = s[l]? → i < j) ∧
      alist = s := by
  obtain ⟨s, p, e, h, hs, hp⟩ := bubbleSort_lists a
  have hperm := Bubble.sort_perm (Larger (α := ℤ)) a.zipIdx
  refine ⟨s, p, s, e, ?_, ?_, ?_, ?_, ?_, rfl⟩
  · rw [hs]
    exact map_fst_sort_sorted a
  · rw [hs]
    exact map_fst_sort_perm a
  · have := hperm.map Prod.snd
    rwa [← hp, List.zipIdx_map_snd, ← List.range_eq_range'] at this
  · intro k hk
    obtain ⟨x, i, hsk, hpk, hpair⟩ := lockstep_getElem h hk
    refine ⟨i, hpk, ?_⟩
    have hmem : (x, i) ∈ a.zipIdx := hperm.mem_iff.1 (List.mem_of_getElem? hpair)
    rw [List.mk_mem_zipIdx_iff_getElem?.1 hmem]
    exact hsk
  · intro k l i j hkl hi hj hval
    have hl : l < a.length := by
      have := (List.getElem?_eq_some_iff.1 hj).1
      have := h.line_list
      dsimp only at this
      omega
    obtain ⟨x, i', hsk, hpk, hpair⟩ := lockstep_getElem h (hkl.trans hl)
    obtain ⟨y, j', hsl, hpl, hpair'⟩ := lockstep_getElem h hl
    obtain rfl : i' = i := Option.some.inj (hpk.symm.trans hi)
    obtain rfl : j' = j := Option.some.inj (hpl.symm.trans hj)
    obtain rfl : x = y := Option.some.inj (hsk.symm.trans (hval.trans hsl))
    obtain ⟨hk', hxk⟩ := List.getElem?_eq_some_iff.1 hpair
    obtain ⟨hl', hxl⟩ := List.getElem?_eq_some_iff.1 hpair'
    have hkl' := List.pairwise_iff_getElem.1 (sort_pairs_before a) k l hk' hl' hkl
    rw [hxk, hxl] at hkl'
    rcases hkl' with hlt | ⟨-, hlt⟩
    · exact absurd hlt (lt_irrefl x)
    · exact hlt

end Tdps.TracingPlusColor
