import Mathlib.Data.List.Induction
import Mathlib.Tactic.SplitIfs

/-!
# Bubble sort

Sorting a list in place by exchanging neighbours that are in the wrong order. `gt x y` says that `x` is
to be moved behind `y`. An exchange permutes the list and keeps every relation of earlier to later
elements that `gt` does not speak against (`sort_perm`, `sort_pairwise`: this is stability), and if `gt`
is a strict weak order the result is sorted (`sort_sorted`).
-/

namespace Bubble

variable {α : Type*} (gt : α → α → Prop) [DecidableRel gt]

/-- Exchange the elements `j` and `j + 1` if they are in the wrong order. -/
def compareSwap (l : List α) (j : ℕ) : List α :=
  match l[j]?, l[j + 1]? with
  | some x, some y => if gt x y then (l.set j y).set (j + 1) x else l
  | _, _ => l

/-- Compare and exchange at the positions 0, ..., `m - 1`. -/
def pass (l : List α) (m : ℕ) : List α := (List.range m).foldl (compareSwap gt) l

/-- The passes of lengths `n - 1`, ..., 1 over a list of length `n`. -/
def sort (l : List α) : List α :=
  (List.range (l.length - 1)).foldl (fun l' i => pass gt l' (l.length - i - 1)) l

theorem pass_succ (l : List α) (m : ℕ) :
    pass gt l (m + 1) = compareSwap gt (pass gt l m) m := by
  unfold pass
  rw [List.range_succ, List.foldl_append]
  rfl

/-! ## One exchange -/

theorem compareSwap_append (pre post : List α) (x y : α) :
    compareSwap gt (pre ++ x :: y :: post) pre.length =
      if gt x y then pre ++ y :: x :: post else pre ++ x :: y :: post := by
  have hx : (pre ++ x :: y :: post)[pre.length]? = some x := by simp
  have hy : (pre ++ x :: y :: post)[pre.length + 1]? = some y := by simp
  unfold compareSwap
  rw [hx, hy]
  dsimp only
  split_ifs
  · simp
  · rfl

/-- Nothing happens, or two neighbours in the wrong order change places. -/
theorem compareSwap_cases (l : List α) (j : ℕ) :
    compareSwap gt l j = l ∨
      ∃ pre x y post, l = pre ++ x :: y :: post ∧ gt x y ∧
        compareSwap gt l j = pre ++ y :: x :: post := by
  by_cases hj : j + 1 < l.length
  · have hsplit : l = l.take j ++ l[j] :: l[j + 1] :: l.drop (j + 2) := by
      rw [List.getElem_cons_drop, List.getElem_cons_drop, List.take_append_drop]
    have hlen : (l.take j).length = j := List.length_take_of_le (by omega)
    have hstep := compareSwap_append gt (l.take j) (l.drop (j + 2)) l[j] l[j + 1]
    rw [hlen, ← hsplit] at hstep
    by_cases hgt : gt l[j] l[j + 1]
    · rw [if_pos hgt] at hstep
      exact Or.inr ⟨_, _, _, _, hsplit, hgt, hstep⟩
    · rw [if_neg hgt] at hstep
      exact Or.inl hstep
  · have hnone : l[j + 1]? = none := List.getElem?_eq_none (by omega)
    left
    unfold compareSwap
    rw [hnone]
    cases l[j]? <;> rfl

theorem compareSwap_perm (l : List α) (j : ℕ) : (compareSwap gt l j).Perm l := by
  rcases compareSwap_cases gt l j with e | ⟨pre, x, y, post, rfl, -, e⟩
  · rw [e]
  · rw [e]
    exact (List.Perm.swap x y post).append_left pre

theorem compareSwap_pairwise {R : α → α → Prop} (hR : ∀ x y, gt x y → R y x) {l : List α}
    (h : l.Pairwise R) (j : ℕ) : (compareSwap gt l j).Pairwise R := by
  rcases compareSwap_cases gt l j with e | ⟨pre, x, y, post, rfl, hgt, e⟩
  · rw [e]
    exact h
  · rw [e]
    obtain ⟨hpre, hrest, hcross⟩ := List.pairwise_append.1 h
    obtain ⟨hx, hrest⟩ := List.pairwise_cons.1 hrest
    obtain ⟨hy, hpost⟩ := List.pairwise_cons.1 hrest
    have hx' : ∀ z ∈ post, R x z := fun z hz => hx z (List.mem_cons_of_mem y hz)
    refine List.pairwise_append.2 ⟨hpre, ?_, ?_⟩
    · refine List.pairwise_cons.2 ⟨?_, List.pairwise_cons.2 ⟨hx', hpost⟩⟩
      intro z hz
      rcases List.mem_cons.1 hz with rfl | hz
      · exact hR z y hgt
      · exact hy z hz
    · intro a ha b hb
      exact hcross a ha b ((List.Perm.swap x y post).mem_iff.1 hb)

/-! ## What every exchange keeps -/

/-- **Exchange rule.** What every exchange keeps, the sort keeps. -/
theorem sort_induction {P : List α → Prop} (hstep : ∀ l j, P l → P (compareSwap gt l j)) {l : List α}
    (h : P l) : P (sort gt l) := by
  have hfold : ∀ (js : List ℕ) (l : List α), P l → P (js.foldl (compareSwap gt) l) := by
    intro js
    induction js with
    | nil => exact fun _ h => h
    | cons j js ih => exact fun l h => ih _ (hstep l j h)
  unfold sort
  generalize List.range (l.length - 1) = is
  generalize l.length = n
  induction is generalizing l with
  | nil => exact h
  | cons i is ih => exact ih (hfold _ _ h)

theorem sort_perm (l : List α) : (sort gt l).Perm l :=
  sort_induction gt (P := fun l' => l'.Perm l)
    (fun l' j h => (compareSwap_perm gt l' j).trans h) (List.Perm.refl l)

theorem sort_pairwise {R : α → α → Prop} (hR : ∀ x y, gt x y → R y x) {l : List α}
    (h : l.Pairwise R) : (sort gt l).Pairwise R :=
  sort_induction gt (P := List.Pairwise R) (fun _ j h' => compareSwap_pairwise gt hR h' j) h

/-! ## Sortedness -/

section Sorted

variable (hasymm : ∀ x y, gt x y → ¬ gt y x) (htrans : ∀ x y z, ¬ gt x y → ¬ gt y z → ¬ gt x z)

include hasymm htrans

/-- A pass carries a largest of the first `m + 1` elements to position `m` and leaves the elements
behind it alone. -/
theorem pass_spec {l : List α} {m : ℕ} (hm : m < l.length) :
    ∃ pre x, pass gt l m = pre ++ x :: l.drop (m + 1) ∧ (pre ++ [x]).Perm (l.take (m + 1)) ∧
      ∀ y ∈ pre, ¬ gt y x := by
  induction m with
  | zero =>
    obtain ⟨x, post, rfl⟩ := List.exists_cons_of_length_pos hm
    exact ⟨[], x, rfl, List.Perm.refl _, fun _ h => absurd h List.not_mem_nil⟩
  | succ m ih =>
    obtain ⟨pre, x, hpass, hperm, hmax⟩ := ih (by omega)
    have hlen : pre.length = m := by
      have := hperm.length_eq
      rw [List.length_append, List.length_singleton, List.length_take_of_le (by omega)] at this
      omega
    have htake : l.take (m + 1 + 1) = l.take (m + 1) ++ [l[m + 1]] :=
      List.take_succ_eq_append_getElem hm
    have hdrop : l.drop (m + 1) = l[m + 1] :: l.drop (m + 1 + 1) := List.drop_eq_getElem_cons hm
    have hstep := compareSwap_append gt pre (l.drop (m + 1 + 1)) x l[m + 1]
    rw [hlen, ← hdrop, ← hpass, ← pass_succ] at hstep
    by_cases hgt : gt x l[m + 1]
    · refine ⟨pre ++ [l[m + 1]], x, ?_, ?_, ?_⟩
      · rw [hstep, if_pos hgt]
        simp
      · rw [htake]
        refine List.Perm.trans ?_ (hperm.append_right [l[m + 1]])
        rw [List.append_assoc, List.append_assoc]
        exact (List.Perm.swap x l[m + 1] []).append_left pre
      · intro y hy
        rcases List.mem_append.1 hy with hy | hy
        · exact hmax y hy
        · rw [List.mem_singleton.1 hy]
          exact hasymm _ _ hgt
    · refine ⟨pre ++ [x], l[m + 1], ?_, ?_, ?_⟩
      · rw [hstep, if_neg hgt, hpass, hdrop]
        simp
      · rw [htake]
        exact hperm.append_right [l[m + 1]]
      · intro y hy
        rcases List.mem_append.1 hy with hy | hy
        · exact htrans _ _ _ (hmax y hy) hgt
        · rw [List.mem_singleton.1 hy]
          exact hgt

/-- The last elements are in their places: they are sorted, and no element before them is larger. -/
def Settled (front back : List α) : Prop :=
  back.Pairwise (fun x y => ¬ gt x y) ∧ ∀ a ∈ front, ∀ b ∈ back, ¬ gt a b

/-- A pass over the elements that are not in their places settles one more. -/
theorem settled_pass {front back : List α} {m : ℕ} (hlen : front.length = m + 1)
    (h : Settled gt front back) :
    ∃ front' x, pass gt (front ++ back) m = front' ++ x :: back ∧ front'.length = m ∧
      Settled gt front' (x :: back) := by
  have hm : m < (front ++ back).length := by
    rw [List.length_append]
    omega
  obtain ⟨pre, x, hpass, hperm, hmax⟩ := pass_spec gt hasymm htrans hm
  rw [← hlen, List.drop_left] at hpass
  rw [← hlen, List.take_left] at hperm
  have hmem : ∀ a ∈ pre ++ [x], a ∈ front := fun a ha => hperm.mem_iff.1 ha
  have hx : x ∈ front := hmem x (List.mem_append_right pre List.mem_cons_self)
  refine ⟨pre, x, hpass, ?_, ?_, ?_⟩
  · have := hperm.length_eq
    rw [List.length_append, List.length_singleton] at this
    omega
  · exact List.pairwise_cons.2 ⟨h.2 x hx, h.1⟩
  · intro a ha b hb
    rcases List.mem_cons.1 hb with rfl | hb
    · exact hmax a ha
    · exact h.2 a (hmem a (List.mem_append_left _ ha)) b hb

theorem sort_sorted (l : List α) : (sort gt l).Pairwise fun x y => ¬ gt x y := by
  -- after `k` passes the last `k` elements are settled
  have key : ∀ k, k + 1 ≤ l.length → ∃ front back,
      (List.range k).foldl (fun l' i => pass gt l' (l.length - i - 1)) l = front ++ back ∧
        front.length = l.length - k ∧ Settled gt front back := by
    intro k
    induction k with
    | zero => exact fun _ => ⟨l, [], (List.append_nil l).symm, rfl, by simp [Settled]⟩
    | succ k ih =>
      intro hk
      obtain ⟨front, back, e, hlen, hsettled⟩ := ih (by omega)
      obtain ⟨front', x, hpass, hlen', hsettled'⟩ :=
        settled_pass gt hasymm htrans (m := l.length - k - 1) (by omega) hsettled
      refine ⟨front', x :: back, ?_, by omega, hsettled'⟩
      rw [List.range_succ, List.foldl_append, e]
      exact hpass
  cases hl : l with
  | nil => exact List.Pairwise.nil
  | cons a l' =>
    rw [← hl]
    have hpos : 1 ≤ l.length := by
      rw [hl]
      exact Nat.succ_pos _
    obtain ⟨front, back, e, hlen, hback, hcross⟩ := key (l.length - 1) (by omega)
    obtain ⟨x, rfl⟩ : ∃ x, front = [x] := List.length_eq_one_iff.1 (by omega)
    unfold sort
    rw [e]
    exact List.pairwise_cons.2 ⟨hcross x List.mem_cons_self, hback⟩

end Sorted

end Bubble
